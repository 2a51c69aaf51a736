import Nclav.Guarantees.Creation

/-!
# Which context variables reach a driver

The context variables of an enclave only fill the templates of a partition's own inputs: a
partition is provisioned with its own input keys. So a variable that a driver requires arrives
where the partition declares an input of that name (`context_reaches_partitions`).
-/

namespace Nclav

open Effect Serde

/-! ## The keys of the drivers -/

/-- The context variables of the driver of a cloud. -/
def CloudTarget.contextKeys : CloudTarget → List String
  | .local => []
  | .gcp => ["nclav_project_id", "nclav_region"]
  | .azure =>
    ["nclav_project_id", "nclav_region", "nclav_subscription_id", "nclav_resource_group",
      "nclav_location", "nclav_identity_client_id", "nclav_enclave"]
  | .aws =>
    ["nclav_project_id", "nclav_region", "nclav_account_id", "nclav_role_arn", "nclav_enclave"]

theorem mem_insert_iff {vars : HashMap String String} {name value key : String} :
    key ∈ vars.insert name value ↔ key = name ∨ key ∈ vars := by
  rw [Std.ExtTreeMap.mem_insert, Std.LawfulEqCmp.compare_eq_iff_eq, eq_comm]

/-- The keys are the same for every enclave and every handle. -/
theorem CloudDrivers.mem_contextVars {ds : CloudDrivers} {cloud : CloudTarget} {enc : Enclave}
    {h : Handle} {key : String} :
    key ∈ (ds.driver cloud).contextVars enc h ↔ key ∈ cloud.contextKeys := by
  cases cloud with
  | «local» => simp [driver, LocalDriver.driver, CloudTarget.contextKeys]
  | gcp =>
    simp [driver, GcpDriver.driver, GcpDriver.contextVars, CloudTarget.contextKeys,
      mem_insert_iff, -Std.ExtTreeMap.mem_insert, or_comm]
  | azure =>
    simp [driver, AzureDriver.driver, AzureDriver.contextVars, CloudTarget.contextKeys,
      mem_insert_iff, -Std.ExtTreeMap.mem_insert, or_comm, or_left_comm]
  | aws =>
    simp [driver, AwsDriver.driver, AwsDriver.contextVars, CloudTarget.contextKeys,
      mem_insert_iff, -Std.ExtTreeMap.mem_insert, or_comm, or_left_comm]

/-! ## What arrives -/

/-- Every variable arrives with its value, unless the partition has an input of that name. -/
def ContextArrives (vars inputs resolved : HashMap String String) : Prop :=
  ∀ key value, vars[key]? = some value → resolved[key]? = some value ∨ key ∈ inputs

theorem contextArrives_iff {vars vars' inputs : HashMap String String} {s : EnclaveState} :
    ContextArrives vars inputs (resolveInputs inputs s vars') ↔ ∀ key ∈ vars, key ∈ inputs := by
  constructor
  · intro h key hkey
    obtain ⟨value, hvalue⟩ := Option.isSome_iff_exists.mp
      (Std.ExtTreeMap.isSome_getElem?_iff_mem.mpr hkey)
    rcases h key value hvalue with harrives | hinput
    · rw [get?_resolveInputs] at harrives
      obtain ⟨v, hv, -⟩ := Option.map_eq_some_iff.mp harrives
      exact Std.ExtTreeMap.mem_iff_isSome_getElem?.mpr (by rw [hv]; rfl)
    · exact hinput
  · intro h key value hvalue
    exact .inr (h key (Std.ExtTreeMap.mem_iff_isSome_getElem?.mpr (by rw [hvalue]; rfl)))

/-- How the inputs of a call of `provision_partition` came about: the driver returned the handle
for this enclave before, and the templates were filled from it. -/
structure ResolvedFor (log : List Event) (driver : Driver) (enc : Enclave) (part : Partition)
    (inputs : HashMap String String) (s : EnclaveState) (h : Handle) : Prop where
  returned : ∃ existing outputs,
    (⟨.provisionEnclave driver enc existing, .ok ⟨h, outputs⟩⟩ : Event) ∈ log
  handle : s.enclaveHandle = some h
  inputs : inputs = resolveInputs part.inputs s (driver.contextVars enc h)

theorem ResolvedFor.arrives_iff {log : List Event} {driver : Driver} {enc : Enclave}
    {part : Partition} {inputs : HashMap String String} {s : EnclaveState} {h : Handle}
    (hr : ResolvedFor log driver enc part inputs s h) :
    ContextArrives (driver.contextVars enc h) part.inputs inputs ↔
      ∀ key ∈ driver.contextVars enc h, key ∈ part.inputs := by
  rw [hr.inputs]
  exact contextArrives_iff

theorem ResolvedFor.get? {log : List Event} {driver : Driver} {enc : Enclave}
    {part : Partition} {inputs : HashMap String String} {s : EnclaveState} {h : Handle}
    (hr : ResolvedFor log driver enc part inputs s h) (key : String) :
    inputs[key]? = (part.inputs[key]?).map fun v =>
      resolveTemplate v s (driver.contextVars enc h) := by
  rw [hr.inputs]
  exact get?_resolveInputs _ _ _ _

/-! ## What the drivers do without -/

namespace AwsDriver

variable {d : AwsDriver} {enc : Enclave} {part : Partition} {inputs : HashMap String String}
  {existing : Option Handle}

theorem createPartition_ne_throw {accountId : String} {e : DriverError} :
    d.createPartition enc part accountId ≠ throw e :=
  nofun

/-- A partition fails for want of its account iff it is new and its inputs name no account. -/
theorem provisionPartition_noAccount :
    d.provisionPartition enc part inputs existing = throw (noAccount enc) ↔
      existing.filter isPartitionHandle = none ∧
        ∀ accountId, inputs["nclav_account_id"]? = some accountId → accountId = "" := by
  rw [provisionPartition]
  split
  · rename_i handle hhandle
    exact ⟨nofun, fun h => by rw [hhandle] at h; cases h.1⟩
  rename_i hnew
  rcases hinput : inputs["nclav_account_id"]? with _ | accountId
  · exact ⟨fun _ => ⟨hnew, nofun⟩, fun _ => rfl⟩
  · simp only [Option.getD_some]
    split
    · rename_i hempty
      refine ⟨fun _ => ⟨hnew, ?_⟩, fun _ => rfl⟩
      rintro _ ⟨⟩
      exact String.isEmpty_iff.mp hempty
    · rename_i hempty
      refine ⟨fun h => absurd h createPartition_ne_throw, fun h => ?_⟩
      exact absurd (String.isEmpty_iff.mpr (h.2 accountId rfl)) hempty

end AwsDriver

namespace AzureDriver

/-- A partition is provisioned already, or it is provisioned in this subscription, which is not
taken from the identity of the enclave. -/
def WorksIn (inputs : HashMap String String) (existing : Option Handle) (enc : Enclave)
    (subId : String) : Prop :=
  existing.filter isPartitionHandle = none →
    subscriptionId enc inputs existing = subId ∧
      ((inputs["nclav_subscription_id"]?).isSome = true ∨
        (existing.bind fun h => (h.idx "subscription_id").asStr).isSome = true)

/-- So it is iff it is provisioned already, its inputs name the subscription, or they name none
and the handle passed in is of that subscription. -/
theorem worksIn_iff {inputs : HashMap String String} {existing : Option Handle} {enc : Enclave}
    {subId : String} :
    WorksIn inputs existing enc subId ↔
      (existing.filter isPartitionHandle).isSome = true ∨
        inputs["nclav_subscription_id"]? = some subId ∨
        inputs["nclav_subscription_id"]? = none ∧
          (existing.bind fun h => (h.idx "subscription_id").asStr) = some subId := by
  rw [WorksIn, subscriptionId]
  rcases existing.filter isPartitionHandle with _ | handle
  · rcases inputs["nclav_subscription_id"]? with _ | input
    · rcases existing.bind fun h => (h.idx "subscription_id").asStr with _ | stored
      · simp
      · simp
    · simp
  · simp

end AzureDriver

/-! ## The calls of a history -/

/-- A step calls `provision_partition` with resolved inputs only. -/
theorem RequestStep.resolvedFor {host : Host} {q : Request} {w w₁ : World} {driver : Driver}
    {enc : Enclave} {part : Partition} {inputs : HashMap String String} {existing : Option Handle}
    (hstep : RequestStep host w q w₁ (.provisionPartition driver enc part inputs existing)) :
    ∃ s h, ResolvedFor w₁.log driver enc part inputs s h := by
  cases hstep with
  | quiet hquiet => cases hquiet
  | reconcile _ _ _ _ _ _ _ hstep =>
    cases hstep with
    | quiet hquiet => cases hquiet
    | @provisionPartition _ _ _ result s _ henc hdriver hpart hresult hhandle =>
      refine ⟨s, result.handle, ⟨_, result.outputs, hresult⟩, hhandle, ?_⟩
      rw [EnclaveState.contextVars, hhandle]
      rfl
  | deleteEnclave hstep => cases hstep
  | deletePartition hstep => cases hstep

/-- So it is for every call of a history. -/
theorem resolvedFor_of_call {host : Host} {C : World → Request → Prop} {w : World}
    (h : History anyAnswer host C w) {driver : Driver} {enc : Enclave} {part : Partition}
    {inputs : HashMap String String} {existing : Option Handle} {r : Except DriverError ProvisionResult}
    {older : List Event}
    (hev : (⟨.provisionPartition driver enc part inputs existing, r⟩ : Event) :: older <:+ w.log) :
    ∃ s handle, ResolvedFor older driver enc part inputs s handle := by
  refine History.invariant (P := fun w => ∀ older, (⟨.provisionPartition driver enc part inputs
      existing, r⟩ : Event) :: older <:+ w.log →
    ∃ s handle, ResolvedFor older driver enc part inputs s handle) answerable_anyAnswer
    (fun older h => ?_) (fun w q _ _ w₁ c r' _ hw₁ _ hstep older h => ?_) h older hev
  · exact absurd (List.suffix_nil.mp h) (List.cons_ne_nil _ _)
  · rcases List.suffix_cons_iff.mp h with hnew | hold
    · obtain ⟨hcall, rfl⟩ := List.cons.inj hnew
      cases hcall
      exact hstep.resolvedFor
    · exact hw₁ older hold

/-- **Which context variables reach a driver.** Of a call of `provision_partition`, in every
history: all variables arrive iff each of the cloud's keys is an input of the partition; on AWS
the call does not fail for want of the account iff the partition is provisioned already or its
input for the account resolves to some text; on Azure it works in the subscription of the enclave
handle, and not in one read from the identity, iff the partition is provisioned already, its input
for the subscription resolves to it, or it has none and the handle passed in is of it. -/
theorem context_reaches_partitions {host : Host} {C : World → Request → Prop} {w : World}
    (h : History anyAnswer host C w) (ds : CloudDrivers) {cloud : CloudTarget} {enc : Enclave}
    {part : Partition} {inputs : HashMap String String} {existing : Option Handle}
    {r : Except DriverError ProvisionResult} {older : List Event}
    (hev : (⟨.provisionPartition (ds.driver cloud) enc part inputs existing, r⟩ : Event) :: older <:+
      w.log) :
    ∃ s handle, ResolvedFor older (ds.driver cloud) enc part inputs s handle ∧
      (ContextArrives ((ds.driver cloud).contextVars enc handle) part.inputs inputs ↔
        ∀ key ∈ cloud.contextKeys, key ∈ part.inputs) ∧
      (ds.aws.provisionPartition enc part inputs existing ≠ throw (AwsDriver.noAccount enc) ↔
        (existing.filter AwsDriver.isPartitionHandle).isSome = true ∨
          ∃ v, part.inputs["nclav_account_id"]? = some v ∧
            resolveTemplate v s ((ds.driver cloud).contextVars enc handle) ≠ "") ∧
      (AzureDriver.WorksIn inputs existing enc (strOr handle "subscription_id" "") ↔
        (existing.filter AzureDriver.isPartitionHandle).isSome = true ∨
          (∃ v, part.inputs["nclav_subscription_id"]? = some v ∧
            resolveTemplate v s ((ds.driver cloud).contextVars enc handle) =
              strOr handle "subscription_id" "") ∨
          part.inputs["nclav_subscription_id"]? = none ∧
            (existing.bind fun h => (h.idx "subscription_id").asStr) =
              some (strOr handle "subscription_id" "")) := by
  obtain ⟨s, handle, hresolved⟩ := resolvedFor_of_call h hev
  refine ⟨s, handle, hresolved, ?_, ?_, ?_⟩
  · rw [hresolved.arrives_iff]
    exact forall_congr' fun key => by rw [CloudDrivers.mem_contextVars]
  · rw [Ne, AwsDriver.provisionPartition_noAccount, hresolved.get?]
    rcases existing.filter AwsDriver.isPartitionHandle with _ | handle'
    · simp
    · simp
  · rw [AzureDriver.worksIn_iff, hresolved.get?]
    simp only [Option.map_eq_some_iff, Option.map_eq_none_iff]

/-! ### A partition without inputs -/

/-- An enclave with one partition, which has no inputs. -/
def inputless : FileSystem where
  readConfig path :=
    if path = "enclaves/a/config.yml" then some (.ok "id: a")
    else if path = "enclaves/a/p/config.yml" then some (.ok "id: p")
    else none
  parseYaml text :=
    if text = "id: a" then
      some (.record
        [("id", .str "a"), ("name", .str "a"), ("region", .str "r"), ("partitions", .seq [.str "p"])])
    else if text = "id: p" then some (.record [("id", .str "p"), ("name", .str "p")])
    else none
  yamlError _ := ""

/-- The answers of `azureAnswer`, with those of the Azure driver for partitions. -/
def azurePartitionAnswer (w : World) : (c : Call) → Option (Resp c)
  | .provisionPartition _ enc part inputs existing =>
    (Prog.tryRun recorder.next (fun _ => azureAccepts)
      (plainClouds.azure.provisionPartition enc part inputs existing).run []).map (·.1)
  | c => azureAnswer w c

/-- The world after the run that applies the enclave. -/
def inputlessWorld : World :=
  ((Prog.tryRun World.next azurePartitionAnswer
    (Request.prog plainHost (.reconcile inputless regionlessRoot enclavesRequest azureOnly))
    .empty).map (·.2)).getD .empty

theorem history_inputlessWorld : History anyAnswer plainHost (fun _ _ => True) inputlessWorld := by
  obtain ⟨r, hr⟩ : ∃ r, Prog.tryRun World.next azurePartitionAnswer
      (Request.prog plainHost (.reconcile inputless regionlessRoot enclavesRequest azureOnly))
      .empty = some (r, inputlessWorld) := ⟨_, rfl⟩
  refine .request _ .empty trivial (Prog.exec_tryRun (fun w c r h => ?_) hr).visits
  cases c with
  | provisionPartition => exact ⟨trivial, trivial⟩
  | _ => exact ⟨(adm_azureAnswer w _ r h).1, trivial⟩

/-- The definition as it is loaded. -/
def inputlessEnclave : Enclave :=
  ⟨⟨"a"⟩, "a", none, "r", none, none, none, [], [],
    [⟨⟨"p"⟩, "p", none, [], [], ∅, [], .terraform ⟨none, none, "enclaves/a/p"⟩⟩]⟩

theorem inputlessWorld_call :
    ∃ part ∈ inputlessEnclave.partitions, ∃ older,
      (⟨.provisionPartition (plainClouds.driver .azure) inputlessEnclave part ∅ none,
        .error (AzureDriver.noSubscription inputlessEnclave)⟩ : Event) :: older <:+
          inputlessWorld.log ∧
        part.inputs = ∅ ∧ ∃ result requests,
          (⟨.provisionEnclave (plainClouds.driver .azure) inputlessEnclave none, .ok result⟩ :
            Event) ∈ older ∧
          azureProvision inputlessEnclave none = some (.ok result, requests) ∧
          strOr result.handle "subscription_id" "" = "s" := by
  refine ⟨_, List.mem_cons_self .., inputlessWorld.log.drop 12, ?_, rfl, _, _, ?_, rfl, rfl⟩
  · exact (show _ :: inputlessWorld.log.drop 12 = inputlessWorld.log.drop 11 from rfl) ▸
      List.drop_suffix 11 _
  · exact List.mem_of_getElem? (show (inputlessWorld.log.drop 12)[2]? = some _ from rfl)

/-- What the theorem says of that call. -/
theorem context_reaches_partitions_inputless :
    ∃ part ∈ inputlessEnclave.partitions, ∃ handle,
      (ContextArrives (plainClouds.azure.contextVars inputlessEnclave handle) part.inputs ∅ ↔
        ∀ key ∈ CloudTarget.azure.contextKeys, key ∈ part.inputs) := by
  obtain ⟨part, hpart, older, hev, -, -⟩ := inputlessWorld_call
  obtain ⟨s, handle, -, harrives, -, -⟩ :=
    context_reaches_partitions history_inputlessWorld plainClouds hev
  exact ⟨part, hpart, handle, harrives⟩

/-- **A partition without inputs** on Azure. The enclave was provisioned, in a subscription, and
the partition fails for want of it. -/
theorem subscription_lost :
    ∃ w, History anyAnswer plainHost (fun _ _ => True) w ∧
      ∃ part ∈ inputlessEnclave.partitions, ∃ older result requests,
        (⟨.provisionPartition (plainClouds.driver .azure) inputlessEnclave part ∅ none,
          .error (AzureDriver.noSubscription inputlessEnclave)⟩ : Event) :: older <:+ w.log ∧
        (⟨.provisionEnclave (plainClouds.driver .azure) inputlessEnclave none, .ok result⟩ :
          Event) ∈ older ∧
        azureProvision inputlessEnclave none = some (.ok result, requests) ∧
        strOr result.handle "subscription_id" "" = "s" ∧
        ¬ ContextArrives (plainClouds.azure.contextVars inputlessEnclave result.handle)
          part.inputs ∅ ∧
        ¬ AzureDriver.WorksIn ∅ none inputlessEnclave "s" ∧
        plainClouds.azure.provisionPartition inputlessEnclave part ∅ none =
          throw (AzureDriver.noSubscription inputlessEnclave) := by
  obtain ⟨part, hpart, older, hev, hinputs, result, requests, hprovisioned, hreal, hsub⟩ :=
    inputlessWorld_call
  refine ⟨_, history_inputlessWorld, part, hpart, older, result, requests, hev, hprovisioned,
    hreal, hsub, fun harrives => ?_, fun hworks => ?_, rfl⟩
  · have hkey : "nclav_enclave" ∈
        (plainClouds.driver .azure).contextVars inputlessEnclave result.handle :=
      CloudDrivers.mem_contextVars.mpr (by decide)
    obtain ⟨value, hvalue⟩ := Option.isSome_iff_exists.mp
      (Std.ExtTreeMap.isSome_getElem?_iff_mem.mpr hkey)
    rcases harrives _ value hvalue with hresolved | hinput
    · simp at hresolved
    · rw [hinputs] at hinput
      simp at hinput
  · obtain ⟨-, hknown | hknown⟩ := hworks rfl
    · simp at hknown
    · cases hknown

end Nclav
