import Nclav.Guarantees.ContextVars

/-!
# Whom Terraform runs as

The environment of a Terraform subprocess is built from the handle of the enclave. An apply on GCP
with a key file is told to impersonate the partition's service account; no other subprocess is
told of the partition's own handle. So these run as the partition only where the enclave's handle
names the same identity (`terraform_identity`).
-/

namespace Nclav

open Effect Serde

/-! ## The environments of the drivers -/

/-- If the partition's handle names an identity in this field, the environment has it. -/
def RunsAs (field var : String) (handle : Option Handle) (env : HashMap String String) : Prop :=
  ∀ identity, (handle.bind fun h => (h.idx field).asStr) = some identity →
    env[var]? = some identity

namespace GcpDriver

variable {d : GcpDriver} {key : String} {enc : Enclave} {h : Handle}

/-- The partition's service account. -/
abbrev RunsAsPartition : Option Handle → HashMap String String → Prop :=
  RunsAs "partition_sa" "GOOGLE_IMPERSONATE_SERVICE_ACCOUNT"

theorem get?_authEnv (hkey : d.keyFile = some key) :
    (d.authEnv enc h)["GOOGLE_IMPERSONATE_SERVICE_ACCOUNT"]? = d.enclaveSa enc h := by
  rw [authEnv, hkey]
  rcases hsa : d.enclaveSa enc h with _ | email
  · simp
  · simp [Std.ExtTreeMap.getElem_insert]

theorem contains_authEnv (hkey : d.keyFile = some key) :
    (d.authEnv enc h).contains "GOOGLE_APPLICATION_CREDENTIALS" = true := by
  rw [authEnv, hkey]
  rcases hsa : d.enclaveSa enc h with _ | email
  · simp
  · simp

/-- An apply runs as the partition, whatever the enclave's handle is. -/
theorem runsAs_partitionAuthEnv (hkey : d.keyFile = some key) {s : EnclaveState}
    (hs : s.enclaveHandle = some h) (sa : Handle) :
    RunsAsPartition (some sa) (partitionAuthEnv d.driver enc s sa) := by
  intro email hemail
  have hcreds : (d.driver.authEnv enc h).contains "GOOGLE_APPLICATION_CREDENTIALS" = true :=
    contains_authEnv hkey
  have hsa : (sa.idx "partition_sa").asStr = some email := hemail
  simp only [partitionAuthEnv, hs, Option.map_some, Option.getD_some, if_pos hcreds, hsa]
  exact Std.ExtTreeMap.getElem?_insert_self

/-- Any other subprocess runs as the enclave. -/
theorem runsAs_authEnv_iff (hkey : d.keyFile = some key) {encHandle handle : Option Handle} :
    RunsAsPartition handle ((encHandle.map (d.authEnv enc)).getD ∅) ↔
      ∀ email, (handle.bind fun h => (h.idx "partition_sa").asStr) = some email →
        ∃ h, encHandle = some h ∧ d.enclaveSa enc h = some email := by
  refine forall_congr' fun email => imp_congr_right fun _ => ?_
  rcases encHandle with _ | h
  · simp
  · rw [Option.map_some, Option.getD_some, get?_authEnv hkey]
    simp

end GcpDriver

namespace AwsDriver

variable {d : AwsDriver} {enc : Enclave} {h : Handle}

/-- The partition's role. -/
abbrev RunsAsPartition : Option Handle → HashMap String String → Prop :=
  RunsAs "partition_role_arn" "AWS_ROLE_ARN"

theorem get?_authEnv :
    (d.authEnv enc h)["AWS_ROLE_ARN"]? =
      ((h.idx "partition_role_arn").asStr).filter (· ≠ "") := by
  rcases hrole : (h.idx "partition_role_arn").asStr with _ | arn
  · simp [authEnv, strOr, hrole]
  · by_cases harn : arn = ""
    · simp [authEnv, strOr, hrole, harn, Option.filter_some]
    · simp [authEnv, strOr, hrole, harn, Option.filter_some]

/-- Every subprocess runs as the role in the enclave's handle. -/
theorem runsAs_authEnv_iff {encHandle handle : Option Handle} :
    RunsAsPartition handle ((encHandle.map (d.authEnv enc)).getD ∅) ↔
      ∀ arn, (handle.bind fun h => (h.idx "partition_role_arn").asStr) = some arn →
        ∃ h, encHandle = some h ∧ (h.idx "partition_role_arn").asStr = some arn ∧ arn ≠ "" := by
  refine forall_congr' fun arn => imp_congr_right fun _ => ?_
  rcases encHandle with _ | h
  · simp
  · rw [Option.map_some, Option.getD_some, get?_authEnv]
    simp [Option.filter_eq_some_iff]

/-- There is no service account to impersonate. -/
theorem partitionAuthEnv_driver {s : EnclaveState} (sa : Handle) :
    partitionAuthEnv d.driver enc s sa = (s.enclaveHandle.map (d.authEnv enc)).getD ∅ := by
  have hcreds : ((s.enclaveHandle.map (d.driver.authEnv enc)).getD ∅).contains
      "GOOGLE_APPLICATION_CREDENTIALS" = false := by
    rcases s.enclaveHandle with _ | h
    · simp
    · simp only [Option.map_some, Option.getD_some, driver, authEnv]
      split
      · simp
      · simp
  simp only [partitionAuthEnv, hcreds]
  rfl

end AwsDriver

/-! ## The subprocesses of a request -/

/-- Terraform is run. -/
def Call.isTerraform : Call → Bool
  | .tfProvision _ _ _ _ _ _ => true
  | .tfTeardown _ _ _ _ _ => true
  | _ => false

theorem Call.not_isQuiet {c : Call} (h : c.isTerraform = true) : ¬ c.isQuiet = true := by
  cases c <;> first | exact Bool.false_ne_true | cases h

def Request.registry : Request → DriverRegistry
  | .reconcile _ _ _ registry => registry
  | .deleteEnclave state _ _ | .deletePartition state _ _ => state.registry

/-- Where a call that runs Terraform comes from: the driver, the enclave, its handle, the handle
of the partition and the environment. `stored` is the store when the request began, `older` the
log before the call. -/
inductive TerraformRun (registry : DriverRegistry) (stored : Store) (older : List Event) :
    Call → Driver → Enclave → Option Handle → Option Handle → HashMap String String → Prop
  /-- the handle that the driver has just returned for the partition -/
  | provision {driver : Driver} {enc : Enclave} {part : Partition} {s : EnclaveState}
    {inputs : HashMap String String} {sa : ProvisionResult} {h : Handle} {tf : TerraformBackend}
    {runId : Option Uuid} (hdriver : registry.forEnclave enc = .ok driver)
    (hsa : older.findSome? Event.partitionSa = some (driver, enc, part, inputs, sa))
    (hhandle : s.enclaveHandle = some h) :
    TerraformRun registry stored older
      (.tfProvision tf enc part inputs (partitionAuthEnv driver enc s sa.handle) runId)
      driver enc (some h) (some sa.handle) (partitionAuthEnv driver enc s sa.handle)
  /-- the handle that is stored for the partition -/
  | teardown {driver : Driver} {id : EnclaveId} {s : EnclaveState} {pid : PartitionId}
    {ps : PartitionState} {env : HashMap String String} {tf : TerraformBackend}
    {runId : Option Uuid} (hs : stored.get? id = some s)
    (hdriver : registry.forCloud (registry.stateCloud s) = .ok driver)
    (hpart : s.partitions[pid]? = some ps)
    (henv : env = (s.enclaveHandle.map (driver.authEnv s.desired)).getD ∅) :
    TerraformRun registry stored older (.tfTeardown tf s.desired ps.desired env runId)
      driver s.desired s.enclaveHandle ps.partitionHandle env

section

variable {host : Host} {q : Request} {w₀ w₁ : World} {c : Call}

/-- A step that runs Terraform does so in one of these ways. -/
theorem RequestStep.terraformRun (hstep : RequestStep host w₀ q w₁ c)
    (hc : c.isTerraform = true) : ∃ driver enc encHandle handle env,
      TerraformRun q.registry w₀.store w₁.log c driver enc encHandle handle env := by
  cases hstep with
  | quiet hquiet => exact absurd hquiet (Call.not_isQuiet hc)
  | reconcile _ _ _ _ _ hregistry hexisting hstep =>
    subst hregistry
    cases hstep with
    | quiet hquiet => exact absurd hquiet (Call.not_isQuiet hc)
    | tfTeardown hs hdriver hhandle hpart =>
      rw [hexisting] at hs
      exact ⟨_, _, _, _, _, .teardown hs hdriver hpart (by rw [hhandle]; rfl)⟩
    | tfProvision _ hdriver _ _ hhandle hsa =>
      exact ⟨_, _, _, _, _, .provision hdriver hsa hhandle⟩
    | _ => cases hc
  | deleteEnclave hstep | deletePartition hstep =>
    cases hstep with
    | tfTeardown hs hdriver hpart henv =>
      exact ⟨_, _, _, _, _, .teardown hs hdriver hpart henv⟩
    | _ => cases hc

/-- So does every call of the request. -/
theorem terraformRun_of_call {C : World → Request → Prop} {w : World}
    (h : History anyAnswer host C w₀) (hv : Prog.Visits (system anyAnswer) (q.prog host) w₀ w)
    {r : Resp c} {older : List Event} (hev : (⟨c, r⟩ : Event) :: older <:+ w.log)
    (hnew : w₀.log <:+ older) (hc : c.isTerraform = true) :
    ∃ driver enc encHandle handle env,
      TerraformRun q.registry w₀.store older c driver enc encHandle handle env := by
  refine (Request.steps_of_visits answerable_anyAnswer h.replayed hv).invariant
    (I := fun w₁ => ∀ older, (⟨c, r⟩ : Event) :: older <:+ w₁.log → w₀.log <:+ older →
      ∃ driver enc encHandle handle env,
        TerraformRun q.registry w₀.store older c driver enc encHandle handle env)
    (fun w₁ c' r' hstep hw₁ older hev hnew => ?_) (fun older hev hnew => ?_) older hev hnew
  · rcases List.suffix_cons_iff.mp hev with hlast | hold
    · obtain ⟨hcall, rfl⟩ := List.cons.inj hlast
      cases hcall
      exact hstep.terraformRun hc
    · exact hw₁ older hold hnew
  · have hlen := (hev.trans hnew).length_le
    rw [List.length_cons] at hlen
    omega

/-- In the environment of an apply on GCP with a key file the partition's service account is
impersonated; in that of a destroy it is iff it is the enclave's one. -/
theorem TerraformRun.gcp {registry : DriverRegistry} {stored : Store} {older : List Event}
    {enc : Enclave} {encHandle handle : Option Handle} {env : HashMap String String}
    {d : GcpDriver} {key : String} (hkey : d.keyFile = some key)
    (h : TerraformRun registry stored older c d.driver enc encHandle handle env) :
    GcpDriver.RunsAsPartition handle env ↔
      (∃ tf part inputs runId, c = .tfProvision tf enc part inputs env runId) ∨
        ∀ email, (handle.bind fun h => (h.idx "partition_sa").asStr) = some email →
          ∃ h, encHandle = some h ∧ d.enclaveSa enc h = some email := by
  generalize hd : d.driver = driver at h
  cases h with
  | provision hdriver hsa hhandle =>
    subst hd
    exact ⟨fun _ => .inl ⟨_, _, _, _, rfl⟩,
      fun _ => GcpDriver.runsAs_partitionAuthEnv hkey hhandle _⟩
  | teardown hs hdriver hpart henv =>
    subst hd henv
    rw [show d.driver.authEnv = d.authEnv from rfl, GcpDriver.runsAs_authEnv_iff hkey]
    refine ⟨.inr, fun h => h.resolve_left ?_⟩
    rintro ⟨_, _, _, _, hother⟩
    cases hother

/-- On AWS the role is the one in the enclave's handle. -/
theorem TerraformRun.aws {registry : DriverRegistry} {stored : Store} {older : List Event}
    {enc : Enclave} {encHandle handle : Option Handle} {env : HashMap String String}
    {d : AwsDriver}
    (h : TerraformRun registry stored older c d.driver enc encHandle handle env) :
    AwsDriver.RunsAsPartition handle env ↔
      ∀ arn, (handle.bind fun h => (h.idx "partition_role_arn").asStr) = some arn →
        ∃ h, encHandle = some h ∧ (h.idx "partition_role_arn").asStr = some arn ∧ arn ≠ "" := by
  generalize hd : d.driver = driver at h
  cases h with
  | provision hdriver hsa hhandle =>
    subst hd
    rw [AwsDriver.partitionAuthEnv_driver, hhandle]
    exact AwsDriver.runsAs_authEnv_iff
  | teardown hs hdriver hpart henv =>
    subst hd henv
    rw [show d.driver.authEnv = d.authEnv from rfl, AwsDriver.runsAs_authEnv_iff]

end

/-- **Whom Terraform runs as.** Every Terraform subprocess of a request comes from a handle of the
partition, just returned or stored. On GCP with a key file it runs as the service account in that
handle iff it is an apply or the handle names none or the enclave's own; on AWS it runs as the
role in that handle iff this names none or the enclave's handle names the same, and the handle of
a new enclave names no role. -/
theorem terraform_identity {host : Host} {C : World → Request → Prop} {w₀ w : World}
    (h : History anyAnswer host C w₀) (q : Request)
    (hv : Prog.Visits (system anyAnswer) (q.prog host) w₀ w) {c : Call} {r : Resp c}
    {older : List Event} (hev : (⟨c, r⟩ : Event) :: older <:+ w.log) (hnew : w₀.log <:+ older)
    (hc : c.isTerraform = true) :
    ∃ driver enc encHandle handle env,
      TerraformRun q.registry w₀.store older c driver enc encHandle handle env ∧
      (∀ d : GcpDriver, driver = d.driver → d.keyFile.isSome = true →
        (GcpDriver.RunsAsPartition handle env ↔
          (∃ tf part inputs runId, c = .tfProvision tf enc part inputs env runId) ∨
            ∀ email, (handle.bind fun h => (h.idx "partition_sa").asStr) = some email →
              ∃ h, encHandle = some h ∧ d.enclaveSa enc h = some email)) ∧
      ∀ d : AwsDriver, driver = d.driver →
        (AwsDriver.RunsAsPartition handle env ↔
          ∀ arn, (handle.bind fun h => (h.idx "partition_role_arn").asStr) = some arn →
            ∃ h, encHandle = some h ∧ (h.idx "partition_role_arn").asStr = some arn ∧
              arn ≠ "") ∧
        Returns (fun result => (result.handle.idx "partition_role_arn").asStr = none)
          (d.createEnclave enc) := by
  obtain ⟨driver, enc, encHandle, handle, env, hrun⟩ := terraformRun_of_call h hv hev hnew hc
  refine ⟨driver, enc, encHandle, handle, env, hrun, ?_, ?_⟩
  · rintro d rfl hkey
    obtain ⟨key, hkey⟩ := Option.isSome_iff_exists.mp hkey
    exact hrun.gcp hkey
  · rintro d rfl
    exact ⟨hrun.aws, AwsDriver.createEnclave_role enc⟩

/-! ### A partition on GCP is deleted -/

/-- A driver with a key file. -/
def keyedGcp : GcpDriver := ⟨plainLib, ⟨"", "", none⟩, ⟨"", "", "", "", "", "", "", ""⟩, some "/key.json"⟩

def keyedOnly : DriverRegistry := ⟨.gcp, fun c => if c = .gcp then some keyedGcp.driver else none⟩

/-- No call fails, and each partition has a service account. -/
def saAnswer (w : World) : (c : Call) → Resp c
  | .provisionEnclave _ _ _ => .ok ⟨.object [("project_id", .str "a")], ∅⟩
  | .provisionPartition _ _ _ _ _ =>
    .ok ⟨.object
      [("driver", .str "gcp"), ("kind", .str "partition"), ("type", .str "iac"),
       ("project_id", .str "a"), ("partition_sa", .str "partition-p@a.iam.gserviceaccount.com")], ∅⟩
  | c => okAnswer w c

theorem answers_saAnswer (w : World) (c : Call) : answers w c (saAnswer w c) := by
  cases c <;> first | trivial | exact answers_okAnswer w _

/-- The run that applies the enclave with its partition. -/
def applyKeyed : Request := .reconcile inputless regionlessRoot enclavesRequest keyedOnly

def keyedWorld : World := (Prog.run World.next saAnswer (applyKeyed.prog plainHost) .empty).2

theorem visits_keyedWorld :
    Prog.Visits (system anyAnswer) (applyKeyed.prog plainHost) .empty keyedWorld :=
  (Prog.exec_run (M := system anyAnswer) (fun w c => ⟨answers_saAnswer w c, trivial⟩) _ _).visits

/-- The request that deletes the partition. -/
def deleteKeyed : Request := .deletePartition ⟨keyedOnly, "", ""⟩ ⟨"a"⟩ ⟨"p"⟩

def unkeyedWorld : World := (Prog.run World.next okAnswer (deleteKeyed.prog plainHost) keyedWorld).2

theorem visits_unkeyedWorld :
    Prog.Visits (system anyAnswer) (deleteKeyed.prog plainHost) keyedWorld unkeyedWorld :=
  (exec_okAnswer _ _).visits

/-- The apply of the partition runs as the service account that was just returned. -/
theorem terraform_identity_keyed :
    ∃ tf part inputs env runId r older,
      (⟨.tfProvision tf inputlessEnclave part inputs env runId, r⟩ : Event) :: older <:+
        keyedWorld.log ∧
      env["GOOGLE_IMPERSONATE_SERVICE_ACCOUNT"]? =
        some "partition-p@a.iam.gserviceaccount.com" := by
  have hev : keyedWorld.log.drop 11 <:+ keyedWorld.log := List.drop_suffix _ _
  obtain ⟨tf, part, inputs, env, runId, r, hcall⟩ : ∃ tf part inputs env runId r,
      keyedWorld.log.drop 11 =
        (⟨.tfProvision tf inputlessEnclave part inputs env runId, r⟩ : Event) ::
          keyedWorld.log.drop 12 := ⟨_, _, _, _, _, _, rfl⟩
  have hreturned : ((keyedWorld.log.drop 12).findSome? Event.partitionSa).map
      (fun sa => (sa.2.2.2.2.handle.idx "partition_sa").asStr) =
        some (some "partition-p@a.iam.gserviceaccount.com") := rfl
  rw [hcall] at hev
  obtain ⟨driver, enc, encHandle, handle, env', hrun, hgcp, -⟩ :=
    terraform_identity (C := fun _ _ => True) .empty applyKeyed visits_keyedWorld hev
      (List.nil_suffix) rfl
  cases hrun with
  | provision hdriver hsa hhandle =>
    have hkeyed := hgcp keyedGcp (Except.ok.inj hdriver).symm rfl
    rw [hsa] at hreturned
    exact ⟨_, _, _, _, _, _, _, hev,
      hkeyed.mpr (.inl ⟨_, _, _, _, rfl⟩) _ (Option.some.inj hreturned)⟩

/-- **A partition on GCP is deleted.** Its stored handle names its service account, and the
destroy is not told to impersonate any. -/
theorem destroy_not_as_partition :
    ∃ w v, History anyAnswer plainHost (fun _ _ => True) w ∧
      Prog.Visits (system anyAnswer) (deleteKeyed.prog plainHost) w v ∧
      ∃ s ps tf env older, w.store.get? ⟨"a"⟩ = some s ∧ s.partitions[(⟨"p"⟩ : PartitionId)]? = some ps ∧
        (⟨.tfTeardown tf s.desired ps.desired env none, .ok ()⟩ : Event) :: older <:+ v.log ∧
        w.log <:+ older ∧ tf.testMode = false ∧
        (ps.partitionHandle.bind fun h => (h.idx "partition_sa").asStr) =
          some "partition-p@a.iam.gserviceaccount.com" ∧
        env["GOOGLE_APPLICATION_CREDENTIALS"]? = some "/key.json" ∧
        ¬ GcpDriver.RunsAsPartition ps.partitionHandle env := by
  have hev : unkeyedWorld.log.drop 3 <:+ unkeyedWorld.log := List.drop_suffix _ _
  refine ⟨keyedWorld, unkeyedWorld, .request applyKeyed .empty trivial visits_keyedWorld,
    visits_unkeyedWorld, _, _, _, _, unkeyedWorld.log.drop 4, rfl, rfl, hev, ?_, rfl, rfl, rfl,
    fun hruns => ?_⟩
  · rw [show keyedWorld.log = (unkeyedWorld.log.drop 4).drop 1 from rfl]
    exact List.drop_suffix _ _
  · exact absurd (hruns "partition-p@a.iam.gserviceaccount.com" rfl) (by decide)

end Nclav
