import Nclav.Driver.Clouds
import Nclav.Guarantees.OwnHandles
import Nclav.Reconciler.Applied

/-!
# Whether a changed enclave reaches the cloud

A driver returns a complete handle as it is, and the enclave is active with its new definition all
the same. So every part of an active enclave has been created as long as no enclave with a
complete handle asks for a part that has not been (`active_created`); the first that does is
recorded as applied.
-/

namespace Nclav

open Effect

section

variable (ds : CloudDrivers) (requests : Requests)

/-- Every part of the definition in the record has been created, if the cloud is a public one and
the handle complete. -/
def EnclaveState.Made (log : List Event) (s : EnclaveState) : Prop :=
  ∀ cloud, s.resolvedCloud = some cloud → cloud ≠ .local →
    ∀ h, s.enclaveHandle = some h → Handle.complete h = true →
      ∀ part ∈ s.desired.resources, ds.Created requests log cloud s.desired.id part

/-- An active record has a complete handle and the hash of its definition. -/
structure EnclaveState.ActiveComplete (host : Host) (s : EnclaveState) : Prop where
  hash : s.meta_.status = .active → s.meta_.desiredHash = some (host.enclaveHash s.desired)
  complete : s.meta_.status = .active → ∀ cloud, s.resolvedCloud = some cloud → cloud ≠ .local →
    ∃ h, s.enclaveHandle = some h ∧ Handle.complete h = true

/-- A listed enclave whose stored handle is complete asks only for parts that have been created on
the public cloud that it resolves to. -/
def AsksForCreated (registry : DriverRegistry) (desired : List Enclave) (w : World) : Prop :=
  ∀ enc ∈ desired, ∀ driver, registry.forEnclave enc = .ok driver →
    registry.resolvedCloud enc ≠ .local →
      ∀ s, w.store.get? enc.id = some s → ∀ h, s.enclaveHandle = some h →
        Handle.complete h = true → ∀ part ∈ enc.resources,
          ds.Created requests w.log (registry.resolvedCloud enc) enc.id part

/-- A reconcile that is not dry and accepts its list asks for nothing new of an enclave whose
handle is complete. -/
def Request.AsksForCreated (host : Host) (w : World) : Request → Prop
  | .reconcile fs root req registry => req.dryRun = false →
      ∀ desired, loadEnclaves fs req.enclavesDir root = .ok desired →
        (∃ resolved, validate host.topo desired = .ok resolved) →
        Nclav.AsksForCreated ds requests registry desired w
  | .deleteEnclave _ _ _ | .deletePartition _ _ _ => True

end

section

variable {host : Host} {ds : CloudDrivers} {requests : Requests}

theorem EnclaveState.Made.mono {log log' : List Event} {s : EnclaveState}
    (h : s.Made ds requests log) (hlog : log <:+ log') : s.Made ds requests log' :=
  fun cloud hcloud hpublic handle hhandle hcomplete part hpart =>
    (h cloud hcloud hpublic handle hhandle hcomplete part hpart).mono hlog

/-- The record of a visited enclave: all parts have been created if its handle is complete. -/
theorem made_of_upsert {run : Run} {desired : List Enclave} {w w₁ : World} {enc : Enclave}
    {driver : Driver} {s : EnclaveState} (hdraws : run.registry.Draws ds.driver)
    (hexisting : ∀ id, run.existing id = w.store.get? id)
    (hasks : Nclav.AsksForCreated ds requests run.registry desired w) (hlog : w.log <:+ w₁.log)
    (htraced : ds.Traced requests w₁.log) (henc : enc ∈ desired)
    (hdriver : run.registry.forEnclave enc = .ok driver) (hdesired : s.desired = enc)
    (hcloud : s.resolvedCloud = some (run.registry.resolvedCloud enc))
    (hhandle : (s.enclaveHandle = (run.existing enc.id).bind (·.enclaveHandle) ∧
        s.meta_.status ≠ .active) ∨
      s.meta_.desiredHash = some (run.host.enclaveHash enc) ∧
        ∃ result, run.Provisioned w₁ driver enc result ∧ s.enclaveHandle = some result.handle) :
    s.Made ds requests w₁.log ∧ s.ActiveComplete run.host := by
  -- a complete handle that was stored before the run
  have hold : run.registry.resolvedCloud enc ≠ .local → ∀ h,
      (run.existing enc.id).bind (·.enclaveHandle) = some h → Handle.complete h = true →
        ∀ part ∈ enc.resources,
          ds.Created requests w₁.log (run.registry.resolvedCloud enc) enc.id part := by
    intro hpublic h hh hcomplete part hpart
    rw [hexisting] at hh
    obtain ⟨s₀, hs₀, hsome⟩ := Option.bind_eq_some_iff.mp hh
    exact (hasks enc henc driver hdriver hpublic s₀ hs₀ h hsome hcomplete part hpart).mono hlog
  rcases hhandle with ⟨hkept, hactive⟩ | ⟨hhash, result, hresult, hnew⟩
  · refine ⟨fun cloud hc hpublic h hh hcomplete => ?_, fun h => absurd h hactive,
      fun h => absurd h hactive⟩
    obtain rfl := Option.some.inj (hcloud.symm.trans hc)
    rw [hdesired]
    exact hold hpublic h (hkept.symm.trans hh) hcomplete
  · obtain rfl := hdraws.forCloud hdriver
    have hprovisioned := fun hpublic => htraced.provisioned hpublic hresult
    refine ⟨fun cloud hc hpublic h hh hcomplete => ?_, fun _ => ?_, fun _ cloud hc hpublic => ?_⟩
    · obtain rfl := Option.some.inj (hcloud.symm.trans hc)
      rw [hdesired]
      rcases (hprovisioned hpublic).2 with hreuse | hcreated
      · exact hold hpublic _ hreuse (hprovisioned hpublic).1
      · exact hcreated
    · rw [hdesired]
      exact hhash
    · obtain rfl := Option.some.inj (hcloud.symm.trans hc)
      exact ⟨_, hnew, (hprovisioned hpublic).1⟩

/-- A step of a reconcile writes such records only. -/
theorem ReconcileStep.made {run : Run} {desired : List Enclave} {w w₁ : World} {s : EnclaveState}
    (hstep : ReconcileStep run desired w₁ (.upsertEnclave s))
    (hdraws : run.registry.Draws ds.driver)
    (hexisting : ∀ id, run.existing id = w.store.get? id)
    (hasks : Nclav.AsksForCreated ds requests run.registry desired w) (hlog : w.log <:+ w₁.log)
    (htraced : ds.Traced requests w₁.log)
    (hw₁ : w₁.Records fun s => s.Made ds requests w₁.log ∧ s.ActiveComplete run.host) :
    s.Made ds requests w₁.log ∧ s.ActiveComplete run.host := by
  cases hstep with
  | quiet hquiet => cases hquiet
  | upsertEnclave henc hdriver hdesired hcloud hhandle =>
    exact made_of_upsert hdraws hexisting hasks hlog htraced henc hdriver hdesired hcloud hhandle
  | @rewire s₀ _ hs hrest =>
    have hmade := hw₁ _ s₀ hs
    have hdesired : s.desired = s₀.desired := congrArg (·.desired) hrest
    have hhandle : s.enclaveHandle = s₀.enclaveHandle := congrArg (·.enclaveHandle) hrest
    have hcloud : s.resolvedCloud = s₀.resolvedCloud := congrArg (·.resolvedCloud) hrest
    have hmeta : s.meta_ = s₀.meta_ := congrArg (·.meta_) hrest
    refine ⟨?_, ?_, ?_⟩
    · rw [EnclaveState.Made, hdesired, hhandle, hcloud]
      exact hmade.1
    · rw [hmeta, hdesired]
      exact hmade.2.hash
    · rw [hmeta, hcloud, hhandle]
      exact hmade.2.complete

end

/-- The histories in which every enclave with a complete handle asks for created parts only. -/
def CreatedHistory (host : Host) (ds : CloudDrivers) (requests : Requests) : World → Prop :=
  History anyAnswer host fun w q => q.Draws ds.driver ∧ q.AsksForCreated ds requests host w

/-- The parts of an active enclave have been created, in every such history. -/
theorem created_of_active {host : Host} {ds : CloudDrivers} {requests : Requests} {w : World}
    (h : CreatedHistory host ds requests w) (htraced : ds.Traced requests w.log)
    {id : EnclaveId} {s : EnclaveState} (hs : w.store.get? id = some s)
    (hactive : s.meta_.status = .active) :
    s.meta_.desiredHash = some (host.enclaveHash s.desired) ∧
      ∀ cloud, s.resolvedCloud = some cloud → cloud ≠ .local →
        ∀ part ∈ s.desired.resources, ds.Created requests w.log cloud id part := by
  have hinv : ds.Traced requests w.log →
      w.Records fun s => s.Made ds requests w.log ∧ s.ActiveComplete host := by
    refine History.invariant (P := fun w => ds.Traced requests w.log →
      w.Records fun s => s.Made ds requests w.log ∧ s.ActiveComplete host)
      answerable_anyAnswer (fun _ id s hs => ?_) (fun w q _ hq w₁ c r hlog hw₁ _ hstep htraced => ?_) h
    · simp [World.empty] at hs
    have hnext : w₁.log <:+ (w₁.next c r).log := List.suffix_cons _ _
    have hprev := hw₁ (htraced.mono hnext)
    have hkept : w₁.Records fun s => s.Made ds requests (w₁.next c r).log ∧ s.ActiveComplete host :=
      fun id s hs => ⟨(hprev id s hs).1.mono hnext, (hprev id s hs).2⟩
    refine World.Records.next hkept c r ?_ fun id pid _ s hs => ⟨hs.1, hs.2.hash, hs.2.complete⟩
    rintro s rfl
    cases hstep with
    | quiet hquiet => cases hquiet
    | @reconcile fs root req registry desired resolved run _ _ hload hvalid hdry hhost _ hregistry
        hexisting hstep =>
      subst hhost hregistry
      have hmade := hstep.made hq.1 hexisting (hq.2 hdry desired hload ⟨resolved, hvalid⟩) hlog
        (htraced.mono hnext) hprev
      exact ⟨hmade.1.mono hnext, hmade.2⟩
    | deleteEnclave hstep => cases hstep
    | deletePartition hstep => cases hstep
  obtain ⟨hmade, hcomplete⟩ := hinv htraced id s hs
  refine ⟨hcomplete.hash hactive, fun cloud hcloud hpublic part hpart => ?_⟩
  obtain ⟨handle, hhandle, hh⟩ := hcomplete.complete hactive cloud hcloud hpublic
  rw [← Store.id_of_get? hs]
  exact hmade cloud hcloud hpublic handle hhandle hh part hpart

/-- **A changed enclave reaches the cloud**, in every history of requests in which no enclave with
a complete handle asks for a part that has not been created: all parts of an active enclave have
been created, and after a run without errors these are the parts of the listed definition. -/
theorem changes_reach_cloud {host : Host} {ds : CloudDrivers} {requests : Requests} {w : World}
    (h : CreatedHistory host ds requests w) (htraced : ds.Traced requests w.log) :
    (∀ id s, w.store.get? id = some s → s.meta_.status = .active →
      s.meta_.desiredHash = some (host.enclaveHash s.desired) ∧
        ∀ cloud, s.resolvedCloud = some cloud → cloud ≠ .local →
          ∀ part ∈ s.desired.resources, ds.Created requests w.log cloud id part) ∧
      ∀ fs root req registry desired report w', host.topo.Lawful → req.dryRun = false →
        loadEnclaves fs req.enclavesDir root = .ok desired → (desired.map (·.id)).Nodup →
        registry.Draws ds.driver → Nclav.AsksForCreated ds requests registry desired w →
        Prog.Exec (system anyAnswer) (reconcile host fs root req registry).run w (.ok report) w' →
        report.errors = [] → ds.Traced requests w'.log →
        ∀ enc ∈ desired, ∃ s, w'.store.get? enc.id = some s ∧ s.desired = enc ∧
          s.meta_.status = .active ∧ (registry.resolvedCloud enc ≠ .local →
            ∀ part ∈ enc.resources,
              ds.Created requests w'.log (registry.resolvedCloud enc) enc.id part) := by
  refine ⟨fun id s hs hactive => created_of_active h htraced hs hactive, ?_⟩
  intro fs root req registry desired report w' hlawful hdry hload hnodup hdraws hasks hrun
    herrors htraced' enc henc
  have hloaded := hrun
  rw [reconcile_of_loaded hload] at hloaded
  obtain ⟨run, resolved, removed, hstart, hsettled⟩ :=
    settled_of_run hlawful hdry hnodup hloaded herrors
  obtain ⟨driver, s, s', -, hs', hrest, hvisited⟩ := hsettled.visited enc henc
  have hdesired : s'.desired = enc :=
    (show s'.desired = s.desired from congrArg (·.desired) hrest).trans hvisited.desired
  have hcloud : s'.resolvedCloud = some (registry.resolvedCloud enc) := by
    rw [show s'.resolvedCloud = s.resolvedCloud from congrArg (·.resolvedCloud) hrest,
      hvisited.cloud, hstart.registry_eq]
  have hactive : s'.meta_.status = .active := by
    obtain ⟨now, hmeta⟩ := hvisited.meta_
    rw [show s'.meta_ = s.meta_ from congrArg (·.meta_) hrest, hmeta]
    rfl
  have hnext : CreatedHistory host ds requests w' := by
    refine .request (.reconcile fs root req registry) h ⟨hdraws, fun _ desired' hload' _ => ?_⟩
      hrun.visits
    obtain rfl := Except.ok.inj (hload.symm.trans hload')
    exact hasks
  refine ⟨s', hs', hdesired, hactive, fun hpublic part hpart => ?_⟩
  refine (created_of_active hnext htraced' hs' hactive).2 _ hcloud hpublic part ?_
  rw [hdesired]
  exact hpart

/-! ### A subnet is added -/

/-- A library whose functions nobody looks at. -/
def plainLib : Lib :=
  ⟨fun c => c.isAlphanum, fun c => c = ' ', fun s => s, fun _ => "", fun _ => "", fun _ _ => none,
    fun _ _ => [], fun _ => ""⟩

def plainClouds : CloudDrivers where
  gcp := ⟨plainLib, ⟨"", "", none⟩, ⟨"", "", "", "", "", "", "", ""⟩, none⟩
  azure := ⟨plainLib, ⟨"", "", "", "", "", "", none, none, none⟩, "", false⟩
  aws := ⟨plainLib, ⟨"", "", "", none, "", none⟩, ⟨"", "", "", ""⟩⟩

/-- Azure accepts every PUT. -/
def azureAccepts : (c : CloudCall) → Option (CloudResp c)
  | .armPut _ _ => some (.ok
      (200, .object [("properties", .object [("subscriptionId", .str "s")])], none))
  | .armGet _ => some (.ok (200, .null))
  | _ => none

/-- The provisioning of an enclave on Azure, with the requests sent. -/
def azureProvision (enc : Enclave) (existing : Option Handle) :
    Option (Except DriverError ProvisionResult × List CloudEvent) :=
  Prog.tryRun recorder.next (fun _ => azureAccepts)
    (plainClouds.azure.provisionEnclave enc existing).run []

/-- The requests behind a log on Azure. -/
def azureRequests : Requests
  | ⟨.provisionEnclave _ enc existing, _⟩ :: _ => ((azureProvision enc existing).map (·.2)).getD []
  | _ => []

/-- No call fails, and the Azure driver is the only one. -/
def azureAnswer (w : World) : (c : Call) → Option (Resp c)
  | .provisionEnclave driver enc existing =>
    if driver.name = "azure" then (azureProvision enc existing).map (·.1) else none
  | c => some (okAnswer w c)

/-- Only such answers are in the log. -/
def onAzure : (c : Call) → Resp c → Prop
  | .provisionEnclave driver enc existing, r =>
    driver.name = "azure" ∧ (azureProvision enc existing).map (·.1) = some r
  | _, _ => True

theorem adm_azureAnswer (w : World) (c : Call) (r : Resp c) (h : azureAnswer w c = some r) :
    (system onAzure).adm w c r := by
  cases c with
  | provisionEnclave driver enc existing =>
    rw [azureAnswer] at h
    split at h
    · rename_i hname
      exact ⟨trivial, hname, h⟩
    · cases h
  | _ =>
    obtain rfl := Option.some.inj h
    exact ⟨answers_okAnswer w _, trivial⟩

/-- The requests are those of the drivers. -/
theorem traced_azureRequests {log : List Event} (h : ∀ ev ∈ log, onAzure ev.1 ev.2) :
    plainClouds.Traced azureRequests log := by
  rintro driver enc existing r older hsuffix cloud rfl
  obtain ⟨hname, hr⟩ := h _ (hsuffix.subset (List.mem_cons_self ..))
  obtain rfl : cloud = .azure := by
    rw [CloudDrivers.name_driver] at hname
    cases cloud <;> first | rfl | exact absurd hname (by decide)
  obtain ⟨⟨r', requests⟩, hrun, rfl⟩ := Option.map_eq_some_iff.mp hr
  rw [azureRequests, hrun]
  exact Prog.exec_tryRun (fun _ _ _ _ => trivial) hrun

/-- The definition of an enclave with these subnets. -/
def networked (subnets : List String) : FileSystem where
  readConfig path := if path = "enclaves/a/config.yml" then some (.ok "id: a") else none
  parseYaml text :=
    if text = "id: a" then
      some (.record
        [("id", .str "a"), ("name", .str "a"), ("region", .str "r"),
         ("network", .record [("subnets", .seq (subnets.map .str))])])
    else none
  yamlError _ := ""

/-- A host whose digest counts the subnets. -/
def countingHost : Host :=
  ⟨fun v => match ((v.idx "network").idx "subnets").asArray with
    | some subnets => toString subnets.length
    | none => "", Topo.kahn, "/root"⟩

def azureOnly : DriverRegistry :=
  ⟨.azure, fun c => if c = .azure then some (plainClouds.driver .azure) else none⟩

theorem azureOnly_draws : azureOnly.Draws plainClouds.driver := by
  intro cloud driver h
  simp only [azureOnly] at h
  split at h
  · rename_i hcloud
    subst hcloud
    exact (Option.some.inj h).symm
  · cases h

def applyNetworked (subnets : List String) : Request :=
  .reconcile (networked subnets) regionlessRoot enclavesRequest azureOnly

/-- The run on a definition in which nothing fails. -/
def networkedRun (subnets : List String) (w : World) :
    Option (Except ReconcileError ReconcileReport × World) :=
  Prog.tryRun World.next azureAnswer ((applyNetworked subnets).prog countingHost) w

/-- The world after the run on the first definition, which has no subnet. -/
def firstNetworked : World := ((networkedRun [] .empty).map (·.2)).getD .empty

/-- The world after the run on the second definition, which has one. -/
def secondNetworked : World :=
  ((networkedRun ["10.0.0.0/24"] firstNetworked).map (·.2)).getD .empty

theorem exec_networkedRun {subnets : List String} {w w' : World}
    {r : Except ReconcileError ReconcileReport} (h : networkedRun subnets w = some (r, w')) :
    Prog.Exec (system onAzure)
      (reconcile countingHost (networked subnets) regionlessRoot enclavesRequest azureOnly).run
      w r w' :=
  Prog.exec_tryRun adm_azureAnswer h

theorem exec_firstNetworked : ∃ r, Prog.Exec (system onAzure)
    (reconcile countingHost (networked []) regionlessRoot enclavesRequest azureOnly).run .empty r
    firstNetworked :=
  ⟨_, exec_networkedRun (show networkedRun [] .empty = some (_, firstNetworked) from rfl)⟩

/-- The run without errors that adds the subnet. -/
theorem exec_secondNetworked : ∃ report, Prog.Exec (system onAzure)
    (reconcile countingHost (networked ["10.0.0.0/24"]) regionlessRoot enclavesRequest
      azureOnly).run firstNetworked (.ok report) secondNetworked ∧ report.errors = [] :=
  ⟨_, exec_networkedRun
    (show networkedRun ["10.0.0.0/24"] firstNetworked = some (.ok _, secondNetworked) from rfl), rfl⟩

theorem onAzure_firstNetworked : ∀ ev ∈ firstNetworked.log, onAzure ev.1 ev.2 := by
  obtain ⟨r, hrun⟩ := exec_firstNetworked
  exact log_answers hrun fun _ h => absurd h List.not_mem_nil

/-- Where the first definition has the subnet, it is created. -/
theorem changes_reach_cloud_first :
    ∃ (w : World) (s : EnclaveState), w.store.get? ⟨"a"⟩ = some s ∧ s.meta_.status = .active ∧
      plainClouds.Created azureRequests w.log .azure ⟨"a"⟩ (.subnet "10.0.0.0/24") := by
  obtain ⟨r, w, hw, s, hs, hactive, hcloud, hpart⟩ : ∃ r, ∃ w : World,
      networkedRun ["10.0.0.0/24"] .empty = some (r, w) ∧ ∃ s, w.store.get? ⟨"a"⟩ = some s ∧
        s.meta_.status = .active ∧ s.resolvedCloud = some .azure ∧
        .subnet "10.0.0.0/24" ∈ s.desired.resources :=
    ⟨_, _, rfl, _, rfl, rfl, rfl, List.mem_cons_self ..⟩
  have hrun := exec_networkedRun hw
  have hhistory : CreatedHistory countingHost plainClouds azureRequests w := by
    refine .request (applyNetworked ["10.0.0.0/24"]) .empty ⟨azureOnly_draws, ?_⟩
      (exec_anyAnswer hrun).visits
    intro _ desired _ _ enc _ driver _ _ s hs
    simp [World.empty] at hs
  have htraced := traced_azureRequests (log_answers hrun fun _ h => absurd h List.not_mem_nil)
  exact ⟨w, s, hs, hactive,
    ((changes_reach_cloud hhistory htraced).1 _ s hs hactive).2 _ hcloud (by decide) _ hpart⟩

/-- **A subnet is added** to an enclave on Azure. The second run reports no error and leaves the
enclave active with the hash of the new definition, and no request has created the subnet. -/
theorem added_subnet_not_created :
    History anyAnswer countingHost (fun _ q => q.Draws plainClouds.driver) firstNetworked ∧
      (∃ report, Prog.Exec (system anyAnswer)
        (reconcile countingHost (networked ["10.0.0.0/24"]) regionlessRoot enclavesRequest
          azureOnly).run firstNetworked (.ok report) secondNetworked ∧ report.errors = []) ∧
      plainClouds.Traced azureRequests secondNetworked.log ∧
      ∃ s, secondNetworked.store.get? ⟨"a"⟩ = some s ∧ s.meta_.status = .active ∧
        s.resolvedCloud = some .azure ∧
        s.meta_.desiredHash = some (countingHost.enclaveHash s.desired) ∧
        .subnet "10.0.0.0/24" ∈ s.desired.resources ∧
        ¬ plainClouds.Created azureRequests secondNetworked.log .azure ⟨"a"⟩
          (.subnet "10.0.0.0/24") := by
  obtain ⟨r, hfirst⟩ := exec_firstNetworked
  obtain ⟨report, hsecond, herrors⟩ := exec_secondNetworked
  refine ⟨.request (applyNetworked []) .empty azureOnly_draws (exec_anyAnswer hfirst).visits,
    ⟨report, exec_anyAnswer hsecond, herrors⟩,
    traced_azureRequests (log_answers hsecond onAzure_firstNetworked),
    _, rfl, rfl, rfl, rfl, List.mem_cons_self .., ?_⟩
  rintro ⟨ev, older, hsuffix, e, he, subId, body, subnets, r, rfl, -, hsubnets, hcidr, -⟩
  -- no VNet that was requested has a subnet
  have hnone : (secondNetworked.log.all fun ev => (azureRequests [ev]).all fun e =>
      match e.1 with
      | .armPut _ body => ((((body.idx "properties").idx "subnets").asArray).getD []).isEmpty
      | _ => true) = true := rfl
  have hev := List.all_eq_true.mp hnone ev (hsuffix.subset (List.mem_cons_self ..))
  have hrequests : azureRequests (ev :: older) = azureRequests [ev] := by
    rcases ev with ⟨c, r⟩
    cases c <;> rfl
  rw [hrequests] at he
  have hempty := List.all_eq_true.mp hev _ he
  simp only [hsubnets, AzureDriver.subnetDocs, Serde.Value.asArray, Option.getD_some, List.isEmpty_iff,
    List.map_eq_nil_iff, List.zipIdx_eq_nil_iff] at hempty
  rw [hempty] at hcidr
  exact absurd hcidr List.not_mem_nil

end Nclav
