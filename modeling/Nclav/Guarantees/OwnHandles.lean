import Nclav.Api.History
import Nclav.Guarantees.WellFormed

/-!
# Whose handles a driver reads

A stored enclave handle is passed to the driver of the cloud that the enclave resolves to now.
As long as no enclave with a handle is moved to the cloud of another driver, that is the driver
which returned the handle (`handles_are_own`); the first run after a move passes it to the other
driver.
-/

namespace Nclav

open Effect

/-- The driver is called with this enclave handle. -/
inductive Call.Reads : Call → Driver → Handle → Prop
  | provision (driver : Driver) (enc : Enclave) (h : Handle) :
    Reads (.provisionEnclave driver enc (some h)) driver h
  | teardown (driver : Driver) (enc : Enclave) (h : Handle) :
    Reads (.teardownEnclave driver enc h) driver h

/-- The driver returned the enclave handle. -/
def Returned (log : List Event) (driver : Driver) (h : Handle) : Prop :=
  ∃ enc existing outputs,
    (⟨.provisionEnclave driver enc existing, .ok ⟨h, outputs⟩⟩ : Event) ∈ log

/-- Every enclave handle that a driver was called with it had returned before. -/
def OwnHandles : List Event → Prop
  | [] => True
  | ev :: evs => (∀ driver h, ev.1.Reads driver h → Returned evs driver h) ∧ OwnHandles evs

/-- The driver of the cloud that a record is on. -/
def EnclaveState.driver (drivers : CloudTarget → Driver) (s : EnclaveState) : Option Driver :=
  s.resolvedCloud.map drivers

/-- A stored enclave handle was returned by the driver of the record's cloud. -/
def HandlesOfCloud (drivers : CloudTarget → Driver) (w : World) : Prop :=
  ∀ id s, w.store.get? id = some s → ∀ h, s.enclaveHandle = some h →
    ∃ driver, s.driver drivers = some driver ∧ Returned w.log driver h

/-- The registry has, of each cloud, this driver or none. -/
def DriverRegistry.Draws (registry : DriverRegistry) (drivers : CloudTarget → Driver) : Prop :=
  ∀ cloud driver, registry.drivers cloud = some driver → driver = drivers cloud

/-- The requests of a server whose drivers stay the same; its default cloud and the set of
configured clouds may change. -/
def Request.Draws (drivers : CloudTarget → Driver) : Request → Prop
  | .reconcile _ _ _ registry => registry.Draws drivers
  | .deleteEnclave state _ _ | .deletePartition state _ _ => state.registry.Draws drivers

/-- No listed enclave with a handle resolves to the cloud of another driver than the one it was
provisioned on. -/
def Unmoved (drivers : CloudTarget → Driver) (registry : DriverRegistry) (desired : List Enclave)
    (st : Store) : Prop :=
  ∀ enc ∈ desired, ∀ driver, registry.forEnclave enc = .ok driver →
    ∀ s, st.get? enc.id = some s → s.enclaveHandle.isSome = true →
      s.driver drivers = some driver

/-- A reconcile that is not dry and accepts its list moves no enclave. -/
def Request.Unmoving (host : Host) (drivers : CloudTarget → Driver) (w : World) :
    Request → Prop
  | .reconcile fs root req registry => req.dryRun = false →
      ∀ desired, loadEnclaves fs req.enclavesDir root = .ok desired →
        (∃ resolved, validate host.topo desired = .ok resolved) →
        Unmoved drivers registry desired w.store
  | .deleteEnclave _ _ _ | .deletePartition _ _ _ => True

/-- A record that had a handle has one still, on the cloud of the same driver, if it is there. -/
def BoundariesKept (drivers : CloudTarget → Driver) (w w' : World) : Prop :=
  w'.Records fun s' => ∀ s, w.store.get? s'.desired.id = some s →
    s.enclaveHandle.isSome = true →
    s'.enclaveHandle.isSome = true ∧ s'.driver drivers = s.driver drivers

section

variable {host : Host} {drivers : CloudTarget → Driver} {registry : DriverRegistry}

theorem Returned.mono {log log' : List Event} {driver : Driver} {h : Handle}
    (hr : Returned log driver h) (hlog : log ⊆ log') : Returned log' driver h := by
  obtain ⟨enc, existing, outputs, hev⟩ := hr
  exact ⟨enc, existing, outputs, hlog hev⟩

theorem Run.Provisioned.returned {run : Run} {w : World} {driver : Driver} {enc : Enclave}
    {result : ProvisionResult} (h : run.Provisioned w driver enc result) :
    Returned w.log driver result.handle :=
  ⟨enc, _, result.outputs, h⟩

theorem DriverRegistry.Draws.forCloud (h : registry.Draws drivers) {cloud : CloudTarget}
    {driver : Driver} (hdriver : registry.forCloud cloud = .ok driver) :
    driver = drivers cloud :=
  h cloud driver ((registry.forCloud_eq_ok).mp hdriver)

/-- The record of a listed enclave was provisioned by the driver that it resolves to. -/
theorem HandlesOfCloud.existing {w : World} (h : HandlesOfCloud drivers w) {enc : Enclave}
    {driver : Driver} (hunmoved : ∀ s, w.store.get? enc.id = some s →
      s.enclaveHandle.isSome = true → s.driver drivers = some driver) {handle : Handle}
    (hhandle : (w.store.get? enc.id).bind (·.enclaveHandle) = some handle) :
    Returned w.log driver handle := by
  obtain ⟨s, hs, hsome⟩ := Option.bind_eq_some_iff.mp hhandle
  obtain ⟨driver', hdriver', hreturned⟩ := h enc.id s hs handle hsome
  have heq := hunmoved s hs (by rw [hsome]; rfl)
  rw [hdriver'] at heq
  obtain rfl := Option.some.inj heq
  exact hreturned

/-- So is a record that is torn down, with the driver of its own cloud. -/
theorem HandlesOfCloud.stateCloud {w : World} (h : HandlesOfCloud drivers w)
    (hdraws : registry.Draws drivers) {id : EnclaveId} {s : EnclaveState} {driver : Driver}
    {handle : Handle} (hs : w.store.get? id = some s) (hhandle : s.enclaveHandle = some handle)
    (hdriver : registry.forCloud (registry.stateCloud s) = .ok driver) :
    Returned w.log driver handle := by
  obtain ⟨driver', hdriver', hreturned⟩ := h id s hs handle hhandle
  obtain ⟨cloud, hcloud, rfl⟩ := Option.map_eq_some_iff.mp hdriver'
  rw [DriverRegistry.stateCloud, hcloud] at hdriver
  obtain rfl := hdraws.forCloud hdriver
  exact hreturned

/-- The property is one of every earlier log. -/
theorem OwnHandles.drop {log : List Event} (h : OwnHandles log) (n : Nat) :
    OwnHandles (log.drop n) := by
  induction n generalizing log with
  | zero => exact h
  | succ n ih =>
    cases log with
    | nil => exact h
    | cons ev evs => exact ih h.2

/-- What a step calls a driver with was returned by it. -/
theorem RequestStep.returned {w w₁ : World} {q : Request} {c : Call}
    (hstep : RequestStep host w q w₁ c) (hdraws : q.Draws drivers)
    (hunmoving : q.Unmoving host drivers w) (hhandles : HandlesOfCloud drivers w)
    {driver : Driver} {h : Handle} (hreads : c.Reads driver h) : Returned w.log driver h := by
  cases hstep with
  | quiet hquiet => cases hreads <;> cases hquiet
  | @reconcile fs root req registry desired resolved run _ _ hload hvalid hdry _ _ hregistry
      hexisting hstep =>
    have hunmoved := hunmoving hdry desired hload ⟨resolved, hvalid⟩
    subst hregistry
    cases hreads with
    | provision _ enc h =>
      generalize hc : Call.provisionEnclave driver enc (some h) = c at hstep
      cases hstep with
      | quiet hquiet => subst hc; cases hquiet
      | provisionEnclave henc hdriver =>
        injection hc with hd he hh
        subst hd he
        rw [hexisting] at hh
        exact hhandles.existing (fun s => hunmoved _ henc _ hdriver s) hh.symm
      | _ => cases hc
    | teardown _ enc h =>
      generalize hc : Call.teardownEnclave driver enc h = c at hstep
      cases hstep with
      | quiet hquiet => subst hc; cases hquiet
      | teardownEnclave hs hdriver hhandle =>
        cases hc
        rw [hexisting] at hs
        exact hhandles.stateCloud hdraws hs hhandle hdriver
      | _ => cases hc
  | deleteEnclave hstep | deletePartition hstep =>
    cases hreads with
    | provision => cases hstep
    | teardown =>
      cases hstep with
      | teardownEnclave hs hdriver hhandle => exact hhandles.stateCloud hdraws hs hhandle hdriver

/-- A record has the handle that it had when the request began, or one that was returned since. -/
theorem ReconcileStep.handlesOfCloud {run : Run} {desired : List Enclave} {w₁ : World}
    {log : List Event} {s : EnclaveState}
    (hstep : ReconcileStep run desired w₁ (.upsertEnclave s)) (hdraws : run.registry.Draws drivers)
    (hexisting : ∀ enc ∈ desired, ∀ driver, run.registry.forEnclave enc = .ok driver →
      ∀ h, (run.existing enc.id).bind (·.enclaveHandle) = some h → Returned log driver h)
    (hlog : w₁.log ⊆ log)
    (hw₁ : ∀ id s, w₁.store.get? id = some s → ∀ h, s.enclaveHandle = some h →
      ∃ driver, s.driver drivers = some driver ∧ Returned log driver h) :
    ∀ h, s.enclaveHandle = some h →
      ∃ driver, s.driver drivers = some driver ∧ Returned log driver h := by
  intro h hh
  cases hstep with
  | quiet hquiet => cases hquiet
  | @upsertEnclave enc driver _ henc hdriver hdesired hcloud hhandle =>
    refine ⟨driver, ?_, ?_⟩
    · rw [EnclaveState.driver, hcloud, hdraws.forCloud hdriver]
      rfl
    · rcases hhandle with ⟨hold, -⟩ | ⟨-, result, hresult, hnew⟩
      · exact hexisting enc henc driver hdriver h (hold.symm.trans hh)
      · rw [hnew] at hh
        obtain rfl := Option.some.inj hh
        exact hresult.returned.mono hlog
  | @rewire s₀ _ hs hrest =>
    have hhandle : s.enclaveHandle = s₀.enclaveHandle := congrArg (·.enclaveHandle) hrest
    have hcloud : s.resolvedCloud = s₀.resolvedCloud := congrArg (·.resolvedCloud) hrest
    rw [EnclaveState.driver, hcloud]
    exact hw₁ _ s₀ hs h (hhandle.symm.trans hh)

/-- A step leaves handles only on the cloud of the driver that returned them. -/
theorem RequestStep.handlesOfCloud {w w₁ : World} {q : Request} {c : Call}
    (hstep : RequestStep host w q w₁ c) (hdraws : q.Draws drivers)
    (hunmoving : q.Unmoving host drivers w) (hhandles : HandlesOfCloud drivers w)
    (hlog : w.log ⊆ w₁.log) (hw₁ : HandlesOfCloud drivers w₁) (r : Resp c) :
    HandlesOfCloud drivers (w₁.next c r) := by
  have hnext : w₁.log ⊆ (w₁.next c r).log := List.subset_cons_self _ _
  have hkeeps : ∀ id s, w₁.store.get? id = some s → ∀ h, s.enclaveHandle = some h →
      ∃ driver, s.driver drivers = some driver ∧ Returned (w₁.next c r).log driver h := by
    intro id s hs h hh
    obtain ⟨driver, hdriver, hreturned⟩ := hw₁ id s hs h hh
    exact ⟨driver, hdriver, hreturned.mono hnext⟩
  refine World.Records.next hkeeps c r ?_ fun id pid _ s hs => hs
  rintro s rfl
  cases hstep with
  | quiet hquiet => cases hquiet
  | @reconcile fs root req registry desired resolved run _ _ hload hvalid hdry _ _ hregistry
      hexisting hstep =>
    have hunmoved := hunmoving hdry desired hload ⟨resolved, hvalid⟩
    subst hregistry
    refine hstep.handlesOfCloud hdraws (fun enc henc driver hdriver h hh => ?_) hnext hkeeps
    rw [hexisting] at hh
    exact (hhandles.existing (fun s => hunmoved enc henc driver hdriver s) hh).mono
      fun _ hev => hnext (hlog hev)
  | deleteEnclave hstep => cases hstep
  | deletePartition hstep => cases hstep

/-- A step moves no record that has a handle. -/
theorem RequestStep.boundariesKept {w w₁ : World} {q : Request} {c : Call}
    (hstep : RequestStep host w q w₁ c) (hdraws : q.Draws drivers)
    (hunmoving : q.Unmoving host drivers w) (hw₁ : BoundariesKept drivers w w₁) (r : Resp c) :
    BoundariesKept drivers w (w₁.next c r) := by
  refine World.Records.next hw₁ c r ?_ fun id pid _ s' hs' => hs'
  rintro s' rfl s hs hsome
  cases hstep with
  | quiet hquiet => cases hquiet
  | @reconcile fs root req registry desired resolved run _ _ hload hvalid hdry _ _ hregistry
      hexisting hstep =>
    have hunmoved := hunmoving hdry desired hload ⟨resolved, hvalid⟩
    subst hregistry
    cases hstep with
    | quiet hquiet => cases hquiet
    | @upsertEnclave enc driver _ henc hdriver hdesired hcloud hhandle =>
      rw [hdesired] at hs
      refine ⟨?_, ?_⟩
      · rcases hhandle with ⟨hold, -⟩ | ⟨-, result, -, hnew⟩
        · rw [hold, hexisting, hs]
          exact hsome
        · rw [hnew]
          rfl
      · rw [hunmoved enc henc driver hdriver s hs hsome, EnclaveState.driver, hcloud,
          hdraws.forCloud hdriver]
        rfl
    | @rewire s₀ _ hs₀ hrest =>
      have hdesired : s'.desired = s₀.desired := congrArg (·.desired) hrest
      have hhandle : s'.enclaveHandle = s₀.enclaveHandle := congrArg (·.enclaveHandle) hrest
      have hcloud : s'.resolvedCloud = s₀.resolvedCloud := congrArg (·.resolvedCloud) hrest
      rw [hdesired] at hs
      rw [hhandle, EnclaveState.driver, hcloud]
      exact hw₁ _ s₀ hs₀ s hs hsome
  | deleteEnclave hstep => cases hstep
  | deletePartition hstep => cases hstep

end

/-- The histories in which no enclave is moved. -/
def UnmovedHistory (host : Host) (drivers : CloudTarget → Driver) : World → Prop :=
  History anyAnswer host fun w q => q.Draws drivers ∧ q.Unmoving host drivers w

/-- **A driver only reads handles it produced**, in every history of requests none of which moves
an enclave with a handle to the cloud of another driver; a stored handle stays with the driver
that returned it. -/
theorem handles_are_own {host : Host} {drivers : CloudTarget → Driver} {w : World}
    (h : UnmovedHistory host drivers w) :
    OwnHandles w.log ∧ HandlesOfCloud drivers w ∧
      ∀ (q : Request) v, q.Draws drivers → q.Unmoving host drivers w →
        Prog.Visits (system anyAnswer) (q.prog host) w v → BoundariesKept drivers w v := by
  have hinv : OwnHandles w.log ∧ HandlesOfCloud drivers w := by
    refine History.invariant (P := fun w => OwnHandles w.log ∧ HandlesOfCloud drivers w)
      answerable_anyAnswer ⟨trivial, fun id s hs => ?_⟩
      (fun w q hw hq w₁ c r hlog hw₁ _ hstep => ⟨⟨fun driver h hreads => ?_, hw₁.1⟩, ?_⟩) h
    · simp [World.empty] at hs
    · exact (hstep.returned hq.1 hq.2 hw.2 hreads).mono hlog.subset
    · exact hstep.handlesOfCloud hq.1 hq.2 hw.2 hlog.subset hw₁.2 r
  refine ⟨hinv.1, hinv.2, fun q v hdraws hunmoving hv => ?_⟩
  refine (Request.steps_of_visits answerable_anyAnswer h.replayed hv).invariant
    (fun w₁ c r hstep hw₁ => hstep.boundariesKept hdraws hunmoving hw₁ r) fun id s' hs' s hs hsome => ?_
  rw [Store.id_of_get? hs', hs'] at hs
  obtain rfl := Option.some.inj hs
  exact ⟨hsome, rfl⟩

/-! ### An enclave is moved -/

/-- A driver for each of the clouds. -/
def cloudDriver (cloud : CloudTarget) : Driver := ⟨toString cloud, fun _ _ => ∅, fun _ _ => ∅⟩

/-- A registry of all clouds with this default. -/
def defaulting (cloud : CloudTarget) : DriverRegistry := ⟨cloud, fun c => some (cloudDriver c)⟩

theorem defaulting_draws (cloud : CloudTarget) : (defaulting cloud).Draws cloudDriver := by
  rintro c driver ⟨⟩
  rfl

/-- No call fails, and a driver answers the enclave handle it is given, else a new one. -/
def fastAnswer (w : World) : (c : Call) → Resp c
  | .provisionEnclave driver _ existing =>
    .ok ⟨existing.getD (.object [("driver", .str driver.name)]), ∅⟩
  | c => okAnswer w c

theorem answers_fastAnswer (w : World) (c : Call) : answers w c (fastAnswer w c) := by
  cases c <;> first | trivial | exact answers_okAnswer w _

/-- One config file of an enclave without partitions. -/
def bareEnclave : FileSystem where
  readConfig path := if path = "enclaves/a/config.yml" then some (.ok "id: a") else none
  parseYaml text :=
    if text = "id: a" then
      some (.record [("id", .str "a"), ("name", .str "a"), ("region", .str "r")])
    else none
  yamlError _ := ""

/-- The file of an enclave that names no cloud is applied, to the default cloud. -/
def applyDefault (cloud : CloudTarget) : Request :=
  .reconcile bareEnclave regionlessRoot enclavesRequest (defaulting cloud)

/-- The world after a run with this default in which no call failed. -/
def defaultedWorld (cloud : CloudTarget) (w : World) : World :=
  (Prog.run World.next fastAnswer ((applyDefault cloud).prog plainHost) w).2

theorem visits_defaultedWorld (cloud : CloudTarget) (w : World) :
    Prog.Visits (system anyAnswer) ((applyDefault cloud).prog plainHost) w
      (defaultedWorld cloud w) :=
  (Prog.exec_run (M := system anyAnswer) (fun w c => ⟨answers_fastAnswer w c, trivial⟩) _ w).visits

theorem applyDefault_unmoving (cloud : CloudTarget) {w : World}
    (hw : ∀ s, w.store.get? ⟨"a"⟩ = some s → s.enclaveHandle.isSome = true →
      s.driver cloudDriver = some (cloudDriver cloud)) :
    (applyDefault cloud).Unmoving plainHost cloudDriver w := by
  intro _ desired hload _ enc henc driver hdriver s hs hsome
  have hdesired : desired = [⟨⟨"a"⟩, "a", none, "r", none, none, none, [], [], []⟩] := by
    injection hload with h
    exact h.symm
  subst hdesired
  obtain rfl := List.mem_singleton.mp henc
  injection hdriver with h
  subst h
  exact hw s hs hsome

/-- **The same directory is applied again.** The second run passes the handle that the GCP driver
returned in the first one back to the GCP driver, and the record keeps it. -/
theorem handles_are_own_again :
    (∃ ev ∈ (defaultedWorld .gcp (defaultedWorld .gcp .empty)).log,
      ev.1.Reads (cloudDriver .gcp) (.object [("driver", .str "gcp")])) ∧
      OwnHandles (defaultedWorld .gcp (defaultedWorld .gcp .empty)).log ∧
      HandlesOfCloud cloudDriver (defaultedWorld .gcp (defaultedWorld .gcp .empty)) ∧
      BoundariesKept cloudDriver (defaultedWorld .gcp .empty)
        (defaultedWorld .gcp (defaultedWorld .gcp .empty)) := by
  have hnone : (applyDefault .gcp).Unmoving plainHost cloudDriver .empty :=
    applyDefault_unmoving .gcp fun s hs => by simp [World.empty] at hs
  have hsame : (applyDefault .gcp).Unmoving plainHost cloudDriver (defaultedWorld .gcp .empty) :=
    applyDefault_unmoving .gcp fun s hs _ => by
      obtain rfl := Option.some.inj hs
      rfl
  have hfirst : UnmovedHistory plainHost cloudDriver (defaultedWorld .gcp .empty) :=
    .request (applyDefault .gcp) .empty ⟨defaulting_draws .gcp, hnone⟩ (visits_defaultedWorld _ _)
  have hboth : UnmovedHistory plainHost cloudDriver
      (defaultedWorld .gcp (defaultedWorld .gcp .empty)) :=
    .request (applyDefault .gcp) hfirst ⟨defaulting_draws .gcp, hsame⟩ (visits_defaultedWorld _ _)
  have hown := handles_are_own hboth
  -- the call of `provision_enclave` is the ninth event from the end
  have hread : ∃ ev ∈ (defaultedWorld .gcp (defaultedWorld .gcp .empty)).log.drop 8,
      ev.1.Reads (cloudDriver .gcp) (.object [("driver", .str "gcp")]) :=
    ⟨_, .head _, .provision _ _ _⟩
  obtain ⟨ev, hev, hreads⟩ := hread
  exact ⟨⟨ev, List.mem_of_mem_drop hev, hreads⟩, hown.1, hown.2.1,
    (handles_are_own hfirst).2.2 (applyDefault .gcp) _ (defaulting_draws .gcp) hsame
      (visits_defaultedWorld _ _)⟩

/-- **The default cloud changes** from GCP to Azure. The second run passes the handle of the GCP
driver to the Azure driver, which answers it, and the enclave is active on Azure with it. -/
theorem moved_handle_read :
    ∃ w, History anyAnswer plainHost (fun _ q => q.Draws cloudDriver) w ∧
      (∃ s, w.store.get? ⟨"a"⟩ = some s ∧ s.meta_.status = .active ∧
        s.resolvedCloud = some .azure ∧
        s.enclaveHandle = some (.object [("driver", .str "gcp")])) ∧
      ¬ OwnHandles w.log := by
  have hfirst : History anyAnswer plainHost (fun _ q => q.Draws cloudDriver)
      (defaultedWorld .gcp .empty) :=
    .request (applyDefault .gcp) .empty (defaulting_draws .gcp) (visits_defaultedWorld _ _)
  refine ⟨defaultedWorld .azure (defaultedWorld .gcp .empty),
    .request (applyDefault .azure) hfirst (defaulting_draws .azure) (visits_defaultedWorld _ _),
    ⟨_, rfl, rfl, rfl, rfl⟩, fun hown => ?_⟩
  -- the newest call of a driver's `provision_enclave` is the ninth event from the end
  obtain ⟨hreads, -⟩ := hown.drop 8
  obtain ⟨enc, existing, outputs, hev⟩ := hreads (cloudDriver .azure)
    (.object [("driver", .str "gcp")]) (.provision _ _ _)
  have hother : (((defaultedWorld .azure (defaultedWorld .gcp .empty)).log.drop 9).all fun ev =>
      match ev.1 with
      | .provisionEnclave driver _ _ => driver.name != "azure"
      | _ => true) = true := rfl
  have hname := List.all_eq_true.mp hother _ hev
  exact absurd (show false = true from hname) Bool.false_ne_true

end Nclav
