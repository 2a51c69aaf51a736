import Nclav.Api.History
import Nclav.Driver.Gcp
import Nclav.Guarantees.Creation
import Nclav.Guarantees.ErrorFree

/-!
# Whose project is whose

A GCP project is the boundary of an enclave. Its name is made of the enclave's id and of the
configured prefix, and several ids may make one name: provisioning adopts a project that is
there, and a teardown deletes the project that the id stands for now, whatever the handle says.
As long as no enclave is provisioned under a name that is taken, and none is torn down under
another name than its handle has, every enclave has a project of its own and teardown hits that
one (`projects_apart`).
-/

namespace Nclav

open Effect Serde

/-! ## One driver -/

/-- The driver after a restart with another prefix. -/
def GcpDriver.withPrefix (d : GcpDriver) (pre : Option String) : GcpDriver :=
  { d with config := { d.config with projectPrefix := pre } }

/-- The driver, under whatever prefix, answers the provisioning of an enclave with what it makes of
some responses. -/
def GcpDriver.Answers (d : GcpDriver) : (c : Call) → Resp c → Prop
  | .provisionEnclave driver enc existing, r => (∃ pre, driver = (d.withPrefix pre).driver) →
      ∃ pre, driver = (d.withPrefix pre).driver ∧ ∃ log,
        Prog.Exec recorder ((d.withPrefix pre).provisionEnclave enc existing).run [] r log
  | _, _ => True

theorem GcpDriver.contextVars_project (g : GcpDriver) (enc : Enclave) :
    (g.driver.contextVars enc .null)["nclav_project_id"]? = some (g.gcpProjectId enc.id.val) := by
  show (((∅ : HashMap String String).insert "nclav_project_id" (g.gcpProjectId enc.id.val)).insert
    "nclav_region" enc.region)["nclav_project_id"]? = _
  rw [HashMap.get?_insert, if_neg (by decide), HashMap.get?_insert, if_pos rfl]

/-- The driver that a server holds tells the names that it makes. -/
theorem GcpDriver.gcpProjectId_of_driver {g g' : GcpDriver} (h : g.driver = g'.driver)
    (enc : Enclave) : g.gcpProjectId enc.id.val = g'.gcpProjectId enc.id.val := by
  refine Option.some.inj ?_
  rw [← g.contextVars_project, ← g'.contextVars_project, h]

/-- No cloud has another driver. -/
def DriverRegistry.Only (registry : DriverRegistry) (driver : Driver) : Prop :=
  ∀ cloud driver', registry.drivers cloud = some driver' → driver' = driver

/-- The requests of a server with this driver only. -/
def Request.Through (g : GcpDriver) : Request → Prop
  | .reconcile _ _ _ registry => registry.Only g.driver
  | .deleteEnclave state _ _ | .deletePartition state _ _ => state.registry.Only g.driver

/-! ## Boundaries -/

/-- The handle of a stored enclave. -/
def Store.handle (st : Store) (id : EnclaveId) : Option Handle := (st.get? id).bind (·.enclaveHandle)

/-- No two stored enclaves have handles of one project. -/
def ProjectsApart (st : Store) : Prop :=
  ∀ id id' h h' project, st.handle id = some h → st.handle id' = some h' →
    h.project = some project → h'.project = some project → id = id'

/-- A teardown with this handle requests the deletion of the project that the handle names, and of
no other; no other handle in the store names it. -/
structure HitsOwn (g : GcpDriver) (st : Store) (enc : Enclave) (h : Handle) (project : String) :
    Prop where
  named : h.project = some project
  requests : ∀ r log, Prog.Exec recorder (g.teardownEnclave enc h).run [] r log →
    (∀ ev ∈ log, ev.1 = .bearer ∨ g.Deletes project ev) ∧
      (r = .ok () → ∃ ev ∈ log, g.Deletes project ev)
  others : ∀ id h', id ≠ enc.id → st.handle id = some h' → h'.project ≠ some project

/-! ## The condition -/

/-- The cloud of the enclave has a driver. -/
def DriverRegistry.Provides (registry : DriverRegistry) (enc : Enclave) : Prop :=
  ∃ driver, registry.forEnclave enc = .ok driver

/-- The project of an enclave to be provisioned is not that of another one to be provisioned, and
named by the handle of no other listed enclave. -/
def NamesFree (g : GcpDriver) (registry : DriverRegistry) (desired : List Enclave) (st : Store) :
    Prop :=
  ∀ enc ∈ desired, registry.Provides enc →
    (∀ enc' ∈ desired, registry.Provides enc' →
      g.gcpProjectId enc'.id.val = g.gcpProjectId enc.id.val → enc'.id = enc.id) ∧
    ∀ id ∈ desired.map (·.id), ∀ h, st.handle id = some h →
      h.project = some (g.gcpProjectId enc.id.val) → id = enc.id

/-- If the enclave is torn down, it is under the name that its handle has. -/
def NameKept (g : GcpDriver) (registry : DriverRegistry) (st : Store) (id : EnclaveId) : Prop :=
  ∀ s h, st.get? id = some s → s.enclaveHandle = some h →
    (∃ driver, registry.forCloud (registry.stateCloud s) = .ok driver) →
    h.project = some (g.gcpProjectId id.val)

/-- A reconcile that is not dry and accepts its list provisions under free names and tears down
under kept ones; so does a deletion. -/
def Request.Separate (g : GcpDriver) (host : Host) (w : World) : Request → Prop
  | .reconcile fs root req registry => req.dryRun = false →
      ∀ desired, loadEnclaves fs req.enclavesDir root = .ok desired →
        (∃ resolved, validate host.topo desired = .ok resolved) →
        NamesFree g registry desired w.store ∧ (req.resourcesOnly = false →
          ∀ id, id ∉ desired.map (·.id) → NameKept g registry w.store id)
  | .deleteEnclave state id resourcesOnly => resourcesOnly = false →
      NameKept g state.registry w.store id
  | .deletePartition _ _ _ => True

/-! ## Where a handle comes from -/

section

variable {d g : GcpDriver} {host : Host} {registry : DriverRegistry} {desired : List Enclave}
  {w w₁ : World} {run : Run}

theorem Store.handle_eq_some {st : Store} {id : EnclaveId} {h : Handle} :
    st.handle id = some h ↔ ∃ s, st.get? id = some s ∧ s.enclaveHandle = some h :=
  Option.bind_eq_some_iff

/-- A call stores no handle but that of the record which it writes. -/
theorem handle_next {c : Call} {r : Resp c} {id : EnclaveId} {h : Handle}
    (hh : (w.next c r).store.handle id = some h) :
    w.store.handle id = some h ∨
      ∃ s, c = .upsertEnclave s ∧ s.desired.id = id ∧ s.enclaveHandle = some h := by
  let R (s : EnclaveState) : Prop := ∀ h, s.enclaveHandle = some h →
    w.store.handle s.desired.id = some h ∨
      ∃ s', c = .upsertEnclave s' ∧ s'.desired.id = s.desired.id ∧ s'.enclaveHandle = some h
  have hw : w.Records R := fun id s hs h hh => .inl <| by
    rw [Store.id_of_get? hs]
    exact Store.handle_eq_some.mpr ⟨s, hs, hh⟩
  have hnext : (w.next c r).Records R :=
    hw.next c r (fun s hs h hh => .inr ⟨s, hs, rfl, hh⟩) fun _ _ _ _ hs => hs
  obtain ⟨s, hs, hsome⟩ := Store.handle_eq_some.mp hh
  have hfound := hnext id s hs h hsome
  rw [Store.id_of_get? hs] at hfound
  exact hfound

/-- The handle was stored when the request began, or names the project that the driver gives a
listed enclave. -/
inductive HandleOrigin (g : GcpDriver) (registry : DriverRegistry) (desired : List Enclave)
    (st : Store) (id : EnclaveId) (h : Handle) : Prop
  | stored (hh : st.handle id = some h)
  | provisioned {enc : Enclave} (henc : enc ∈ desired) (hid : enc.id = id)
    (hprovides : registry.Provides enc) (hproject : h.project = some (g.gcpProjectId enc.id.val))

/-- Handles of listed enclaves under free names are apart. -/
theorem HandleOrigin.apart (hfree : NamesFree g registry desired w.store)
    (hw : ProjectsApart w.store) {id id' : EnclaveId} {h h' : Handle} {project : String}
    (hh : HandleOrigin g registry desired w.store id h)
    (hh' : HandleOrigin g registry desired w.store id' h') (hid : id ∈ desired.map (·.id))
    (hid' : id' ∈ desired.map (·.id)) (hproject : h.project = some project)
    (hproject' : h'.project = some project) : id = id' := by
  cases hh with
  | stored hstored =>
    cases hh' with
    | stored hstored' => exact hw id id' h h' project hstored hstored' hproject hproject'
    | @provisioned enc' henc' heq' hprovides' hname' =>
      rw [← heq']
      refine (hfree enc' henc' hprovides').2 id hid h hstored ?_
      rw [hproject, ← hproject', hname']
  | @provisioned enc henc heq hprovides hname =>
    cases hh' with
    | stored hstored' =>
      rw [← heq]
      refine ((hfree enc henc hprovides).2 id' hid' h' hstored' ?_).symm
      rw [hproject', ← hproject, hname]
    | @provisioned enc' henc' heq' hprovides' hname' =>
      rw [← heq, ← heq']
      refine (hfree enc' henc' hprovides').1 enc henc hprovides (Option.some.inj ?_)
      rw [← hname, ← hname', hproject, hproject']

/-- What the driver returned, with the handle that was stored when the run began. -/
theorem Run.Provisioned.origin {pre : Option String} {driver : Driver} {enc : Enclave}
    {result : ProvisionResult} (h : run.Provisioned w₁ driver enc result)
    (hans : ∀ ev ∈ w₁.log, d.Answers ev.1 ev.2) (henc : enc ∈ desired)
    (honly : run.registry.Only (d.withPrefix pre).driver)
    (hdriver : run.registry.forEnclave enc = .ok driver)
    (hexisting : ∀ id, run.existing id = w.store.get? id) :
    HandleOrigin (d.withPrefix pre) run.registry desired w.store enc.id result.handle := by
  have heq : driver = (d.withPrefix pre).driver :=
    honly _ _ (run.registry.forCloud_eq_ok.mp hdriver)
  obtain ⟨pre', heq', log, hrun⟩ := hans _ h ⟨pre, heq⟩
  rcases hrun.wp (GcpDriver.provisionEnclave_project enc _ []) result rfl with hreuse | hnew
  · rw [hexisting] at hreuse
    exact .stored hreuse
  · rw [GcpDriver.gcpProjectId_of_driver (heq'.symm.trans heq)] at hnew
    exact .provisioned henc rfl ⟨driver, hdriver⟩ hnew

/-! ## One request -/

/-- The handles are those that were stored or provisioned since, and their projects are apart. -/
structure BoundariesFrom (g : GcpDriver) (registry : DriverRegistry) (desired : List Enclave)
    (st : Store) (w₁ : World) : Prop where
  origin : ∀ id h, w₁.store.handle id = some h → HandleOrigin g registry desired st id h
  apart : ProjectsApart w₁.store

/-- A call that writes no record keeps them. -/
theorem BoundariesFrom.next (h : BoundariesFrom g registry desired w.store w₁) {c : Call}
    (hc : ∀ s, c ≠ .upsertEnclave s) (r : Resp c) :
    BoundariesFrom g registry desired w.store (w₁.next c r) := by
  have hold : ∀ id h, (w₁.next c r).store.handle id = some h → w₁.store.handle id = some h := by
    intro id h hh
    rcases handle_next hh with hh | ⟨s, rfl, -⟩
    · exact hh
    · exact absurd rfl (hc s)
  exact ⟨fun id handle hh => h.origin id handle (hold id handle hh),
    fun id id' handle handle' project hh hh' => h.apart id id' handle handle' project
      (hold id handle hh) (hold id' handle' hh')⟩

/-- So does a record that is written back with its handle. -/
theorem BoundariesFrom.rewire (h : BoundariesFrom g registry desired w.store w₁) {s : EnclaveState}
    (hs : ∀ h, s.enclaveHandle = some h → w₁.store.handle s.desired.id = some h)
    (r : Resp (.upsertEnclave s)) :
    BoundariesFrom g registry desired w.store (w₁.next (.upsertEnclave s) r) := by
  have hold : ∀ id h, (w₁.next (.upsertEnclave s) r).store.handle id = some h →
      w₁.store.handle id = some h := by
    intro id h hh
    rcases handle_next hh with hh | ⟨s', heq, rfl, hsome⟩
    · exact hh
    · cases heq
      exact hs h hsome
  exact ⟨fun id handle hh => h.origin id handle (hold id handle hh),
    fun id id' handle handle' project hh hh' => h.apart id id' handle handle' project
      (hold id handle hh) (hold id' handle' hh')⟩

/-- The record of a visited enclave keeps them under a free name: all others are listed as well. -/
theorem BoundariesFrom.upsert (h : BoundariesFrom g registry desired w.store w₁)
    (hfree : NamesFree g registry desired w.store) (hw : ProjectsApart w.store) {s : EnclaveState}
    (hlisted : w₁.Listed desired) (hid : s.desired.id ∈ desired.map (·.id))
    (hs : ∀ h, s.enclaveHandle = some h →
      HandleOrigin g registry desired w.store s.desired.id h) (r : Resp (.upsertEnclave s)) :
    BoundariesFrom g registry desired w.store (w₁.next (.upsertEnclave s) r) := by
  have horigin : ∀ id h, (w₁.next (.upsertEnclave s) r).store.handle id = some h →
      HandleOrigin g registry desired w.store id h ∧ id ∈ desired.map (·.id) := by
    intro id handle hh
    rcases handle_next hh with hh | ⟨s', heq, rfl, hsome⟩
    · refine ⟨h.origin id handle hh, ?_⟩
      obtain ⟨s', hs', -⟩ := Store.handle_eq_some.mp hh
      rw [← Store.id_of_get? hs']
      exact hlisted id s' hs'
    · cases heq
      exact ⟨hs handle hsome, hid⟩
  refine ⟨fun id handle hh => (horigin id handle hh).1, ?_⟩
  intro id id' handle handle' project hh hh' hproject hproject'
  exact (horigin id handle hh).1.apart hfree hw (horigin id' handle' hh').1 (horigin id handle hh).2
    (horigin id' handle' hh').2 hproject hproject'

/-- A step of a reconcile under free names keeps them. -/
theorem ReconcileStep.boundaries {pre : Option String} {c : Call}
    (hstep : ReconcileStep run desired w₁ c) (hans : ∀ ev ∈ w₁.log, d.Answers ev.1 ev.2)
    (honly : run.registry.Only (d.withPrefix pre).driver)
    (hexisting : ∀ id, run.existing id = w.store.get? id)
    (hfree : NamesFree (d.withPrefix pre) run.registry desired w.store)
    (hw : ProjectsApart w.store)
    (h : BoundariesFrom (d.withPrefix pre) run.registry desired w.store w₁) (r : Resp c) :
    BoundariesFrom (d.withPrefix pre) run.registry desired w.store (w₁.next c r) := by
  cases hstep with
  | @upsertEnclave enc driver s henc hdriver hdesired _ hhandle hlisted =>
    refine h.upsert hfree hw hlisted (by rw [hdesired]; exact List.mem_map_of_mem henc)
      (fun handle hh => ?_) r
    rw [hdesired]
    rcases hhandle with ⟨hkept, -⟩ | ⟨-, result, hresult, hnew⟩
    · rw [hkept, hexisting] at hh
      exact .stored hh
    · rw [hnew] at hh
      obtain rfl := Option.some.inj hh
      exact hresult.origin hans henc honly hdriver hexisting
  | @rewire s₀ s hs hrest =>
    refine h.rewire (fun handle hh => Store.handle_eq_some.mpr ⟨s₀, ?_, ?_⟩) r
    · have hdesired : s.desired = s₀.desired := congrArg (·.desired) hrest
      rw [hdesired]
      exact hs
    · exact (show s.enclaveHandle = s₀.enclaveHandle from congrArg (·.enclaveHandle) hrest) ▸ hh
  | quiet hquiet => exact h.next (fun s hs => by rw [hs] at hquiet; cases hquiet) r
  | _ => exact h.next (by rintro _ ⟨⟩) r

theorem BoundariesFrom.refl (hw : ProjectsApart w.store) :
    BoundariesFrom g registry desired w.store w :=
  ⟨fun _ _ hh => .stored hh, hw⟩

/-- **A request under free names keeps the projects apart.** -/
theorem apart_of_visits {pre : Option String} {q : Request} {v : World}
    (hanswers : Answerable d.Answers) (hw : ProjectsApart w.store) (hreplayed : w.Replayed)
    (hlog : ∀ ev ∈ w.log, d.Answers ev.1 ev.2) (hthrough : q.Through (d.withPrefix pre))
    (hseparate : q.Separate (d.withPrefix pre) host w)
    (hv : Prog.Visits (system d.Answers) (q.prog host) w v) : ProjectsApart v.store := by
  have hsteps := Request.steps_of_visits hanswers hreplayed hv
  have hans := log_answers_visits hv hlog
  -- the answers of a world are those of the worlds before it
  have hkeeps : ∀ (registry : DriverRegistry) (desired : List Enclave),
      (∀ w₁ c r, RequestStep host w q w₁ c → (∀ ev ∈ w₁.log, d.Answers ev.1 ev.2) →
        BoundariesFrom (d.withPrefix pre) registry desired w.store w₁ →
        BoundariesFrom (d.withPrefix pre) registry desired w.store (w₁.next c r)) →
      ProjectsApart v.store := by
    intro registry desired hstep
    let I (w₁ : World) : Prop := (∀ ev ∈ w₁.log, d.Answers ev.1 ev.2) →
      BoundariesFrom (d.withPrefix pre) registry desired w.store w₁
    refine (hsteps.invariant (I := I) (fun w₁ c r hc hI hnext => ?_) (fun _ => .refl hw) hans).apart
    have hprev : ∀ ev ∈ w₁.log, d.Answers ev.1 ev.2 := fun ev hev =>
      hnext ev (List.mem_cons_of_mem _ hev)
    exact hstep w₁ c r hc hprev (hI hprev)
  cases q with
  | reconcile fs root req registry =>
    rcases hload : loadEnclaves fs req.enclavesDir root with e | desired
    · refine hkeeps registry [] fun w₁ c r hc _ h => ?_
      cases hc with
      | quiet hquiet => exact h.next (fun s hs => by rw [hs] at hquiet; cases hquiet) r
      | reconcile hload' =>
        rw [hload] at hload'
        cases hload'
    · refine hkeeps registry desired fun w₁ c r hc hprev h => ?_
      cases hc with
      | quiet hquiet => exact h.next (fun s hs => by rw [hs] at hquiet; cases hquiet) r
      | @reconcile _ _ _ _ desired' resolved run _ _ hload' hvalid hdry _ _ hregistry hexisting hstep =>
        obtain rfl : desired = desired' := Except.ok.inj (hload.symm.trans hload')
        subst hregistry
        exact hstep.boundaries hprev hthrough hexisting
          (hseparate hdry desired hload ⟨resolved, hvalid⟩).1 hw h r
  | deleteEnclave state id resourcesOnly =>
    refine hkeeps state.registry [] fun w₁ c r hc _ h => h.next ?_ r
    rintro s rfl
    cases hc with
    | quiet hquiet => cases hquiet
    | deleteEnclave hstep => cases hstep
  | deletePartition state id pid =>
    refine hkeeps state.registry [] fun w₁ c r hc _ h => h.next ?_ r
    rintro s rfl
    cases hc with
    | quiet hquiet => cases hquiet
    | deletePartition hstep => cases hstep

/-! ## What a request tears down -/

/-- A teardown of a stored enclave under the name of its handle hits its own project. -/
theorem HitsOwn.of_stored {enc : Enclave} {h : Handle} (hw : ProjectsApart w.store)
    (hh : w.store.handle enc.id = some h) (hname : h.project = some (g.gcpProjectId enc.id.val)) :
    HitsOwn g w.store enc h (g.gcpProjectId enc.id.val) where
  named := hname
  requests _ _ hrun := GcpDriver.teardownEnclave_requests hrun
  others id h' hid hh' hproject := hid (hw id enc.id h' h _ hh' hh hproject hname)

/-- A step that tears an enclave down hits the project of its handle. -/
theorem RequestStep.hitsOwn {q : Request} {driver : Driver} {enc : Enclave} {h : Handle}
    (hstep : RequestStep host w q w₁ (.teardownEnclave driver enc h)) (hw : ProjectsApart w.store)
    (hseparate : q.Separate g host w) : ∃ project, HitsOwn g w.store enc h project := by
  have hits : ∀ (registry : DriverRegistry) (s : EnclaveState), w.store.get? s.desired.id = some s →
      s.enclaveHandle = some h → s.desired = enc →
      (∃ driver, registry.forCloud (registry.stateCloud s) = .ok driver) →
      NameKept g registry w.store s.desired.id → ∃ project, HitsOwn g w.store enc h project := by
    rintro registry s hs hhandle rfl hdriver hkept
    exact ⟨_, .of_stored hw (Store.handle_eq_some.mpr ⟨s, hs, hhandle⟩) (hkept s h hs hhandle hdriver)⟩
  cases hstep with
  | quiet hquiet => cases hquiet
  | @reconcile fs root req registry desired resolved run _ _ hload hvalid hdry _ hreq hregistry
      hexisting hstep =>
    subst hregistry hreq
    generalize hc : Call.teardownEnclave driver enc h = c at hstep
    cases hstep with
    | quiet hquiet => subst hc; cases hquiet
    | @teardownEnclave id s driver h hs hdriver hhandle hgone hfull =>
      cases hc
      rw [hexisting] at hs
      obtain rfl := Store.id_of_get? hs
      exact hits run.registry s hs hhandle rfl ⟨driver, hdriver⟩
        ((hseparate hdry desired hload ⟨resolved, hvalid⟩).2 hfull _ hgone)
    | _ => cases hc
  | @deleteEnclave state id resourcesOnly _ _ hstep =>
    cases hstep with
    | @teardownEnclave s _ _ hs hdriver hhandle hfull =>
      obtain rfl := Store.id_of_get? hs
      exact hits state.registry s hs hhandle rfl ⟨driver, hdriver⟩
        (hseparate (by simpa using hfull))
  | deletePartition hstep =>
    cases hstep with
    | teardownEnclave _ _ _ hfull => cases hfull

/-- **Every teardown of a request hits the project of its handle.** -/
theorem hitsOwn_of_visits {q : Request} {v : World} (hanswers : Answerable d.Answers)
    (hw : ProjectsApart w.store) (hreplayed : w.Replayed) (hseparate : q.Separate g host w)
    (hv : Prog.Visits (system d.Answers) (q.prog host) w v) {evs : List Event}
    (hlog : v.log = evs ++ w.log) {driver : Driver} {enc : Enclave} {h : Handle}
    {r : Resp (.teardownEnclave driver enc h)}
    (hev : (⟨.teardownEnclave driver enc h, r⟩ : Event) ∈ evs) :
    ∃ project, HitsOwn g w.store enc h project := by
  let I (w₁ : World) : Prop := ∃ evs, w₁.log = evs ++ w.log ∧ ∀ driver enc h r,
    (⟨.teardownEnclave driver enc h, r⟩ : Event) ∈ evs → ∃ project, HitsOwn g w.store enc h project
  obtain ⟨evs', hlog', hall⟩ : I v := by
    refine (Request.steps_of_visits hanswers hreplayed hv).invariant (I := I) ?_
      ⟨[], rfl, fun _ _ _ _ hev => nomatch hev⟩
    rintro w₁ c r hc ⟨evs₁, hlog₁, hall₁⟩
    refine ⟨⟨c, r⟩ :: evs₁, by rw [World.next_log, hlog₁, List.cons_append], ?_⟩
    intro driver enc h r' hev
    rcases List.mem_cons.mp hev with heq | hev
    · cases heq
      exact hc.hitsOwn hw hseparate
    · exact hall₁ driver enc h r' hev
  rw [hlog] at hlog'
  obtain rfl := List.append_cancel_right hlog'
  exact hall driver enc h r hev

end

/-! ## Histories -/

/-- Whatever the driver is called with, it may fail to get a token. -/
theorem answerable_answers (d : GcpDriver) : Answerable d.Answers := by
  intro w c
  cases c with
  | provisionEnclave driver enc existing =>
    refine ⟨.error (.internal ""), trivial, fun ⟨pre, hpre⟩ => ⟨pre, hpre, ?_⟩⟩
    exact ⟨[⟨.bearer, .error (.internal "")⟩], .call (.error (.internal "")) trivial (.ret _ _)⟩
  | _ => exact ⟨okAnswer w _, answers_okAnswer w _, trivial⟩

/-- A request through the driver, under one of its prefixes, that keeps to free and kept names. -/
def GcpDriver.Serves (d : GcpDriver) (host : Host) (w : World) (q : Request) : Prop :=
  ∃ pre, q.Through (d.withPrefix pre) ∧ q.Separate (d.withPrefix pre) host w

/-- **Boundaries of their own.** In every history of requests through one driver, under changing
prefixes, each of which provisions under free names only and tears down under kept ones: no two
stored enclaves have handles of one project, and every teardown requests the deletion of the project
that its handle names and of no other, which no other stored handle names. -/
theorem projects_apart {d : GcpDriver} {host : Host} {w : World}
    (h : History d.Answers host (d.Serves host) w) :
    ProjectsApart w.store ∧
      ∀ (q : Request) pre v evs, q.Through (d.withPrefix pre) → q.Separate (d.withPrefix pre) host w →
        Prog.Visits (system d.Answers) (q.prog host) w v → v.log = evs ++ w.log →
        ∀ driver enc handle r, (⟨.teardownEnclave driver enc handle, r⟩ : Event) ∈ evs →
          ∃ project, HitsOwn (d.withPrefix pre) w.store enc handle project := by
  have hanswers := answerable_answers d
  have hinv : ProjectsApart w.store ∧ ∀ ev ∈ w.log, d.Answers ev.1 ev.2 := by
    induction h with
    | empty =>
      refine ⟨fun id id' h h' project hh => ?_, fun ev hev => nomatch hev⟩
      simp [Store.handle, World.empty] at hh
    | request q hprev hC hv ih =>
      obtain ⟨pre, hthrough, hseparate⟩ := hC
      exact ⟨apart_of_visits hanswers ih.1 hprev.replayed ih.2 hthrough hseparate hv,
        log_answers_visits hv ih.2⟩
  exact ⟨hinv.1, fun q pre v evs _ hseparate hv hlog driver enc handle r hev =>
    hitsOwn_of_visits hanswers hinv.1 h.replayed hseparate hv hlog hev⟩

/-! ### A restart under a prefix -/

/-- Two enclaves, one of which has the id of the other behind a prefix. -/
def prefixed : FileSystem where
  readConfig path :=
    if path = "enclaves/a/config.yml" then some (.ok "id: a")
    else if path = "enclaves/x-a/config.yml" then some (.ok "id: x-a")
    else none
  parseYaml text :=
    if text = "id: a" then
      some (.record [("id", .str "a"), ("name", .str "a"), ("region", .str "r")])
    else if text = "id: x-a" then
      some (.record [("id", .str "x-a"), ("name", .str "x-a"), ("region", .str "r")])
    else none
  yamlError _ := ""

def prefixedRoot : Dir := .readable [.dir "a" (.readable []), .dir "x-a" (.readable [])]

/-- A driver without a prefix. -/
def plainGcp : GcpDriver := plainClouds.gcp

/-- The registry of a server that was started with this prefix. -/
def startedWith (pre : Option String) : DriverRegistry :=
  ⟨.gcp, fun cloud => if cloud = .gcp then some (plainGcp.withPrefix pre).driver else none⟩

theorem startedWith_only (pre : Option String) :
    (startedWith pre).Only (plainGcp.withPrefix pre).driver := by
  intro cloud driver h
  simp only [startedWith] at h
  split at h
  · exact (Option.some.inj h).symm
  · cases h

/-- GCP accepts every request. -/
def gcpAccepts : (c : CloudCall) → Option (CloudResp c)
  | .bearer => some (.ok "t")
  | .postJson _ _ _ => some (.ok (.object [("name", .str "op")]))
  | .waitForOperation _ => some (.ok (.object [("projectNumber", .str "1")]))
  | .patch _ _ _ _ => some (.ok (200, .ok .null))
  | .put _ _ _ => some (.ok (200, .ok .null))
  | .get _ _ => some (.ok (200, .ok .null))
  | .delete _ _ => some (.ok (200, .ok .null))
  | _ => none

/-- The provisioning of an enclave without a prefix. -/
def gcpProvision (enc : Enclave) (existing : Option Handle) :
    Option (Except DriverError ProvisionResult × List CloudEvent) :=
  Prog.tryRun recorder.next (fun _ => gcpAccepts)
    ((plainGcp.withPrefix none).provisionEnclave enc existing).run []

/-- No call fails, and the driver has no prefix. -/
def gcpAnswer (w : World) : (c : Call) → Option (Resp c)
  | .provisionEnclave driver enc existing =>
    if (driver.contextVars enc .null)["nclav_project_id"]? =
        some ((plainGcp.withPrefix none).gcpProjectId enc.id.val) then
      (gcpProvision enc existing).map (·.1)
    else none
  | c => some (okAnswer w c)

section

variable (d : GcpDriver) (pre pre' : Option String)

theorem fetchProject_withPrefix :
    (d.withPrefix pre).fetchProject = (d.withPrefix pre').fetchProject := by
  funext token projectId
  rw [GcpDriver.fetchProject, GcpDriver.fetchProject]
  refine congrArg (_ >>= ·) (funext fun sent => ?_)
  rcases sent with e | ⟨status, e | project⟩ <;> rfl

theorem createProject_withPrefix :
    (d.withPrefix pre).createProject = (d.withPrefix pre').createProject := by
  funext token projectId enc
  rw [GcpDriver.createProject, GcpDriver.createProject, fetchProject_withPrefix d pre pre']
  refine congrArg (_ >>= ·) (funext fun created => ?_)
  rcases created with _ | op <;> rfl

theorem linkBilling_withPrefix :
    (d.withPrefix pre).linkBilling = (d.withPrefix pre').linkBilling := by
  funext token projectId
  rw [GcpDriver.linkBilling, GcpDriver.linkBilling]
  refine congrArg (_ >>= ·) (funext fun sent => ?_)
  rcases sent with e | ⟨status, body⟩ <;> rfl

theorem skips_withPrefix : (d.withPrefix pre).skips = (d.withPrefix pre').skips := by
  funext token handle
  rw [GcpDriver.skips, GcpDriver.skips]
  split
  · refine congrArg (_ >>= ·) (funext fun sent => ?_)
    rcases sent with e | ⟨status, body⟩ <;> rfl
  · rfl

end

/-- The prefix decides the name of the project and nothing else. -/
theorem provisionEnclave_withPrefix {d : GcpDriver} {pre pre' : Option String} {enc : Enclave}
    (h : (d.withPrefix pre).gcpProjectId enc.id.val = (d.withPrefix pre').gcpProjectId enc.id.val)
    (existing : Option Handle) :
    (d.withPrefix pre).provisionEnclave enc existing =
      (d.withPrefix pre').provisionEnclave enc existing := by
  have hcreate : ∀ token, (d.withPrefix pre).createEnclave token enc =
      (d.withPrefix pre').createEnclave token enc := by
    intro token
    rw [GcpDriver.createEnclave, GcpDriver.createEnclave, h, createProject_withPrefix d pre pre',
      linkBilling_withPrefix d pre pre']
    rfl
  rw [GcpDriver.provisionEnclave, GcpDriver.provisionEnclave, skips_withPrefix d pre pre']
  simp only [hcreate]

theorem adm_gcpAnswer (w : World) (c : Call) (r : Resp c) (h : gcpAnswer w c = some r) :
    (system plainGcp.Answers).adm w c r := by
  cases c with
  | provisionEnclave driver enc existing =>
    refine ⟨trivial, fun ⟨pre, hpre⟩ => ⟨pre, hpre, ?_⟩⟩
    rw [gcpAnswer] at h
    split at h
    · rename_i hname
      obtain ⟨⟨r', log⟩, hrun, rfl⟩ := Option.map_eq_some_iff.mp h
      have hvars : (driver.contextVars enc .null)["nclav_project_id"]? =
          some ((plainGcp.withPrefix pre).gcpProjectId enc.id.val) := by
        rw [hpre]
        exact GcpDriver.contextVars_project _ enc
      have hsame := Option.some.inj (hvars.symm.trans hname)
      refine ⟨log, ?_⟩
      rw [provisionEnclave_withPrefix hsame existing]
      exact Prog.exec_tryRun (fun _ _ _ _ => trivial) hrun
    · cases h
  | _ =>
    obtain rfl := Option.some.inj h
    exact ⟨answers_okAnswer w _, trivial⟩

/-- The first run, without a prefix. -/
def applyPrefixed : Request := .reconcile prefixed prefixedRoot enclavesRequest (startedWith none)

/-- A deletion after a restart under the prefix `x`. -/
def deletePrefixed : Request := .deleteEnclave ⟨startedWith (some "x"), "", ""⟩ ⟨"a"⟩ false

/-- The world after the first run. -/
def prefixedWorld : World :=
  ((Prog.tryRun World.next gcpAnswer (applyPrefixed.prog plainHost) .empty).map (·.2)).getD .empty

/-- What is required of a request besides its names. -/
def servesPrefixed (_ : World) (q : Request) : Prop :=
  (∃ pre, q.Through (plainGcp.withPrefix pre)) ∧ q.Distinct

theorem visits_applyPrefixed : Prog.Visits (system plainGcp.Answers) (applyPrefixed.prog plainHost)
    .empty prefixedWorld :=
  (Prog.exec_tryRun adm_gcpAnswer
    (show Prog.tryRun World.next gcpAnswer (applyPrefixed.prog plainHost) .empty =
      some (_, prefixedWorld) from rfl)).visits

theorem ids_prefixed {desired : List Enclave}
    (h : loadEnclaves prefixed enclavesRequest.enclavesDir prefixedRoot = .ok desired) :
    desired.map (·.id) = [⟨"a"⟩, ⟨"x-a"⟩] := by
  have hload : loadEnclaves prefixed enclavesRequest.enclavesDir prefixedRoot = .ok _ := rfl
  rw [← Except.ok.inj (hload.symm.trans h)]
  rfl

theorem distinct_applyPrefixed : applyPrefixed.Distinct := by
  intro desired hload
  rw [ids_prefixed hload]
  decide

/-- The request for the deletion of `a` after the restart deletes the project `x-a`. -/
theorem requests_deletePrefixed (enc : Enclave) (handle : Handle) (hid : enc.id = ⟨"a"⟩) :
    ∃ log, Prog.Exec recorder
      ((plainGcp.withPrefix (some "x")).teardownEnclave enc handle).run [] (.ok ()) log ∧
        ∃ ev ∈ log, (plainGcp.withPrefix (some "x")).Deletes "x-a" ev := by
  refine ⟨_, Prog.exec_tryRun (M := recorder) (o := fun _ => gcpAccepts) (fun _ _ _ _ => trivial) rfl,
    _, List.mem_cons_self .., "t", ?_⟩
  rw [hid]
  rfl

/-- **The project of another enclave is deleted.** Two enclaves are provisioned without a prefix,
each in a project named like it; after a restart under the prefix `x` the teardown of `a` deletes
the project of `x-a`. -/
theorem deletes_other_project :
    History plainGcp.Answers plainHost servesPrefixed prefixedWorld ∧
      deletePrefixed.Through (plainGcp.withPrefix (some "x")) ∧
      ∃ v evs enc handle other r,
        Prog.Visits (system plainGcp.Answers) (deletePrefixed.prog plainHost) prefixedWorld v ∧
        v.log = evs ++ prefixedWorld.log ∧
        (⟨.teardownEnclave (plainGcp.withPrefix (some "x")).driver enc handle, r⟩ : Event) ∈ evs ∧
        enc.id = ⟨"a"⟩ ∧ handle.project = some "a" ∧
        prefixedWorld.store.handle ⟨"x-a"⟩ = some other ∧ other.project = some "x-a" ∧
        (∃ log, Prog.Exec recorder
          ((plainGcp.withPrefix (some "x")).teardownEnclave enc handle).run [] (.ok ()) log ∧
            ∃ ev ∈ log, (plainGcp.withPrefix (some "x")).Deletes "x-a" ev) ∧
        ¬ ∃ project, HitsOwn (plainGcp.withPrefix (some "x")) prefixedWorld.store enc handle project := by
  refine ⟨.request applyPrefixed .empty ⟨⟨none, startedWith_only none⟩, distinct_applyPrefixed⟩
    visits_applyPrefixed, startedWith_only (some "x"), ?_⟩
  obtain ⟨r, v, hrun, evs, enc, handle, r', hlog, hev, hid, hproject⟩ : ∃ r v,
      Prog.tryRun World.next gcpAnswer (deletePrefixed.prog plainHost) prefixedWorld = some (r, v) ∧
      ∃ evs enc handle r', v.log = evs ++ prefixedWorld.log ∧
        (⟨.teardownEnclave (plainGcp.withPrefix (some "x")).driver enc handle, r'⟩ : Event) ∈ evs ∧
        enc.id = ⟨"a"⟩ ∧ handle.project = some "a" :=
    ⟨_, _, rfl, [_, _, _, _], _, _, _, rfl, List.mem_cons_of_mem _ (List.mem_cons_self ..), rfl, rfl⟩
  obtain ⟨other, hother, hproject'⟩ : ∃ other,
      prefixedWorld.store.handle ⟨"x-a"⟩ = some other ∧ other.project = some "x-a" := ⟨_, rfl, rfl⟩
  have hrequests := requests_deletePrefixed enc handle hid
  refine ⟨v, evs, enc, handle, other, r', (Prog.exec_tryRun adm_gcpAnswer hrun).visits, hlog, hev,
    hid, hproject, hother, hproject', hrequests, ?_⟩
  rintro ⟨project, hits⟩
  obtain rfl : "a" = project := Option.some.inj (hproject.symm.trans hits.named)
  obtain ⟨log, hlog, ev, hev, token, hdelete⟩ := hrequests
  rcases (hits.requests _ _ hlog).1 ev hev with hbearer | ⟨token', hown⟩
  · rw [hdelete] at hbearer
    cases hbearer
  · rw [hdelete] at hown
    injection hown with hurl
    exact absurd hurl (by decide)

theorem separate_applyPrefixed :
    applyPrefixed.Separate (plainGcp.withPrefix none) plainHost .empty := by
  intro _ desired hload _
  have hids : ∀ enc ∈ desired, enc.id = ⟨"a"⟩ ∨ enc.id = ⟨"x-a"⟩ := by
    intro enc henc
    have hid : enc.id ∈ desired.map (·.id) := List.mem_map_of_mem henc
    rw [ids_prefixed hload] at hid
    simpa using hid
  refine ⟨fun enc henc _ => ⟨fun enc' henc' _ hname => ?_, fun id _ h hh => ?_⟩,
    fun _ id _ s h hs => ?_⟩
  · rcases hids enc henc with hid | hid <;> rcases hids enc' henc' with hid' | hid' <;>
      rw [hid, hid'] at hname ⊢ <;> exact absurd hname (by decide)
  · simp [Store.handle, World.empty] at hh
  · simp [World.empty] at hs

/-- Without a restart the two projects are apart. -/
theorem projects_apart_prefixed :
    ProjectsApart prefixedWorld.store ∧ (prefixedWorld.store.handle ⟨"a"⟩).isSome = true ∧
      (prefixedWorld.store.handle ⟨"x-a"⟩).isSome = true :=
  ⟨(projects_apart (.request applyPrefixed .empty
      ⟨none, startedWith_only none, separate_applyPrefixed⟩ visits_applyPrefixed)).1, rfl, rfl⟩

end Nclav
