import Nclav.Guarantees.BrokenConfig

/-!
# Removing enclaves

The record of a removed enclave is the only trace of its cloud resources, so it may be
dropped only after a teardown that succeeded, or with an error in the report that names the
enclave. And one teardown that fails must not keep the others from being torn down, or the
desired enclaves from being reconciled.

The pass drops a record silently where the persisted cloud has no driver, and a failed
`teardown_enclave` ends the run. `removal_iff` says for which stores and desired lists
neither can happen, whatever is answered, and that for one run it is enough that every
removed handle has its driver and no `teardown_enclave` fails.
-/

namespace Nclav

open Effect

/-! ## The two guarantees -/

/-- A stored enclave that is not desired. -/
def Removed (st : Store) (desired : List Enclave) (id : EnclaveId) (s : EnclaveState) : Prop :=
  st.get? id = some s ∧ id ∉ desired.map (·.id)

/-- The record has a handle, and its cloud a driver. -/
def Tearable (registry : DriverRegistry) (s : EnclaveState) : Prop :=
  ∃ driver handle, registry.forCloud (registry.stateCloud s) = .ok driver ∧
    s.enclaveHandle = some handle

/-- A record with a handle is deleted only after a teardown that succeeded, or with a
reported error that names the enclave. -/
def DropsDealtWith (st : Store) (desired : List Enclave)
    (r : Except ReconcileError ReconcileReport) (w : World) : Prop :=
  ∀ id s, Removed st desired id s → s.enclaveHandle.isSome = true →
    (⟨.deleteEnclave id, .ok ()⟩ : Event) ∈ w.log →
    (∃ driver handle, s.enclaveHandle = some handle ∧
      (⟨.teardownEnclave driver s.desired handle, .ok ()⟩ : Event) ∈ w.log) ∨
    ∃ report, r = .ok report ∧ ∃ e ∈ report.errors, e.enclaveId = id

/-- Something of the teardown of `id` failed. -/
def TeardownFailed (id : EnclaveId) (w : World) : Prop :=
  w.Logged fun ev => ev.1.TearsDown id ∧ failed ev.1 ev.2 = true

/-- `teardown_enclave` was called on the enclave. -/
def TeardownCalled (s : EnclaveState) (w : World) : Prop :=
  w.Logged fun ev => ∃ driver handle, ev.1 = .teardownEnclave driver s.desired handle

/-- `provision_enclave` was called on the enclave. -/
def ProvisionCalled (enc : Enclave) (w : World) : Prop :=
  w.Logged fun ev => ∃ driver existing, ev.1 = .provisionEnclave driver enc existing

/-- A failed teardown of one removed enclave keeps no other removed enclave from being torn
down and no desired one from being reconciled. -/
def FailureIsolated (registry : DriverRegistry) (st : Store) (desired : List Enclave)
    (w : World) : Prop :=
  ∀ x, TeardownFailed x w →
    (∀ id s, Removed st desired id s → id ≠ x → Tearable registry s → TeardownCalled s w) ∧
    ∀ enc driver, (byId desired)[enc.id]? = some enc → registry.forEnclave enc = .ok driver →
      ProvisionCalled enc w

/-! ## What a removed enclave leaves in the log -/

section

variable {A : (c : Call) → Resp c → Prop} {run : Run} {id : EnclaveId} {s : EnclaveState}

theorem teardownRemovedEnclave_of_tearable {driver : Driver} {handle : Handle}
    (hdriver : run.registry.forCloud (run.registry.stateCloud s) = .ok driver)
    (hhandle : s.enclaveHandle = some handle) (errors : List ReportError) :
    teardownRemovedEnclave run id s errors =
      teardownRemovedResources run id driver s handle errors := by
  rw [teardownRemovedEnclave, hdriver, hhandle]

theorem teardownRemovedEnclave_of_not_tearable (h : ¬ Tearable run.registry s)
    (errors : List ReportError) : teardownRemovedEnclave run id s errors = pure errors := by
  rw [teardownRemovedEnclave]
  split
  · rename_i driver handle hdriver hhandle
    exact absurd ⟨driver, handle, hdriver, hhandle⟩ h
  · rfl

/-- Past the resources of a tearable enclave its teardown was called and succeeded. -/
theorem wpE_teardownRemovedResources {driver : Driver} {handle : Handle}
    (hfull : run.req.resourcesOnly = false) (errors : List ReportError) (w : World) :
    Prog.wpE (system A) (teardownRemovedResources run id driver s handle errors)
      (fun r w' => ∀ a, r = .ok a →
        (⟨.teardownEnclave driver s.desired handle, .ok ()⟩ : Event) ∈ w'.log) w := by
  refine Prog.wpE_bind_ok (Prog.wp_iff.mpr fun _ w₁ _ entries _ => ?_)
  refine Prog.wpE_bind_ok (Prog.wp_iff.mpr fun _ w₂ _ errors' _ => ?_)
  rw [hfull, if_neg Bool.false_ne_true]
  refine Prog.wpE_bind_ok ?_
  rw [wpE_orFail, Prog.wp_perform]
  rintro (e | ⟨⟩) - _ hr
  · cases hr
  · rintro _ ⟨⟩
    exact List.mem_cons_self ..

end

/-- Every record that was deleted had its enclave torn down, if there was one to tear down. -/
def DeletedTornDown (registry : DriverRegistry) (st : Store) (w : World) : Prop :=
  ∀ id s driver handle, st.get? id = some s →
    registry.forCloud (registry.stateCloud s) = .ok driver → s.enclaveHandle = some handle →
    (∃ r, (⟨.deleteEnclave id, r⟩ : Event) ∈ w.log) →
    (⟨.teardownEnclave driver s.desired handle, .ok ()⟩ : Event) ∈ w.log

section

variable {A : (c : Call) → Resp c → Prop} {host : Host} {req : ReconcileRequest}
  {registry : DriverRegistry} {desired : List Enclave} {st : Store} {run : Run}

/-- A call that is no deletion keeps this. -/
theorem DeletedTornDown.next {w : World} (h : DeletedTornDown registry st w) {c : Call}
    (hc : ∀ id, c ≠ .deleteEnclave id) (r : Resp c) : DeletedTornDown registry st (w.next c r) := by
  intro id s driver handle hs hdriver hhandle ⟨r', hdel⟩
  rcases List.mem_cons.mp hdel with heq | hdel
  · exact absurd (congrArg Sigma.fst heq).symm (hc id)
  · exact List.mem_cons_of_mem _ (h id s driver handle hs hdriver hhandle ⟨r', hdel⟩)

theorem DeletedTornDown.quiet {w w' : World} (h : DeletedTornDown registry st w)
    (hquiet : w.Quiet w') : DeletedTornDown registry st w' := by
  intro id s driver handle hs hdriver hhandle ⟨r, hdel⟩
  exact hquiet.log_subset (h id s driver handle hs hdriver hhandle ⟨r, hquiet.mem_log hdel rfl⟩)

theorem Call.TearsDown.ne_deleteEnclave {id : EnclaveId} {c : Call} (h : c.TearsDown id)
    (id' : EnclaveId) : c ≠ .deleteEnclave id' := by
  cases h <;> exact fun hc => by cases hc

theorem wpE_teardownRemoved_deletedTornDown (hfull : run.req.resourcesOnly = false)
    (hexisting : ∀ id, run.existing id = st.get? id) (id : EnclaveId) (errors : List ReportError)
    {w : World} (hw : DeletedTornDown run.registry st w) :
    Prog.wpE (system A) (teardownRemoved run errors id)
      (fun _ w' => DeletedTornDown run.registry st w') w := by
  rw [teardownRemoved]
  rcases hrec : run.existing id with _ | s
  · exact hw
  rw [hexisting] at hrec
  have hkeep : Prog.wpE (system A) (teardownRemovedEnclave run id s errors)
      (fun _ w' => DeletedTornDown run.registry st w') w :=
    (teardownRemovedEnclave_calls (Store.id_of_get? hrec) errors).keeps _
      (fun w c r hc _ hw => hw.next (fun id' => hc.ne_deleteEnclave id') r) hw
  rw [Prog.wpE_bind]
  refine Prog.wp_iff.mpr fun r w₁ hresources => ?_
  have hw₁ : DeletedTornDown run.registry st w₁ := hresources.wp hkeep
  cases r with
  | error e => exact hw₁
  | ok errors' =>
    rw [Prog.onOk_ok, Prog.wpE_bind, wpE_orFail, Prog.wp_perform]
    intro r _
    have hw₂ : DeletedTornDown run.registry st (w₁.next (.deleteEnclave id) r) := by
      intro id' s' driver handle hs' hdriver hhandle hdel
      by_cases hid : id' = id
      · rw [hid, hrec] at hs'
        obtain rfl := Option.some.inj hs'
        rw [teardownRemovedEnclave_of_tearable hdriver hhandle] at hresources
        exact List.mem_cons_of_mem _
          (hresources.wp (wpE_teardownRemovedResources hfull errors w) errors' rfl)
      · obtain ⟨r', hdel⟩ := hdel
        rcases List.mem_cons.mp hdel with heq | hdel
        · cases congrArg Sigma.fst heq
          exact absurd rfl hid
        · exact List.mem_cons_of_mem _ (hw₁ id' s' driver handle hs' hdriver hhandle ⟨r', hdel⟩)
    cases r with
    | ok _ => exact hw₂
    | error e => exact hw₂

/-- **Dropped after a teardown.** Where the persisted cloud has a driver, a record is deleted
only after a `teardown_enclave` that succeeded. -/
theorem deletedTornDown_of_run (hdry : req.dryRun = false) (hfull : req.resourcesOnly = false)
    {r : Except ReconcileError ReconcileReport} {w' : World}
    (hrun : Prog.Exec (system A) (reconcileLoaded host req registry desired).run
      (.ofStore st) r w') : DeletedTornDown registry st w' := by
  have hempty : DeletedTornDown registry st (.ofStore st) :=
    fun _ _ _ _ _ _ _ ⟨_, hdel⟩ => absurd hdel List.not_mem_nil
  refine (hrun.wp (wpE_reconcileLoaded_keeps (I := DeletedTornDown registry st)
    (J := fun _ _ => True) hdry (fun _ _ h => h.quiet) (fun _ _ _ _ _ => trivial) ?_ hempty)).1
  intro run resolved removed w₁ hstart _ hw₁
  obtain rfl := hstart.registry_eq
  obtain rfl := hstart.req_eq
  have hkeeps : Prog.Keeps (system A) (DeletedTornDown run.registry st)
      (passes run removed (orderedDesired resolved desired)) := by
    refine (Prog.Keeps.foldlM (fun errors id _ w hw => ?_) []).bind fun errors =>
      (Prog.Keeps.foldlM (fun errors enc _ => ?_) errors).bind fun errors =>
        Prog.Keeps.foldlM (fun errors enc _ => ?_) errors
    · exact wpE_teardownRemoved_deletedTornDown hfull hstart.existing id errors hw
    · refine (provisionEnclave_calls errors).keeps _ fun w c r hc _ hw => hw.next (fun id => ?_) r
      cases hc <;> exact fun h => by cases h
    · refine (wireEnclave_calls errors).keeps _ fun w c r hc _ hw => hw.next (fun id => ?_) r
      cases hc <;> exact fun h => by cases h
  exact Prog.wpE_mono (hkeeps hw₁) fun _ _ h => ⟨h, fun _ _ => trivial⟩

/-! ## What a run tears down -/

/-- A removed enclave with a driver and a handle. -/
def RemovedTearable (registry : DriverRegistry) (st : Store) (desired : List Enclave)
    (id : EnclaveId) : Prop :=
  ∃ s, Removed st desired id s ∧ Tearable registry s

/-- Teardowns are called on removed enclaves with a driver and a handle. -/
def TearsDownTearable (registry : DriverRegistry) (st : Store) (desired : List Enclave)
    (c : Call) : Prop :=
  ∀ id, c.TearsDown id → c.isQuiet = false → RemovedTearable registry st desired id

theorem Call.TearsDown.to_destroys {id : EnclaveId} {c : Call} (h : c.TearsDown id)
    (hloud : c.isQuiet = false) : c.Destroys id := by
  cases h with
  | partitionOrder => cases hloud
  | tfTeardown _ _ _ _ _ h => exact h
  | teardownPartition _ _ _ _ h => exact h
  | teardownEnclave _ _ _ h => exact h

theorem teardownRemoved_tearable {resolved : ResolvedGraph} {removed : List EnclaveId} {w : World}
    (hstart : RunStart host req registry desired w run resolved removed)
    {errors : List ReportError} {id : EnclaveId} (hid : id ∈ removed) :
    Prog.CallsE (TearsDownTearable registry w.store desired)
      (fun errors' => ∀ e ∈ errors', e ∈ errors ∨
        RemovedTearable registry w.store desired e.enclaveId)
      (teardownRemoved run errors id) := by
  obtain ⟨hstored, hnot⟩ := (hstart.mem_removed id).mp hid
  obtain ⟨s, hs⟩ := Option.isSome_iff_exists.mp hstored
  have hrec : run.existing id = some s := (hstart.existing id).trans hs
  by_cases htear : Tearable registry s
  · have hremoved : RemovedTearable registry w.store desired id := ⟨s, ⟨hs, hnot⟩, htear⟩
    refine (teardownRemoved_calls (fun s hs => hstart.keyed hs) errors).mono
      (fun c hc id' hid' hloud => ?_) fun errors' h e he => (h.mem he).imp_right fun heq => ?_
    · rcases hc with hc | rfl
      · rw [hc.destroys (hid'.to_destroys hloud)]
        exact hremoved
      · cases hid'
    · rw [heq]
      exact hremoved
  · rw [← hstart.registry_eq] at htear
    rw [teardownRemoved, hrec]
    simp only
    rw [teardownRemovedEnclave_of_not_tearable htear]
    refine (Prog.CallsE.pure (Q := fun a => a = errors) rfl).bind ?_
    rintro _ rfl
    refine (callsE_deleteEnclave ?_).bind fun _ _ => Prog.CallsE.pure fun e he => .inl he
    intro id' hid'
    cases hid'

/-- Since then only such calls were made. -/
def World.Only (w : World) (P : Call → Prop) (w' : World) : Prop :=
  ∃ newer, w'.log = newer ++ w.log ∧ ∀ ev ∈ newer, P ev.1

theorem World.Only.refl {P : Call → Prop} (w : World) : w.Only P w :=
  ⟨[], rfl, List.forall_mem_nil _⟩

theorem World.Only.next {P : Call → Prop} {w w' : World} (h : w.Only P w') {c : Call} (hc : P c)
    (r : Resp c) : w.Only P (w'.next c r) := by
  obtain ⟨newer, hlog, hnewer⟩ := h
  exact ⟨⟨c, r⟩ :: newer, congrArg _ hlog, List.forall_mem_cons.mpr ⟨hc, hnewer⟩⟩

theorem World.Only.all {P : Call → Prop} {w' : World} (h : (World.ofStore st).Only P w') :
    ∀ ev ∈ w'.log, P ev.1 := by
  obtain ⟨newer, hlog, hnewer⟩ := h
  rw [hlog, World.ofStore, List.append_nil]
  exact hnewer

/-- **What a run tears down and reports.** Teardowns are called on removed enclaves with a
driver and a handle, and an error names one of these or a desired enclave. -/
theorem tearsDown_of_run (hdry : req.dryRun = false)
    {r : Except ReconcileError ReconcileReport} {w w' : World}
    (hrun : Prog.Exec (system A) (reconcileLoaded host req registry desired).run w r w') :
    w.Only (TearsDownTearable registry w.store desired) w' ∧
      ∀ report, r = .ok report → ∀ e ∈ report.errors,
        RemovedTearable registry w.store desired e.enclaveId ∨
          e.enclaveId ∈ desired.map (·.id) := by
  let I (w' : World) : Prop := w.Only (TearsDownTearable registry w.store desired) w'
  let J (errors : List ReportError) : Prop := ∀ e ∈ errors,
    RemovedTearable registry w.store desired e.enclaveId ∨ e.enclaveId ∈ desired.map (·.id)
  refine hrun.wp (wpE_reconcileLoaded_keeps (I := I) (J := fun _ => J) hdry ?_
    (fun _ _ _ h _ => h) ?_ (World.Only.refl w))
  · intro w₁ w₂ hw₁ hquiet
    refine hquiet.keeps (I := I) (fun w c r hc hw => hw.next (fun id _ hloud => ?_) r) hw₁
    rw [hc] at hloud
    cases hloud
  intro run resolved removed w₁ hstart _ hw₁
  have hcalls : Prog.CallsE (TearsDownTearable registry w.store desired) J
      (passes run removed (orderedDesired resolved desired)) := by
    refine passes_callsE (fun errors id hid hJ => ?_) (fun errors enc henc hJ => ?_)
      (fun errors enc henc hJ => ?_) fun _ h => absurd h List.not_mem_nil
    · exact (teardownRemoved_tearable hstart hid).mono (fun _ h => h)
        fun errors' h e he => (h e he).elim (hJ e) .inl
    · refine (provisionEnclave_calls errors).mono (fun c hc id hid _ => ?_)
        fun errors' h e he => (h.mem he).elim (hJ e) fun heq => .inr ?_
      · cases hc <;> cases hid
      · rw [heq]
        exact List.mem_map_of_mem (mem_of_mem_orderedDesired henc)
    · refine (wireEnclave_calls errors).mono (fun c hc id hid _ => ?_)
        fun errors' h e he => (h.mem he).elim (hJ e) fun heq => .inr ?_
      · cases hc <;> cases hid
      · rw [heq]
        exact List.mem_map_of_mem (mem_of_mem_orderedDesired henc)
  exact Prog.wpE_mono (hcalls.wpE (M := system A) (I := I) (fun _ _ r hc _ hw => hw.next hc r) hw₁)
    fun _ _ h => ⟨h.2, h.1⟩

/-! ## Where nothing stops a run -/

theorem teardownCalled_of_run (hA : NeverAborts A) (hdry : req.dryRun = false)
    (hfull : req.resourcesOnly = false) {resolved : ResolvedGraph}
    (hvalid : validate host.topo desired = .ok resolved) {id : EnclaveId} {s : EnclaveState}
    (hremoved : Removed st desired id s) (htear : Tearable registry s)
    {r : Except ReconcileError ReconcileReport} {w' : World}
    (hrun : Prog.Exec (system A) (reconcileLoaded host req registry desired).run
      (.ofStore st) r w') : TeardownCalled s w' := by
  refine logged_of_run hA hdry hvalid (fun run removed w₁ hstart => ?_) hrun
  obtain rfl := hstart.registry_eq
  obtain rfl := hstart.req_eq
  obtain ⟨driver, handle, hdriver, hhandle⟩ := htear
  have hmem : id ∈ removed := (hstart.mem_removed id).mpr
    ⟨Option.isSome_iff_exists.mpr ⟨s, hremoved.1⟩, hremoved.2⟩
  have hrec : run.existing id = some s := (hstart.existing id).trans hremoved.1
  refine wpE_bind_logged (wpE_foldlM_logged hmem (fun errors w => ?_) [] w₁)
  rw [teardownRemoved, hrec]
  simp only
  rw [teardownRemovedEnclave_of_tearable hdriver hhandle]
  refine wpE_bind_logged (Prog.wpE_mono (wpE_teardownRemovedResources hfull errors w)
    fun r w₂ h₂ errors' hr => ?_)
  exact ⟨_, h₂ errors' hr, driver, handle, rfl⟩

theorem provisionCalled_of_run (hA : NeverAborts A) (hlawful : host.topo.Lawful)
    (hdry : req.dryRun = false) {resolved : ResolvedGraph}
    (hvalid : validate host.topo desired = .ok resolved) {enc : Enclave} {driver : Driver}
    (henc : (byId desired)[enc.id]? = some enc) (hdriver : registry.forEnclave enc = .ok driver)
    {r : Except ReconcileError ReconcileReport} {w' : World}
    (hrun : Prog.Exec (system A) (reconcileLoaded host req registry desired).run
      (.ofStore st) r w') : ProvisionCalled enc w' := by
  refine logged_of_run hA hdry hvalid (fun run removed w₁ hstart => ?_) hrun
  obtain rfl := hstart.registry_eq
  have hmem : enc ∈ orderedDesired resolved desired := (mem_orderedDesired hlawful hvalid).mpr henc
  refine wpE_bind_logs fun errors w₂ => wpE_bind_logged
    (wpE_foldlM_logged hmem (fun errors w => ?_) errors w₂)
  rw [provisionEnclave, hdriver]
  refine wpE_bind_logs fun _ w₃ => wpE_bind_logged ?_
  rw [Prog.wpE_monadLift, Prog.wp_perform]
  intro r _ _ _
  exact w₃.logged_next ⟨driver, _, rfl⟩

/-! ## Where every enclave teardown fails -/

/-- No store call succeeds in failing and no `teardown_enclave` succeeds. -/
def teardownsFail : (c : Call) → Resp c → Prop
  | .teardownEnclave _ _ _, r => r = .error (.teardownFailed "")
  | c, r => storeOk c r

theorem exists_answer_teardownsFail (w : World) (c : Call) :
    ∃ r, answers w c r ∧ teardownsFail c r := by
  obtain ⟨r, hr, hok⟩ := exists_answer_ok w c
  cases c with
  | teardownEnclave driver enc handle => exact ⟨_, trivial, rfl⟩
  | _ => exact ⟨r, hr, fun _ => hok⟩

theorem storeOk_of_teardownsFail (c : Call) (r : Resp c) (h : teardownsFail c r) : storeOk c r := by
  cases c with
  | teardownEnclave driver enc handle => exact fun h => by cases h
  | _ => exact h

theorem storeSafe_teardownsFail : StoreSafe teardownsFail := storeOk_of_teardownsFail

/-- No enclave but `y` was torn down, and none was provisioned. -/
def OnlyTorn (y : EnclaveId) (w : World) : Prop :=
  ∀ ev ∈ w.log, (∀ driver enc handle, ev.1 = .teardownEnclave driver enc handle → enc.id = y) ∧
    ∀ driver enc existing, ev.1 ≠ .provisionEnclave driver enc existing

/-- The teardown of `y` failed before any other enclave was torn down or provisioned. -/
structure StoppedAt (registry : DriverRegistry) (st : Store) (desired : List Enclave)
    (y : EnclaveId) (w : World) : Prop where
  tearable : RemovedTearable registry st desired y
  failed : TeardownFailed y w
  onlyTorn : OnlyTorn y w

theorem OnlyTorn.next {y : EnclaveId} {w : World} (h : OnlyTorn y w) {c : Call}
    (hc : c.TearsDown y ∨ ∃ id, c = .deleteEnclave id) (r : Resp c) : OnlyTorn y (w.next c r) := by
  intro ev hev
  rcases List.mem_cons.mp hev with rfl | hev
  · rcases hc with hc | ⟨id, rfl⟩
    · refine ⟨?_, ?_⟩
      · rintro driver enc handle rfl
        exact hc.to_destroys rfl
      · rintro driver enc existing rfl
        cases hc
    · exact ⟨nofun, nofun⟩
  · exact h ev hev

theorem OnlyTorn.quiet {y : EnclaveId} {w w' : World} (h : OnlyTorn y w) (hquiet : w.Quiet w') :
    OnlyTorn y w' := by
  intro ev hev
  refine ⟨?_, ?_⟩
  · intro driver enc handle hcall
    exact (h ev (hquiet.mem_log hev (by rw [hcall]; rfl))).1 driver enc handle hcall
  · intro driver enc existing hcall
    exact (h ev (hquiet.mem_log hev (by rw [hcall]; rfl))).2 driver enc existing hcall

theorem StoppedAt.quiet {y : EnclaveId} {w w' : World} (h : StoppedAt registry st desired y w)
    (hquiet : w.Quiet w') : StoppedAt registry st desired y w' :=
  ⟨h.tearable, h.failed.quiet hquiet, h.onlyTorn.quiet hquiet⟩

/-- The run ends at a tearable enclave. -/
theorem wpE_teardownRemovedResources_fails {id : EnclaveId} {s : EnclaveState} {driver : Driver}
    {handle : Handle} (hid : s.desired.id = id) (hfull : run.req.resourcesOnly = false)
    (errors : List ReportError) (w : World) :
    Prog.wpE (system teardownsFail) (teardownRemovedResources run id driver s handle errors)
      (fun r w' => (∃ e, r = .error e) ∧ TeardownFailed id w') w := by
  rw [teardownRemovedResources, Prog.wpE_bind, Prog.wpE_monadLift, Prog.wp_perform]
  intro entries _
  simp only [Prog.onOk_ok]
  rw [Prog.wpE_bind]
  refine (Prog.Succeeds.foldlM (fun _ _ _ => succeeds_teardownRemovedPartition _ _) _).wpE ?_
  refine Prog.wp_iff.mpr fun _ w₁ _ errors' _ => ?_
  simp only [Prog.onOk_ok, hfull, Bool.false_eq_true, if_false]
  rw [Prog.wpE_bind, wpE_orFail, Prog.wp_perform]
  rintro r ⟨-, hr⟩
  have hfailed : r = .error (.teardownFailed "") := hr
  subst hfailed
  exact ⟨⟨_, rfl⟩, w₁.logged_next ⟨.teardownEnclave _ _ _ hid, rfl⟩⟩

theorem wpE_teardownPass_stops {resolved : ResolvedGraph} {removed : List EnclaveId}
    (hstart : RunStart host req registry desired (.ofStore st) run resolved removed)
    (hfull : req.resourcesOnly = false) {x : EnclaveId}
    (hx : RemovedTearable registry st desired x) {w : World} (hw : ∀ y, OnlyTorn y w) :
    Prog.wpE (system teardownsFail) (teardownPass run removed)
      (fun r w' => (∃ e, r = .error e) ∧ ∃ y, StoppedAt registry st desired y w') w := by
  refine Prog.wp_foldlM (fun pre _ w => (∀ id ∈ pre, ¬ RemovedTearable registry st desired id) ∧
    ∀ y, OnlyTorn y w) ?_ ?_ ⟨fun _ h => absurd h List.not_mem_nil, hw⟩
  · rintro pre id post errors w hsplit ⟨hpre, hw⟩
    obtain ⟨hstored, hnot⟩ := (hstart.mem_removed id).mp (by rw [hsplit]; simp)
    obtain ⟨s, hs⟩ := Option.isSome_iff_exists.mp hstored
    have hrec : run.existing id = some s := (hstart.existing id).trans hs
    have hid : s.desired.id = id := hstart.keyed hrec
    rw [teardownRemoved, hrec]
    simp only
    rw [Prog.wpE_bind]
    by_cases htear : Tearable registry s
    · have hremoved : RemovedTearable registry st desired id := ⟨s, ⟨hs, hnot⟩, htear⟩
      rw [← hstart.registry_eq] at htear
      obtain ⟨driver, handle, hdriver, hhandle⟩ := htear
      have honly : Prog.wpE (system teardownsFail) (teardownRemovedEnclave run id s errors)
          (fun _ w' => OnlyTorn id w') w :=
        (teardownRemovedEnclave_calls hid errors).keeps (OnlyTorn id)
          (fun w c r hc _ hw => hw.next (.inl hc) r) (hw id)
      rw [teardownRemovedEnclave_of_tearable hdriver hhandle] at honly ⊢
      refine Prog.wpE_mono (Prog.wp_and.mpr ⟨honly, wpE_teardownRemovedResources_fails hid
        (by rw [hstart.req_eq]; exact hfull) errors w⟩) fun r w' h => ?_
      obtain ⟨honly, ⟨e, rfl⟩, hfailed⟩ := h
      exact ⟨⟨e, rfl⟩, id, hremoved, hfailed, honly⟩
    · have hnone : ¬ RemovedTearable registry st desired id := by
        rintro ⟨s', hs', htear'⟩
        obtain rfl := Option.some.inj (hs.symm.trans hs'.1)
        exact htear htear'
      rw [← hstart.registry_eq] at htear
      rw [teardownRemovedEnclave_of_not_tearable htear]
      simp only [Prog.wpE_pure, Prog.onOk_ok]
      rw [Prog.wpE_bind]
      refine (succeeds_deleteEnclave storeSafe_teardownsFail id).wpE ?_
      rw [wpE_orFail, Prog.wp_perform]
      intro r _ _ _
      refine ⟨fun id' hid' => ?_, fun y => (hw y).next (.inr ⟨id, rfl⟩) r⟩
      rcases List.mem_append.mp hid' with hid' | hid'
      · exact hpre id' hid'
      · rw [List.mem_singleton.mp hid']
        exact hnone
  · rintro errors w ⟨hnone, -⟩
    obtain ⟨s, hs, htear⟩ := hx
    exact absurd ⟨s, hs, htear⟩ (hnone x ((hstart.mem_removed x).mpr
      ⟨Option.isSome_iff_exists.mpr ⟨s, hs.1⟩, hs.2⟩))

/-- **A failed teardown stops the run.** Where every `teardown_enclave` fails, the run ends at
the first removed enclave with a driver and a handle. -/
theorem stoppedAt_of_run (hdry : req.dryRun = false) (hfull : req.resourcesOnly = false)
    {resolved : ResolvedGraph} (hvalid : validate host.topo desired = .ok resolved)
    {x : EnclaveId} (hx : RemovedTearable registry st desired x)
    {r : Except ReconcileError ReconcileReport} {w' : World}
    (hrun : Prog.Exec (system teardownsFail) (reconcileLoaded host req registry desired).run
      (.ofStore st) r w') : ∃ y, StoppedAt registry st desired y w' := by
  refine hrun.wp (Q := fun _ w => ∃ y, StoppedAt registry st desired y w)
    (wpE_reconcileLoaded hdry (fun e he => ?_) (fun h => absurd storeSafe_teardownsFail h) ?_)
  · rw [hvalid] at he
    cases he
  intro run resolved' removed w₁ hstart hw₁
  refine wpE_applyPasses (fun h => absurd storeSafe_teardownsFail h) fun w₂ hw₂ => ?_
  have hstarted : ∀ y, OnlyTorn y w₂ := fun y =>
    OnlyTorn.quiet (w := .ofStore st) (fun _ hev => absurd hev List.not_mem_nil) (hw₁.trans hw₂)
  rw [passes, Prog.wpE_bind]
  refine Prog.wpE_mono (wpE_teardownPass_stops hstart hfull hx hstarted) fun r w₃ h₃ => ?_
  obtain ⟨⟨e, rfl⟩, y, hy⟩ := h₃
  exact fun w₄ hw₄ => ⟨⟨y, hy.quiet hw₄⟩, fun hunsafe => absurd storeSafe_teardownsFail hunsafe⟩

theorem removedTearable_of_failed (hdry : req.dryRun = false)
    {r : Except ReconcileError ReconcileReport} {w' : World}
    (hrun : Prog.Exec (system A) (reconcileLoaded host req registry desired).run
      (.ofStore st) r w') {x : EnclaveId} (hx : TeardownFailed x w') :
    RemovedTearable registry st desired x := by
  obtain ⟨ev, hev, htears, hfailed⟩ := hx
  refine (tearsDown_of_run hdry hrun).1.all ev hev x htears ?_
  obtain ⟨c, r⟩ := ev
  cases htears with
  | partitionOrder => cases hfailed
  | _ => rfl

theorem dropsDealtWith_of_run (hdry : req.dryRun = false) (hfull : req.resourcesOnly = false)
    (htearable : ∀ id s, Removed st desired id s → s.enclaveHandle.isSome = true →
      Tearable registry s) {r : Except ReconcileError ReconcileReport} {w' : World}
    (hrun : Prog.Exec (system A) (reconcileLoaded host req registry desired).run
      (.ofStore st) r w') : DropsDealtWith st desired r w' := by
  intro id s hremoved hhandle hdel
  obtain ⟨driver, handle, hdriver, hs⟩ := htearable id s hremoved hhandle
  exact .inl ⟨driver, handle, hs, deletedTornDown_of_run hdry hfull hrun id s driver handle
    hremoved.1 hdriver hs ⟨_, hdel⟩⟩

/-- A handle without a driver: the record goes and nothing is said. -/
theorem tearable_of_dropsDealtWith (hdry : req.dryRun = false) {resolved : ResolvedGraph}
    (hvalid : validate host.topo desired = .ok resolved)
    (hdrops : ∀ r w', Prog.Exec (system storeOk) (reconcileLoaded host req registry desired).run
      (.ofStore st) r w' → DropsDealtWith st desired r w')
    {id : EnclaveId} {s : EnclaveState} (hremoved : Removed st desired id s)
    (hhandle : s.enclaveHandle.isSome = true) : Tearable registry s := by
  obtain ⟨r, w', hrun⟩ := Prog.exists_exec (M := system allOk) exists_answer_ok
    (reconcileLoaded host req registry desired).run (.ofStore st)
  have hstoreOk := exec_weaken storeOk_of_allOk hrun
  obtain ⟨⟨c, a⟩, hev, hcall⟩ := deleted_of_reconcileLoaded hdry hvalid
    (Option.isSome_iff_exists.mpr ⟨s, hremoved.1⟩) hremoved.2 hrun
  have hok := log_answers hrun (fun _ h => absurd h List.not_mem_nil) _ hev
  obtain rfl : c = .deleteEnclave id := hcall
  obtain ⟨htears, herrors⟩ := tearsDown_of_run hdry hrun
  have htearable : RemovedTearable registry st desired id := by
    rcases a with e | ⟨⟩
    · cases hok
    rcases hdrops r w' hstoreOk id s hremoved hhandle hev with
      ⟨driver, handle, -, htorn⟩ | ⟨report, hreport, e, he, hid⟩
    · exact htears.all _ htorn id (.teardownEnclave _ _ _ (Store.id_of_get? hremoved.1)) rfl
    · rcases herrors report hreport e he with h | h
      · rwa [hid] at h
      · rw [hid] at h
        exact absurd h hremoved.2
  obtain ⟨s', hs', htear⟩ := htearable
  obtain rfl := Option.some.inj (hs'.1.symm.trans hremoved.1)
  exact htear

/-- Nothing stands behind a removed enclave that could be kept waiting by its teardown. -/
theorem alone_of_failureIsolated (hdry : req.dryRun = false) (hfull : req.resourcesOnly = false)
    {resolved : ResolvedGraph} (hvalid : validate host.topo desired = .ok resolved)
    (hisolated : ∀ r w', Prog.Exec (system storeOk)
      (reconcileLoaded host req registry desired).run (.ofStore st) r w' →
        FailureIsolated registry st desired w')
    {x : EnclaveId} (hx : RemovedTearable registry st desired x) :
    (∀ id, RemovedTearable registry st desired id → id = x) ∧
      ∀ enc driver, (byId desired)[enc.id]? = some enc → registry.forEnclave enc ≠ .ok driver := by
  obtain ⟨r, w', hrun⟩ := Prog.exists_exec (M := system teardownsFail) exists_answer_teardownsFail
    (reconcileLoaded host req registry desired).run (.ofStore st)
  have hstoreOk := exec_weaken storeOk_of_teardownsFail hrun
  obtain ⟨y, -, hfailed, honly⟩ := stoppedAt_of_run hdry hfull hvalid hx hrun
  obtain ⟨hothers, hdesired⟩ := hisolated r w' hstoreOk y hfailed
  have hall : ∀ id, RemovedTearable registry st desired id → id = y := by
    rintro id ⟨s, hs, htear⟩
    by_contra hne
    obtain ⟨ev, hev, driver, handle, hcall⟩ := hothers id s hs hne htear
    exact hne ((Store.id_of_get? hs.1).symm.trans ((honly ev hev).1 _ _ _ hcall))
  refine ⟨fun id hid => (hall id hid).trans (hall x hx).symm, fun enc driver henc hdriver => ?_⟩
  obtain ⟨ev, hev, driver', existing, hcall⟩ := hdesired enc driver henc hdriver
  exact (honly ev hev).2 driver' enc existing hcall

end

/-! ## Removing enclaves -/

section

variable (host : Host) (req : ReconcileRequest) (registry : DriverRegistry)
  (desired : List Enclave) (st : Store)

/-- Both guarantees hold of every run with these answers. -/
def RemovesSafely (A : (c : Call) → Resp c → Prop) : Prop :=
  ∀ r w', Prog.Exec (system A) (reconcileLoaded host req registry desired).run
    (.ofStore st) r w' → DropsDealtWith st desired r w' ∧ FailureIsolated registry st desired w'

/-- Every removed handle has the driver of its cloud. -/
def HandlesHaveDrivers : Prop :=
  ∀ id s, Removed st desired id s → s.enclaveHandle.isSome = true → Tearable registry s

/-- Where an enclave is to be torn down it is the only one, and no desired enclave has a
driver. -/
def TornDownAlone : Prop :=
  ∀ x, RemovedTearable registry st desired x →
    (∀ id, RemovedTearable registry st desired id → id = x) ∧
      ∀ enc driver, (byId desired)[enc.id]? = some enc → registry.forEnclave enc ≠ .ok driver

variable {host req registry desired st}

/-- **Removing enclaves.** Whatever the drivers answer, both guarantees hold exactly when the
list does not validate, or every removed handle has a driver and whoever is torn down is
alone. Where no `teardown_enclave` fails, the drivers are enough. -/
theorem removal_iff (hlawful : host.topo.Lawful) (hdry : req.dryRun = false)
    (hfull : req.resourcesOnly = false) :
    (RemovesSafely host req registry desired st storeOk ↔
      ∀ resolved, validate host.topo desired = .ok resolved →
        HandlesHaveDrivers registry desired st ∧ TornDownAlone registry desired st) ∧
    (HandlesHaveDrivers registry desired st →
      ∀ A, NeverAborts A → RemovesSafely host req registry desired st A) := by
  refine ⟨⟨fun hsafe resolved hvalid => ⟨?_, ?_⟩, fun hcond r w' hrun => ?_⟩,
    fun hdrivers A hA r w' hrun => ?_⟩
  · exact fun id s => tearable_of_dropsDealtWith hdry hvalid fun r w' h => (hsafe r w' h).1
  · exact fun x => alone_of_failureIsolated hdry hfull hvalid fun r w' h => (hsafe r w' h).2
  · rcases hvalid : validate host.topo desired with e | resolved
    · rw [reconcileLoaded_of_invalid hvalid] at hrun
      cases hrun
      exact ⟨fun _ _ _ _ hdel => absurd hdel List.not_mem_nil,
        fun _ ⟨_, hev, _⟩ => absurd hev List.not_mem_nil⟩
    obtain ⟨hdrivers, halone⟩ := hcond resolved hvalid
    refine ⟨dropsDealtWith_of_run hdry hfull hdrivers hrun, fun x hx => ?_⟩
    obtain ⟨hothers, hdesired⟩ := halone x (removedTearable_of_failed hdry hrun hx)
    exact ⟨fun id s hs hne htear => absurd (hothers id ⟨s, hs, htear⟩) hne,
      fun enc driver henc hdriver => absurd hdriver (hdesired enc driver henc)⟩
  · rcases hvalid : validate host.topo desired with e | resolved
    · rw [reconcileLoaded_of_invalid hvalid] at hrun
      cases hrun
      exact ⟨fun _ _ _ _ hdel => absurd hdel List.not_mem_nil,
        fun _ ⟨_, hev, _⟩ => absurd hev List.not_mem_nil⟩
    refine ⟨dropsDealtWith_of_run hdry hfull hdrivers hrun, fun x _ => ⟨?_, ?_⟩⟩
    · exact fun id s hs _ htear => teardownCalled_of_run hA hdry hfull hvalid hs htear hrun
    · exact fun enc driver henc hdriver =>
        provisionCalled_of_run hA hlawful hdry hvalid henc hdriver hrun

end

/-! ### A cloud without a driver -/

/-- The applied enclave with the handle it was given. -/
def appliedState : EnclaveState :=
  { EnclaveState.new appliedEnclave with
    enclaveHandle := some .null
    resolvedCloud := some .gcp }

theorem removed_applied :
    Removed (Store.empty.upsert appliedState) [] ⟨"a"⟩ appliedState :=
  ⟨(Store.get?_upsert _ _ _).trans (if_pos rfl), List.not_mem_nil⟩

def plainDriver : Driver := ⟨"plain", fun _ _ => ∅, fun _ _ => ∅⟩

def gcpOnly : DriverRegistry := ⟨.gcp, fun cloud => if cloud = .gcp then some plainDriver else none⟩

theorem eq_of_removed_applied {id : EnclaveId} {s : EnclaveState}
    (h : Removed (Store.empty.upsert appliedState) [] id s) : id = ⟨"a"⟩ ∧ s = appliedState := by
  have hs := h.1
  rw [Store.get?_upsert, Store.get?_empty] at hs
  split at hs
  · rename_i hid
    exact ⟨hid, (Option.some.inj hs).symm⟩
  · cases hs

/-- **The driver is not configured.** The record of a removed enclave is dropped although it
has a handle; nothing is torn down and nothing is reported. -/
theorem driverless_dropped :
    ¬ RemovesSafely plainHost enclavesRequest noDrivers [] (Store.empty.upsert appliedState)
      storeOk := by
  intro hsafe
  obtain ⟨driver, handle, hdriver, -⟩ := tearable_of_dropsDealtWith rfl rfl
    (fun r w' h => (hsafe r w' h).1) removed_applied rfl
  cases hdriver

/-! ### Two removed enclaves -/

/-- A partition with the handle of its identity. -/
def heldPartition : PartitionState :=
  { PartitionState.new ⟨⟨"p"⟩, "p", none, [], [], ∅, [], .terraform ⟨none, none, "p"⟩⟩ with
    partitionHandle := some .null }

/-- An enclave with a partition, and the handles of both. -/
def heldState (id : EnclaveId) : EnclaveState :=
  { appliedState with
    desired := { appliedEnclave with id := id, partitions := [heldPartition.desired] }
    partitions := (∅ : HashMap PartitionId PartitionState).insert ⟨"p"⟩ heldPartition }

def twoHeld : Store := (Store.empty.upsert (heldState ⟨"a"⟩)).upsert (heldState ⟨"b"⟩)

theorem get?_twoHeld {id : EnclaveId} {s : EnclaveState} (h : twoHeld.get? id = some s) :
    (id = ⟨"a"⟩ ∨ id = ⟨"b"⟩) ∧ s = heldState id := by
  rw [twoHeld, Store.get?_upsert, Store.get?_upsert, Store.get?_empty] at h
  split at h
  · rename_i hid
    subst hid
    exact ⟨.inr rfl, (Option.some.inj h).symm⟩
  · split at h
    · rename_i hid
      subst hid
      exact ⟨.inl rfl, (Option.some.inj h).symm⟩
    · cases h

/-- Nothing fails that would end a run. -/
def harmless (c : Call) (r : Resp c) : Prop := c.isFatal = true → failed c r = false

/-- Terraform cannot destroy what belongs to `a`. -/
def lockedAnswer (w : World) : (c : Call) → Resp c
  | .tfTeardown tf enc part authEnv runId =>
    if enc.id = ⟨"a"⟩ ∧ tf.testMode = false then .error (.internal "locked")
    else okAnswer w (.tfTeardown tf enc part authEnv runId)
  | c => okAnswer w c

theorem admits_lockedAnswer (w : World) (c : Call) :
    (system harmless).adm w c (lockedAnswer w c) := by
  cases c with
  | tfTeardown tf enc part authEnv runId =>
    refine ⟨fun htest => ?_, nofun⟩
    simp only [lockedAnswer]
    rw [if_neg fun h => by rw [htest] at h; cases h.2]
    rfl
  | _ => exact ⟨answers_okAnswer w _, fun _ => allOk_okAnswer w _⟩

def lockedRun : Except ReconcileError ReconcileReport × World :=
  Prog.run World.next lockedAnswer (reconcileLoaded plainHost enclavesRequest gcpOnly []).run
    (.ofStore twoHeld)

/-- What Terraform answers on `a`. -/
def isLocked (ev : Event) : Bool :=
  match ev with
  | ⟨.tfTeardown _ enc _ _ _, .error _⟩ => enc.id = ⟨"a"⟩
  | _ => false

theorem teardownFailed_of_isLocked {ev : Event} (h : isLocked ev = true) :
    ev.1.TearsDown ⟨"a"⟩ ∧ failed ev.1 ev.2 = true := by
  unfold isLocked at h
  split at h
  · exact ⟨.tfTeardown _ _ _ _ _ (of_decide_eq_true h), rfl⟩
  · cases h

/-- With their driver in the registry the enclaves are removed safely, as long as no teardown of an
enclave fails: `b` is torn down although Terraform fails on `a`. -/
theorem removal_applied :
    RemovesSafely plainHost enclavesRequest gcpOnly [] twoHeld harmless ∧
      TeardownFailed ⟨"a"⟩ lockedRun.2 ∧ TeardownCalled (heldState ⟨"b"⟩) lockedRun.2 := by
  have hdrivers : HandlesHaveDrivers gcpOnly [] twoHeld := by
    intro id s hs _
    rw [(get?_twoHeld hs.1).2]
    exact ⟨plainDriver, .null, rfl, rfl⟩
  have hsafe : RemovesSafely plainHost enclavesRequest gcpOnly [] twoHeld harmless :=
    (removal_iff Topo.kahn_lawful rfl rfl).2 hdrivers harmless fun _ _ h => h
  have hfailed : TeardownFailed ⟨"a"⟩ lockedRun.2 := by
    have hlogged : lockedRun.2.log.any isLocked = true := by decide +kernel
    obtain ⟨ev, hev, hlocked⟩ := List.any_eq_true.mp hlogged
    exact ⟨ev, hev, teardownFailed_of_isLocked hlocked⟩
  refine ⟨hsafe, hfailed, ?_⟩
  have hrun := Prog.exec_run (M := system harmless) admits_lockedAnswer
    (reconcileLoaded plainHost enclavesRequest gcpOnly []).run (.ofStore twoHeld)
  exact ((hsafe _ _ hrun).2 ⟨"a"⟩ hfailed).1 ⟨"b"⟩ (heldState ⟨"b"⟩)
    ⟨rfl, List.not_mem_nil⟩ (by decide) ⟨plainDriver, .null, rfl, rfl⟩

end Nclav
