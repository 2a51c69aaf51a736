import Nclav.Reconciler.Provision
import Nclav.Reconciler.Teardown
import Nclav.Reconciler.Wiring

/-!
# Reconcile

One run: load the directory, validate, read the store, compute the changes, and unless the
run is dry tear down what is gone, provision what is desired and wire the imports. The part
after loading is `reconcileLoaded`, a program over the list of desired enclaves.
-/

namespace Nclav

open Effect

/-- The three passes. -/
def passes (run : Run) (removed : List EnclaveId) (ordered : List Enclave) :
    Rec (List ReportError) := do
  let errors ← teardownPass run removed
  let errors ← provisionPass run ordered errors
  wiringPass run ordered errors

/-- The passes of a run that is not dry, with their audit events around them. -/
def applyPasses (run : Run) (removed : List EnclaveId) (ordered : List Enclave)
    (changes : List Change) : Rec (List ReportError) := do
  let now ← perform .now
  storeCall (perform (.appendEvent (.reconcileStarted run.runId now false)))
  let errors ← passes run removed ordered
  let now ← perform .now
  storeCall (perform (.appendEvent (.reconcileCompleted run.runId now changes.length false)))
  return errors

/-- A run on a loaded list of enclaves. -/
def reconcileLoaded (host : Host) (req : ReconcileRequest) (registry : DriverRegistry)
    (desired : List Enclave) : Rec ReconcileReport :=
  match validate host.topo desired with
  | .error e => throw (.graph e)
  | .ok resolved => do
    let records ← storeCall (perform .listEnclaves)
    let actual := actualStates records
    let removed ← perform (.enclaveOrder (removedIds actual desired))
    let ordered := orderedDesired resolved desired
    let changes := diff host actual removed.val ordered
    if req.dryRun then return { dryRun := true, changes, errors := [] }
    else do
      let runId ← perform .newUuid
      let run : Run := { host, req, registry, actualStates := actual, runId }
      let errors ← applyPasses run removed.val ordered changes
      return { dryRun := false, changes, errors }

/-- A run on a directory. -/
def reconcile (host : Host) (fs : FileSystem) (root : Dir) (req : ReconcileRequest)
    (registry : DriverRegistry) : Rec ReconcileReport :=
  match loadEnclaves fs req.enclavesDir root with
  | .error e => throw (.config e)
  | .ok desired => reconcileLoaded host req registry desired

section

variable {host : Host} {fs : FileSystem} {root : Dir} {req : ReconcileRequest}
  {registry : DriverRegistry} {desired : List Enclave}

theorem reconcile_of_loaded (h : loadEnclaves fs req.enclavesDir root = .ok desired) :
    reconcile host fs root req registry = reconcileLoaded host req registry desired := by
  rw [reconcile, h]

theorem reconcile_of_load_error {e : ConfigError}
    (h : loadEnclaves fs req.enclavesDir root = .error e) :
    reconcile host fs root req registry = throw (.config e) := by
  rw [reconcile, h]

theorem reconcileLoaded_of_invalid {e : GraphError} (h : validate host.topo desired = .error e) :
    reconcileLoaded host req registry desired = throw (.graph e) := by
  rw [reconcileLoaded, h]

end

/-! ## How a run starts and ends -/

/-- What a run that is not dry knows when its passes begin, `w` being the world in which it
was started. -/
structure RunStart (host : Host) (req : ReconcileRequest) (registry : DriverRegistry)
    (desired : List Enclave) (w : World) (run : Run) (resolved : ResolvedGraph)
    (removed : List EnclaveId) : Prop where
  host_eq : run.host = host
  req_eq : run.req = req
  registry_eq : run.registry = registry
  valid : validate host.topo desired = .ok resolved
  /-- the snapshot is the store -/
  existing : ∀ id, run.existing id = w.store.get? id
  mem_removed : ∀ id, id ∈ removed ↔ (w.store.get? id).isSome = true ∧ id ∉ desired.map (·.id)
  nodup_removed : removed.Nodup

theorem RunStart.keyed {host : Host} {req : ReconcileRequest} {registry : DriverRegistry}
    {desired : List Enclave} {w : World} {run : Run} {resolved : ResolvedGraph}
    {removed : List EnclaveId}
    (h : RunStart host req registry desired w run resolved removed) {id : EnclaveId}
    {s : EnclaveState} (hs : run.existing id = some s) : s.desired.id = id := by
  rw [h.existing] at hs
  exact Store.id_of_get? hs

theorem RunStart.quiet {host : Host} {req : ReconcileRequest} {registry : DriverRegistry}
    {desired : List Enclave} {w w' : World} {run : Run} {resolved : ResolvedGraph}
    {removed : List EnclaveId}
    (h : RunStart host req registry desired w run resolved removed) (hquiet : w.Quiet w') :
    RunStart host req registry desired w' run resolved removed :=
  { h with
    existing := fun id => by rw [hquiet.store]; exact h.existing id
    mem_removed := fun id => by rw [hquiet.store]; exact h.mem_removed id }

theorem nodup_removedIds (actual : HashMap EnclaveId EnclaveState) (desired : List Enclave) :
    (removedIds actual desired).Nodup :=
  Std.ExtTreeMap.nodup_keys.filter _

section

variable {A : (c : Call) → Resp c → Prop} {host : Host} {req : ReconcileRequest}
  {registry : DriverRegistry} {desired : List Enclave} {w : World}

/-- The rule for a run that is not dry: it fails before it wrote anything, or its passes
begin, with the removed ids in the order that was answered. -/
theorem wpE_reconcileLoaded_ordered {Q : Except ReconcileError ReconcileReport → World → Prop}
    (hdry : req.dryRun = false)
    (hgraph : ∀ e, validate host.topo desired = .error e → Q (.error (.graph e)) w)
    (hstore : ¬ QuietSafe A → ∀ e w', w.Quiet w' → Q (.error (.store e)) w')
    (hrun : ∀ run resolved removed w',
      RunStart host req registry desired w run resolved removed →
      (∃ ids h, A (.enclaveOrder ids) ⟨removed, h⟩) → w.Quiet w' →
      let changes := diff host run.actualStates removed (orderedDesired resolved desired)
      Prog.wpE (system A)
        (applyPasses run removed (orderedDesired resolved desired) changes)
        (fun r => Q (r.map fun errors => { dryRun := false, changes, errors })) w') :
    Prog.wpE (system A) (reconcileLoaded host req registry desired) Q w := by
  rw [reconcileLoaded]
  rcases hvalid : validate host.topo desired with e | resolved
  · exact hgraph e hvalid
  · simp only [hdry, Bool.false_eq_true, if_false]
    rw [Prog.wpE_bind, wpE_orFail, Prog.wp_perform]
    intro r hr
    have hquiet := (World.Quiet.refl w).next (c := .listEnclaves) rfl r
    rcases r with e | records
    · exact hstore (fun hsafe => by cases hsafe _ _ hr.2 rfl rfl) e _ hquiet
    · simp only [Except.mapError, Prog.onOk_ok]
      rw [Prog.wpE_bind, Prog.wpE_monadLift, Prog.wp_perform]
      intro removed hremoved
      simp only [Prog.onOk_ok]
      rw [Prog.wpE_bind, Prog.wpE_monadLift, Prog.wp_perform]
      intro runId _
      simp only [Prog.onOk_ok]
      rw [Prog.wpE_bind]
      have hsnapshot : ∀ id, (actualStates records)[id]? = w.store.get? id :=
        get?_actualStates hr.1
      refine Prog.wpE_mono (hrun ⟨host, req, registry, actualStates records, runId⟩ resolved
        removed.val _ ⟨rfl, rfl, rfl, hvalid, hsnapshot, ?_, ?_⟩ ⟨_, removed.property, hremoved.2⟩
        ((hquiet.next (c := .enclaveOrder _) rfl removed).next (c := .newUuid) rfl runId)) ?_
      · intro id
        rw [removed.property.mem_iff, mem_removedIds, hsnapshot]
      · exact removed.property.nodup_iff.mpr (nodup_removedIds _ _)
      · intro r w' hQ
        cases r with
        | ok errors => exact hQ
        | error e => exact hQ

/-- The rule where the order does not matter. -/
theorem wpE_reconcileLoaded {Q : Except ReconcileError ReconcileReport → World → Prop}
    (hdry : req.dryRun = false)
    (hgraph : ∀ e, validate host.topo desired = .error e → Q (.error (.graph e)) w)
    (hstore : ¬ StoreSafe A → ∀ e w', w.Quiet w' → Q (.error (.store e)) w')
    (hrun : ∀ run resolved removed w',
      RunStart host req registry desired w run resolved removed → w.Quiet w' →
      let changes := diff host run.actualStates removed (orderedDesired resolved desired)
      Prog.wpE (system A)
        (applyPasses run removed (orderedDesired resolved desired) changes)
        (fun r => Q (r.map fun errors => { dryRun := false, changes, errors })) w') :
    Prog.wpE (system A) (reconcileLoaded host req registry desired) Q w :=
  wpE_reconcileLoaded_ordered hdry hgraph (fun h => hstore fun hsafe => h hsafe.quietSafe)
    fun run resolved removed w' hstart _ hquiet => hrun run resolved removed w' hstart hquiet

/-- A dry run makes quiet calls only. -/
theorem wpE_reconcileLoaded_dry (hdry : req.dryRun = true) :
    Prog.wpE (system A) (reconcileLoaded host req registry desired) (fun _ w' => w.Quiet w') w := by
  rw [reconcileLoaded]
  split
  · exact .refl w
  simp only [hdry, if_true]
  rw [Prog.wpE_bind, wpE_orFail, Prog.wp_perform]
  intro r _
  have hquiet := (World.Quiet.refl w).next (c := .listEnclaves) rfl r
  rcases r with e | records
  · exact hquiet
  · intro removed _
    exact hquiet.next (c := .enclaveOrder _) rfl removed

/-- A run of either kind plans from the store: what it reports are the changes between that and
the list. -/
theorem planned_of_run {report : ReconcileReport} {w' : World}
    (hrun : Prog.Exec (system A) (reconcileLoaded host req registry desired).run w
      (.ok report) w') :
    ∃ resolved actual removed, validate host.topo desired = .ok resolved ∧
      (∀ id : EnclaveId, actual[id]? = w.store.get? id) ∧
      removed.Perm (removedIds actual desired) ∧
      report.changes = diff host actual removed (orderedDesired resolved desired) := by
  rcases hvalid : validate host.topo desired with e | resolved
  · rw [reconcileLoaded_of_invalid hvalid] at hrun
    cases hrun
  refine hrun.wp (Q := fun r _ => ∀ report, r = .ok report → ∃ resolved' actual removed,
    Except.ok resolved = Except.ok resolved' ∧ (∀ id : EnclaveId, actual[id]? = w.store.get? id) ∧
    removed.Perm (removedIds actual desired) ∧
    report.changes = diff host actual removed (orderedDesired resolved' desired)) ?_ report rfl
  show Prog.wpE (system A) (reconcileLoaded host req registry desired) _ w
  rw [reconcileLoaded, hvalid]
  refine Prog.wpE_bind_ok ?_
  rw [wpE_orFail, Prog.wp_perform]
  rintro (e | records) hrecords
  · rintro _ ⟨⟩
  rintro _ ⟨⟩
  refine Prog.wpE_bind_ok ?_
  rw [Prog.wpE_monadLift, Prog.wp_perform]
  rintro removed - _ ⟨⟩
  split
  · rintro _ ⟨⟩
    exact ⟨_, _, _, rfl, get?_actualStates hrecords.1, removed.property, rfl⟩
  · refine Prog.wpE_bind_ok ?_
    rw [Prog.wpE_monadLift, Prog.wp_perform]
    rintro runId - _ ⟨⟩
    refine Prog.wpE_bind_ok (Prog.wp_iff.mpr fun r w₁ _ errors _ => ?_)
    rintro _ ⟨⟩
    exact ⟨_, _, _, rfl, get?_actualStates hrecords.1, removed.property, rfl⟩

/-- The rule for the passes of a run, between its audit events. -/
theorem wpE_applyPasses_quiet {run : Run} {removed : List EnclaveId} {ordered : List Enclave}
    {changes : List Change} {Q : Except ReconcileError (List ReportError) → World → Prop}
    (hstart : ¬ QuietSafe A → ∀ e w', w.Quiet w' → Q (.error (.store e)) w')
    (hpasses : ∀ w', w.Quiet w' → Prog.wpE (system A) (passes run removed ordered)
      (fun r w' => ∀ w'', w'.Quiet w'' →
        Q r w'' ∧ (¬ QuietSafe A → ∀ e, Q (.error (.store e)) w'')) w') :
    Prog.wpE (system A) (applyPasses run removed ordered changes) Q w := by
  rw [applyPasses, Prog.wpE_bind, Prog.wpE_monadLift, Prog.wp_perform]
  intro now _
  simp only [Prog.onOk_ok]
  rw [Prog.wpE_bind, wpE_orFail, Prog.wp_perform]
  intro r hr
  have hquiet := ((World.Quiet.refl w).next (c := .now) rfl now).next
    (c := .appendEvent (.reconcileStarted run.runId now false)) rfl r
  rcases r with e | _
  · exact hstart (fun hsafe => by cases hsafe _ _ hr.2 rfl rfl) e _ hquiet
  · simp only [Except.mapError, Prog.onOk_ok, system_next]
    rw [Prog.wpE_bind]
    refine Prog.wpE_mono (hpasses _ hquiet) fun r w₁ h₁ => ?_
    rcases r with e | errors
    · exact (h₁ w₁ (.refl w₁)).1
    · simp only [Prog.onOk_ok]
      rw [Prog.wpE_bind, Prog.wpE_monadLift, Prog.wp_perform]
      intro now' _
      simp only [Prog.onOk_ok]
      rw [Prog.wpE_bind, wpE_orFail, Prog.wp_perform]
      intro r hr
      have hend := ((World.Quiet.refl w₁).next (c := .now) rfl now').next
        (c := .appendEvent (.reconcileCompleted run.runId now' changes.length false)) rfl r
      rcases r with e | _
      · exact (h₁ _ hend).2 (fun hsafe => by cases hsafe _ _ hr.2 rfl rfl) e
      · exact (h₁ _ hend).1

/-- The rule for the passes of a run. -/
theorem wpE_applyPasses {run : Run} {removed : List EnclaveId} {ordered : List Enclave}
    {changes : List Change} {Q : Except ReconcileError (List ReportError) → World → Prop}
    (hstart : ¬ StoreSafe A → ∀ e w', w.Quiet w' → Q (.error (.store e)) w')
    (hpasses : ∀ w', w.Quiet w' → Prog.wpE (system A) (passes run removed ordered)
      (fun r w' => ∀ w'', w'.Quiet w'' →
        Q r w'' ∧ (¬ StoreSafe A → ∀ e, Q (.error (.store e)) w'')) w') :
    Prog.wpE (system A) (applyPasses run removed ordered changes) Q w := by
  have hfails (h : ¬ QuietSafe A) : ¬ StoreSafe A := fun hsafe => h hsafe.quietSafe
  refine wpE_applyPasses_quiet (fun h => hstart (hfails h)) fun w₁ hw₁ => ?_
  exact Prog.wpE_mono (hpasses w₁ hw₁) fun r w₂ h w₃ hw₃ =>
    ⟨(h w₃ hw₃).1, fun hquiet => (h w₃ hw₃).2 (hfails hquiet)⟩

/-- What quiet calls and the passes keep, a run keeps; and what the passes ensure of their
errors holds of the report. -/
theorem wpE_reconcileLoaded_keeps {I : World → Prop} {J : World → List ReportError → Prop}
    (hdry : req.dryRun = false) (hI : ∀ w w', I w → w.Quiet w' → I w')
    (hJ : ∀ w w' errors, J w errors → w.Quiet w' → J w' errors)
    (hpasses : ∀ run resolved removed w',
      RunStart host req registry desired w run resolved removed → w.Quiet w' → I w' →
      Prog.wpE (system A) (passes run removed (orderedDesired resolved desired))
        (fun r w'' => I w'' ∧ ∀ errors, r = .ok errors → J w'' errors) w') (hw : I w) :
    Prog.wpE (system A) (reconcileLoaded host req registry desired)
      (fun r w' => I w' ∧ ∀ report, r = .ok report → J w' report.errors) w := by
  refine wpE_reconcileLoaded hdry (fun _ _ => ⟨hw, nofun⟩)
    (fun _ _ w' hw' => ⟨hI w w' hw hw', nofun⟩) ?_
  intro run resolved removed w₁ hstart hw₁
  refine wpE_applyPasses (fun _ _ w₂ hw₂ => ⟨hI w w₂ hw (hw₁.trans hw₂), nofun⟩)
    fun w₂ hw₂ => ?_
  refine Prog.wpE_mono (hpasses run resolved removed w₂ hstart (hw₁.trans hw₂)
    (hI w w₂ hw (hw₁.trans hw₂))) fun r w₃ h₃ w₄ hw₄ => ?_
  refine ⟨⟨hI w₃ w₄ h₃.1 hw₄, fun report hreport => ?_⟩, fun _ _ => ⟨hI w₃ w₄ h₃.1 hw₄, nofun⟩⟩
  rcases r with e | errors
  · cases hreport
  · obtain rfl := Except.ok.inj hreport
    exact hJ w₃ w₄ errors (h₃.2 errors rfl) hw₄

theorem succeeds_passes (hA : NeverAborts A) {run : Run} {removed : List EnclaveId}
    {ordered : List Enclave} :
    Prog.Succeeds (system A) (passes run removed ordered) :=
  (succeeds_teardownPass hA removed).bind fun _ =>
    (succeeds_provisionPass hA.storeSafe ordered _).bind fun _ =>
      succeeds_wiringPass hA.storeSafe ordered _

/-- Where no call ends a run, it reports. -/
theorem ok_of_run (hA : NeverAborts A) (hdry : req.dryRun = false)
    {resolved : ResolvedGraph} (hvalid : validate host.topo desired = .ok resolved)
    {r : Except ReconcileError ReconcileReport} {w' : World}
    (hrun : Prog.Exec (system A) (reconcileLoaded host req registry desired).run w r w') :
    ∃ report, r = .ok report := by
  refine hrun.wp (Q := fun r _ => ∃ report, r = .ok report) (wpE_reconcileLoaded hdry
    (fun e he => ?_) (fun h => absurd hA.storeSafe h) ?_)
  · rw [hvalid] at he
    cases he
  intro run resolved' removed w₁ _ _
  refine wpE_applyPasses (fun h => absurd hA.storeSafe h) fun w₂ _ => (succeeds_passes hA).wpE ?_
  exact Prog.wp_iff.mpr fun r w₃ _ errors _ w₄ _ => ⟨⟨_, rfl⟩, fun h => absurd hA.storeSafe h⟩

/-- Where no call ends a run, what its passes establish holds after every run on a list that
validates. -/
theorem holds_of_run (hA : NeverAborts A) (hdry : req.dryRun = false)
    {resolved : ResolvedGraph} (hvalid : validate host.topo desired = .ok resolved)
    {P : World → Prop} (hP : ∀ w w', P w → w.Quiet w' → P w')
    (hpasses : ∀ run removed w', RunStart host req registry desired w run resolved removed →
      Prog.wpE (system A) (passes run removed (orderedDesired resolved desired))
        (fun r w'' => ∀ errors, r = .ok errors → P w'') w')
    {r : Except ReconcileError ReconcileReport} {w' : World}
    (hrun : Prog.Exec (system A) (reconcileLoaded host req registry desired).run w r w') :
    P w' := by
  refine hrun.wp (Q := fun _ => P) (wpE_reconcileLoaded hdry (fun e he => ?_)
    (fun h => absurd hA.storeSafe h) ?_)
  · rw [hvalid] at he
    cases he
  intro run resolved' removed w₁ hstart _
  obtain rfl : resolved' = resolved := by
    have h := hstart.valid
    rw [hvalid] at h
    exact (Except.ok.inj h).symm
  refine wpE_applyPasses (fun h => absurd hA.storeSafe h) fun w₂ _ => ?_
  refine (succeeds_passes hA).wpE ?_
  exact Prog.wpE_mono (hpasses run removed w₂ hstart) fun r w₃ h₃ errors hr w₄ hw₄ =>
    ⟨hP w₃ w₄ (h₃ errors hr) hw₄, fun hunsafe => absurd hA.storeSafe hunsafe⟩

/-- What the passes log is logged by the run. -/
theorem logged_of_run (hA : NeverAborts A) (hdry : req.dryRun = false)
    {resolved : ResolvedGraph} (hvalid : validate host.topo desired = .ok resolved)
    {p : Event → Prop}
    (hpasses : ∀ run removed w', RunStart host req registry desired w run resolved removed →
      Prog.wpE (system A) (passes run removed (orderedDesired resolved desired))
        (fun r w'' => ∀ errors, r = .ok errors → w''.Logged p) w')
    {r : Except ReconcileError ReconcileReport} {w' : World}
    (hrun : Prog.Exec (system A) (reconcileLoaded host req registry desired).run w r w') :
    w'.Logged p :=
  holds_of_run hA hdry hvalid (fun _ _ h hquiet => h.quiet hquiet) hpasses hrun

/-- The calls of the passes are those of their enclaves. -/
theorem passes_callsE {P : Call → Prop} {J : List ReportError → Prop} {run : Run}
    {removed : List EnclaveId} {ordered : List Enclave}
    (hteardown : ∀ errors, ∀ id ∈ removed, J errors →
      Prog.CallsE P J (teardownRemoved run errors id))
    (hprovision : ∀ errors, ∀ enc ∈ ordered, J errors →
      Prog.CallsE P J (provisionEnclave run errors enc))
    (hwire : ∀ errors, ∀ enc ∈ ordered, J errors → Prog.CallsE P J (wireEnclave run errors enc))
    (hnil : J []) : Prog.CallsE P J (passes run removed ordered) :=
  (Prog.CallsE.foldlM J hteardown hnil).bind fun _ h =>
    (Prog.CallsE.foldlM J hprovision h).bind fun _ h' => Prog.CallsE.foldlM J hwire h'

end

end Nclav
