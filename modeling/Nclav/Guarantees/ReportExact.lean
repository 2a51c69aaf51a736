import Nclav.Guarantees.SideBySide

/-!
# What a report says

The errors of a report are the failed calls of its run, in their order, and the declared enclaves
without a driver. No other failure is reported: neither that of a `teardown_partition`, nor a removed
enclave without a driver. The invariant of the three passes is `World.Reports`, a ledger of what was
called since the run began; each part of a pass keeps it.
-/

namespace Nclav

open Effect

/-- The entry of the report for a call that failed. -/
def Event.reported : Event → Option ReportError
  | ⟨.tfTeardown _ enc part _ _, .error e⟩ => some (.teardown enc.id part.id e)
  | ⟨.provisionEnclave _ enc _, .error e⟩ => some (.enclave enc.id (toString e))
  | ⟨.provisionPartition _ enc part _ _, .error e⟩ =>
    some (.partition enc.id part.id (toString e))
  | ⟨.tfProvision _ enc part _ _ _, .error e⟩ => some (.partition enc.id part.id (toString e))
  | ⟨.provisionExport _ enc ex _ _, .error e⟩ => some (.export_ enc.id ex.name (toString e))
  | ⟨.provisionImport _ enc im _ _, .error e⟩ => some (.import_ enc.id im.alias_ (toString e))
  | _ => none

/-- The entries for a log, the oldest first. -/
def failures (log : List Event) : List ReportError := log.reverse.filterMap Event.reported

/-- The entry for an enclave without a driver. -/
def DriverRegistry.missing (registry : DriverRegistry) (enc : Enclave) : Option ReportError :=
  match registry.forEnclave enc with
  | .error e => some (.enclave enc.id (toString e))
  | .ok _ => none

/-- What a run begun in `w₀` has reported in `w`: `missing`, and the calls that failed since. -/
def World.Reports (w₀ : World) (missing errors : List ReportError) (w : World) : Prop :=
  ∃ newer, w.log = newer ++ w₀.log ∧ (failures newer).Sublist errors ∧
    errors.Perm (missing ++ failures newer)

theorem DriverRegistry.missing_of_driver {registry : DriverRegistry} {enc : Enclave}
    {driver : Driver} (h : registry.forEnclave enc = .ok driver) : registry.missing enc = none := by
  rw [DriverRegistry.missing, h]

theorem Event.reported_of_quiet {ev : Event} (h : ev.1.isQuiet = true) : ev.reported = none := by
  obtain ⟨c, r⟩ := ev
  cases c with
  | getEnclave | listEnclaves | appendEvent | now | newUuid | enclaveOrder | partitionOrder => rfl
  | _ => cases h

theorem failures_cons (ev : Event) (log : List Event) :
    failures (ev :: log) = failures log ++ ev.reported.toList := by
  rw [failures, List.reverse_cons, List.filterMap_append]
  cases h : ev.reported with
  | none => simp [failures, h]
  | some e => simp [failures, h]

namespace World.Reports

variable {w₀ w w' : World} {missing errors : List ReportError}

theorem refl (w : World) : w.Reports [] [] w := ⟨[], rfl, List.Sublist.refl _, List.Perm.refl _⟩

theorem next (h : w₀.Reports missing errors w) (c : Call) (r : Resp c) :
    w₀.Reports missing (errors ++ (Event.reported ⟨c, r⟩).toList) (w.next c r) := by
  obtain ⟨newer, hlog, hsublist, hperm⟩ := h
  refine ⟨⟨c, r⟩ :: newer, ?_, ?_, ?_⟩
  · rw [World.next_log, hlog, List.cons_append]
  · rw [failures_cons]
    exact hsublist.append (List.Sublist.refl _)
  · rw [failures_cons, ← List.append_assoc]
    exact hperm.append_right _

theorem silent (h : w₀.Reports missing errors w) {c : Call} {r : Resp c}
    (hsilent : Event.reported ⟨c, r⟩ = none) : w₀.Reports missing errors (w.next c r) := by
  have hnext := h.next c r
  rw [hsilent, Option.toList_none, List.append_nil] at hnext
  exact hnext

theorem failed (h : w₀.Reports missing errors w) {c : Call} {r : Resp c} {e : ReportError}
    (hfailed : Event.reported ⟨c, r⟩ = some e) :
    w₀.Reports missing (errors ++ [e]) (w.next c r) := by
  have hnext := h.next c r
  rw [hfailed, Option.toList_some] at hnext
  exact hnext

theorem quiet (h : w₀.Reports missing errors w) (hquiet : w.Quiet w') :
    w₀.Reports missing errors w' :=
  hquiet.keeps (fun _ _ _ hq hw => hw.silent (Event.reported_of_quiet hq)) h

/-- An enclave without a driver is reported without a call. -/
theorem unserved (h : w₀.Reports missing errors w) (e : ReportError) :
    w₀.Reports (missing ++ [e]) (errors ++ [e]) w := by
  obtain ⟨newer, hlog, hsublist, hperm⟩ := h
  refine ⟨newer, hlog, hsublist.trans (List.sublist_append_left _ _), ?_⟩
  have hswap : ((missing ++ failures newer) ++ [e]).Perm (missing ++ ([e] ++ failures newer)) := by
    rw [List.append_assoc]
    exact List.perm_append_comm.append_left _
  rw [List.append_assoc]
  exact (hperm.append_right _).trans hswap

end World.Reports

/-! ## The teardown pass -/

section

variable {A : (c : Call) → Resp c → Prop} {run : Run} {w₀ w : World}
  {missing errors : List ReportError}

theorem reports_teardownRemovedPartition {existing : EnclaveState} {driver : Driver}
    {authEnv : HashMap String String} {entry : PartitionId × PartitionState}
    (hentry : entry.2.desired.id = entry.1) (h : w₀.Reports missing errors w) :
    Prog.wpE (system A)
      (teardownRemovedPartition run existing.desired.id driver existing authEnv errors entry)
      (fun r w' => ∀ a, r = .ok a → w₀.Reports missing a w') w := by
  rw [teardownRemovedPartition]
  refine Prog.wpE_bind_ok ?_
  rw [Prog.wpE_monadLift, TerraformBackend.teardown, Prog.wp_perform]
  rintro destroyed - _ ⟨⟩
  -- the identity is cleaned up in any case, and a failure of that is not reported
  rcases destroyed with e | ⟨⟩
  · have hfailed : w₀.Reports missing (errors ++ [.teardown existing.desired.id entry.1 e])
        (w.next (.tfTeardown run.req.tfBackend existing.desired entry.2.desired authEnv
          (some run.runId)) (.error e)) := by
      rw [← hentry]
      exact h.failed rfl
    rcases entry.2.partitionHandle with _ | handle
    · rintro _ ⟨⟩
      exact hfailed
    · rintro cleaned - _ ⟨⟩
      exact hfailed.silent rfl
  · rcases entry.2.partitionHandle with _ | handle
    · rintro _ ⟨⟩
      exact h.silent rfl
    · rintro cleaned - _ ⟨⟩
      exact (h.silent rfl).silent rfl

theorem reports_teardownRemovedEnclave {existing : EnclaveState} (hkeyed : existing.Keyed)
    (h : w₀.Reports missing errors w) :
    Prog.wpE (system A) (teardownRemovedEnclave run existing.desired.id existing errors)
      (fun r w' => ∀ a, r = .ok a → w₀.Reports missing a w') w := by
  rw [teardownRemovedEnclave]
  split
  · rename_i driver handle _ _
    rw [teardownRemovedResources]
    refine Prog.wpE_bind_ok ?_
    rw [Prog.wpE_monadLift, Prog.wp_perform]
    rintro entries - _ ⟨⟩
    refine Prog.wpE_bind_ok (Prog.wp_foldlM_ok (fun _ errors' w' => w₀.Reports missing errors' w')
      (fun pre entry post errors' w' hsplit h' => ?_) (fun errors' w' h' => ?_) (h.silent rfl))
    · have hmem : entry ∈ existing.partitions.toList :=
        entries.property.mem_iff.mp (by simp [hsplit])
      exact reports_teardownRemovedPartition
        (hkeyed entry.1 entry.2 (Std.ExtTreeMap.mem_toList_iff_getElem?_eq_some.mp hmem)) h'
    · split
      · rintro _ ⟨⟩
        exact h'
      · refine Prog.wpE_bind_ok ?_
        rw [wpE_orFail, Prog.wp_perform]
        rintro _ - _ _ _ ⟨⟩
        exact h'.silent rfl
  · rintro _ ⟨⟩
    exact h

theorem reports_teardownPass {removed : List EnclaveId}
    (hid : ∀ id s, run.existing id = some s → s.desired.id = id)
    (hkeyed : ∀ id s, run.existing id = some s → s.Keyed) (h : w₀.Reports missing [] w) :
    Prog.wpE (system A) (teardownPass run removed)
      (fun r w' => ∀ a, r = .ok a → w₀.Reports missing a w') w := by
  refine Prog.wp_foldlM_ok (fun _ errors w' => w₀.Reports missing errors w')
    (fun pre id post errors w' _ h' => ?_) (fun _ _ h' => h') h
  rw [teardownRemoved]
  split
  · rintro _ ⟨⟩
    exact h'
  rename_i existing hexisting
  obtain rfl := hid id existing hexisting
  refine Prog.wpE_bind_ok (Prog.wpE_mono
    (reports_teardownRemovedEnclave (hkeyed _ existing hexisting) h') fun _ w₁ h₁ errors₁ hr₁ => ?_)
  refine Prog.wpE_bind_ok ?_
  rw [wpE_orFail, Prog.wp_perform]
  rintro _ - _ _ _ ⟨⟩
  exact (h₁ errors₁ hr₁).silent rfl

end

/-! ## The provision pass -/

section

variable {A : (c : Call) → Resp c → Prop} {run : Run} {driver : Driver} {enc : Enclave}
  {w₀ w : World} {missing errors : List ReportError}

theorem reports_applyPartition {part : Partition} {inputs : HashMap String String}
    {existing : Option Handle} {s : EnclaveState} (h : w₀.Reports missing errors w) :
    Prog.wp (system A) (applyPartition run driver enc part inputs existing s)
      (fun applied w' => (∀ result, applied.2 = .ok result → w₀.Reports missing errors w') ∧
        ∀ msg, applied.2 = .error msg →
          w₀.Reports missing (errors ++ [.partition enc.id part.id msg]) w') w := by
  rintro (e | sa) -
  · exact ⟨fun _ => nofun, fun msg hmsg => by
      obtain rfl := Except.error.inj hmsg
      exact h.failed rfl⟩
  intro stored _ outputs _
  have hsa := (h.silent (c := .provisionPartition driver enc part inputs existing)
    (r := .ok sa) rfl).silent (c := .upsertEnclave _) (r := stored) rfl
  rcases outputs with e | outputs
  · exact ⟨fun _ => nofun, fun msg hmsg => by
      obtain rfl := Except.error.inj hmsg
      exact hsa.failed rfl⟩
  · exact ⟨fun _ _ => hsa.silent rfl, fun _ => nofun⟩

theorem reports_provisionPartition {acc : EnclaveState × List ReportError} {part : Partition}
    (h : w₀.Reports missing acc.2 w) :
    Prog.wpE (system A) (provisionPartition run driver enc acc part)
      (fun r w' => ∀ a, r = .ok a → w₀.Reports missing a.2 w') w := by
  simp only [provisionPartition]
  split
  · rintro _ ⟨⟩
    exact h
  refine Prog.wpE_bind_ok (wpE_upsertEnclave_ok (Prog.wpE_bind_ok ?_))
  rw [Prog.wpE_monadLift]
  refine Prog.wp_mono (reports_applyPartition (h.silent rfl)) ?_
  rintro ⟨s, outcome⟩ w₁ ⟨hok, herror⟩ _ ⟨⟩
  rw [recordPartition]
  refine Prog.wpE_bind_ok ?_
  rw [Prog.wpE_monadLift, Prog.wp_perform]
  rintro now - _ ⟨⟩
  rcases outcome with msg | result
  · refine Prog.wpE_bind_ok (wpE_appendEvent_ok fun w₂ hw₂ => ?_)
    rintro _ ⟨⟩
    exact ((herror msg rfl).silent rfl).quiet hw₂
  · refine Prog.wpE_bind_ok (wpE_appendEvent_ok fun w₂ hw₂ => ?_)
    rintro _ ⟨⟩
    exact ((hok result rfl).silent rfl).quiet hw₂

theorem reports_provisionContents {s : EnclaveState} (h : w₀.Reports missing errors w) :
    Prog.wpE (system A) (provisionContents run driver enc s errors)
      (fun r w' => ∀ a, r = .ok a → w₀.Reports missing a w') w := by
  let I (_ : List Partition) (acc : EnclaveState × List ReportError) (w' : World) : Prop :=
    w₀.Reports missing acc.2 w'
  refine wpE_provisionContents_ok (Prog.wp_foldlM_ok I (fun _ part _ acc w₁ _ h₁ =>
    reports_provisionPartition h₁) (fun acc w₁ h₁ => ?_) h)
  refine Prog.wp_foldlM_ok (fun _ acc w' => w₀.Reports missing acc.2 w')
    (fun _ ex _ acc w₂ _ h₂ => ?_) (fun acc w₂ h₂ w₃ hw₃ => (h₂.quiet hw₃).silent rfl) h₁
  exact wpE_provisionExport_ok (fun _ _ _ _ hw₃ => (h₂.silent rfl).quiet hw₃)
    fun _ _ _ => h₂.failed rfl

/-- The visit of an enclave reports that it has no driver, or what failed. -/
theorem reports_provisionEnclave (h : w₀.Reports missing errors w) :
    Prog.wpE (system A) (provisionEnclave run errors enc)
      (fun r w' => ∀ a, r = .ok a →
        w₀.Reports (missing ++ (run.registry.missing enc).toList) a w') w := by
  rcases hdriver : run.registry.forEnclave enc with e | driver
  · rw [provisionEnclave, hdriver, DriverRegistry.missing, hdriver]
    rintro _ ⟨⟩
    exact h.unserved _
  · rw [DriverRegistry.missing_of_driver hdriver, Option.toList_none, List.append_nil]
    refine wpE_provisionEnclave_ok hdriver (fun existing result now w₁ _ hw₁ => ?_)
      fun existing e now w₁ w₂ _ hw₁ hw₂ => ?_
    · exact reports_provisionContents (((h.silent rfl).silent rfl).quiet hw₁)
    · exact ((((h.silent rfl).failed rfl).quiet hw₁).silent rfl).quiet hw₂

theorem reports_provisionPass {ordered : List Enclave} (h : w₀.Reports [] errors w) :
    Prog.wpE (system A) (provisionPass run ordered errors)
      (fun r w' => ∀ a, r = .ok a →
        w₀.Reports (ordered.filterMap run.registry.missing) a w') w := by
  refine Prog.wp_foldlM_ok
    (fun pre errors' w' => w₀.Reports (pre.filterMap run.registry.missing) errors' w')
    (fun pre enc post errors' w' _ h' => ?_) (fun _ _ h' => h') h
  have hlast : [enc].filterMap run.registry.missing = (run.registry.missing enc).toList := by
    cases h : run.registry.missing enc with
    | none => simp [h]
    | some e => simp [h]
  rw [List.filterMap_append, hlast]
  exact reports_provisionEnclave h'

end

/-! ## The wiring pass -/

section

variable {A : (c : Call) → Resp c → Prop} {run : Run} {driver : Driver} {enc : Enclave}
  {w₀ w : World} {missing errors : List ReportError}

theorem reports_wireEnclave (h : w₀.Reports missing errors w) :
    Prog.wpE (system A) (wireEnclave run errors enc)
      (fun r w' => ∀ a, r = .ok a → w₀.Reports missing a w') w := by
  rw [wireEnclave]
  split
  · rintro _ ⟨⟩
    exact h
  refine Prog.wpE_bind_ok (wpE_getEnclave_ok fun w₁ hw₁ => ?_)
  split
  · rintro _ ⟨⟩
    exact h.quiet hw₁
  refine Prog.wpE_bind_ok (Prog.wp_foldlM_ok
    (fun _ (acc : WiringState) w' => w₀.Reports missing acc.errors w')
    (fun _ im _ acc w₂ _ h₂ => ?_) (fun acc w₂ h₂ => ?_) (h.quiet hw₁))
  · exact wpE_wireImport_ok (fun _ => h₂) (fun _ hw₃ _ => h₂.quiet hw₃)
      (fun _ _ _ _ _ hw₃ _ _ hw₄ => ((h₂.quiet hw₃).silent rfl).quiet hw₄)
      fun _ _ _ hw₃ _ => (h₂.quiet hw₃).failed rfl
  · split
    · refine Prog.wpE_bind_ok (wpE_upsertEnclave_ok ?_)
      rintro _ ⟨⟩
      exact h₂.silent rfl
    · rintro _ ⟨⟩
      exact h₂

/-- The three passes report what failed in them and which enclaves have no driver. -/
theorem reports_passes {removed : List EnclaveId} {ordered : List Enclave}
    (hid : ∀ id s, run.existing id = some s → s.desired.id = id)
    (hkeyed : ∀ id s, run.existing id = some s → s.Keyed) (h : w₀.Reports [] [] w) :
    Prog.wpE (system A) (passes run removed ordered)
      (fun r w' => ∀ a, r = .ok a →
        w₀.Reports (ordered.filterMap run.registry.missing) a w') w := by
  rw [passes]
  refine Prog.wpE_bind_ok (Prog.wpE_mono (reports_teardownPass hid hkeyed h)
    fun _ w₁ h₁ errors₁ hr₁ => ?_)
  refine Prog.wpE_bind_ok (Prog.wpE_mono (reports_provisionPass (h₁ errors₁ hr₁))
    fun _ w₂ h₂ errors₂ hr₂ => ?_)
  exact Prog.wp_foldlM_ok
    (fun _ errors w' => w₀.Reports (ordered.filterMap run.registry.missing) errors w')
    (fun _ _ _ _ _ _ h₃ => reports_wireEnclave h₃) (fun _ _ h₃ => h₃) (h₂ errors₂ hr₂)

end

/-! ## The report -/

section

variable {A : (c : Call) → Resp c → Prop} {host : Host} {req : ReconcileRequest}
  {registry : DriverRegistry} {desired : List Enclave} {w w' : World}

theorem reports_of_run (hlawful : host.topo.Lawful) (hdry : req.dryRun = false)
    (hnodup : (desired.map (·.id)).Nodup) (hw : w.Records EnclaveState.Keyed)
    {report : ReconcileReport}
    (hrun : Prog.Exec (system A) (reconcileLoaded host req registry desired).run w
      (.ok report) w') :
    w.Reports (desired.filterMap registry.missing) report.errors w' := by
  let J (w' : World) (errors : List ReportError) : Prop :=
    w.Reports (desired.filterMap registry.missing) errors w'
  refine (hrun.wp (wpE_reconcileLoaded_keeps (I := fun _ => True) (J := J) hdry
    (fun _ _ _ _ => trivial) (fun _ _ _ h hquiet => h.quiet hquiet) ?_ trivial)).2 report rfl
  intro run resolved removed w₁ hstart hquiet _
  have hkeyed : ∀ id s, run.existing id = some s → s.Keyed := by
    intro id s hs
    rw [hstart.existing] at hs
    exact hw id s hs
  have hperm := (orderedDesired_perm hlawful hstart.valid hnodup).filterMap run.registry.missing
  obtain rfl := hstart.registry_eq
  refine Prog.wpE_mono (reports_passes (fun _ _ => hstart.keyed) hkeyed
    ((World.Reports.refl w).quiet hquiet)) fun r w₂ h => ⟨trivial, fun errors hr => ?_⟩
  obtain ⟨newer, hlog, hsublist, herrors⟩ := h errors hr
  exact ⟨newer, hlog, hsublist, herrors.trans (hperm.append_right _)⟩

end

/-- **The report is exact.** After any requests, side by side, a run that ends with a report has
reported the calls that failed in it, in their order, and the declared enclaves without a driver, and
nothing else. -/
theorem report_exact {host : Host} {ι : Type} [DecidableEq ι] {requests : ι → Request}
    {s : Pool ι Call Resp World Unit} (hreach : SideBySide (serverPool host requests) s)
    {fs : FileSystem} {root : Dir} {req : ReconcileRequest} {registry : DriverRegistry}
    {desired : List Enclave} {report : ReconcileReport} {w' : World}
    (hlawful : host.topo.Lawful) (hload : loadEnclaves fs req.enclavesDir root = .ok desired)
    (hdry : req.dryRun = false) (hnodup : (desired.map (·.id)).Nodup)
    (hrun : Prog.Exec (system anyAnswer) (reconcile host fs root req registry).run s.world
      (.ok report) w') :
    ∃ newer, w'.log = newer ++ s.world.log ∧ (failures newer).Sublist report.errors ∧
      report.errors.Perm (desired.filterMap registry.missing ++ failures newer) := by
  rw [reconcile_of_loaded hload] at hrun
  exact reports_of_run hlawful hdry hnodup (keyed_of_sideBySide hreach) hrun

/-! ### A refused change -/

/-- After the two runs in turns, Terraform refuses the partition under another name. -/
def renamedRun : Except ReconcileError ReconcileReport × World := namedRun "q" inTurns.world

/-- It is the one call that failed, and the one error of the report. -/
theorem refused_exact : ∃ report newer, renamedRun.1 = .ok report ∧
    renamedRun.2.log = newer ++ inTurns.world.log ∧ failures newer = report.errors ∧
    report.errors = [.partition ⟨"a"⟩ ⟨"p"⟩ (toString (DriverError.provisionFailed "refused"))] := by
  obtain ⟨report, hreport, herrors⟩ : ∃ report, renamedRun.1 = .ok report ∧ report.errors =
      [.partition ⟨"a"⟩ ⟨"p"⟩ (toString (DriverError.provisionFailed "refused"))] := ⟨_, rfl, rfl⟩
  have hrun := exec_namedRun "q" inTurns.world
  rw [show (namedRun "q" inTurns.world).1 = .ok report from hreport] at hrun
  obtain ⟨newer, hlog, -, hperm⟩ := report_exact sideBySide_inTurns Topo.kahn_lawful load_second rfl
    (by decide) hrun
  have hserved : [namedEnclave "q"].filterMap gcpOnly.missing = [] := rfl
  rw [hserved, List.nil_append, herrors] at hperm
  refine ⟨report, newer, hreport, hlog, ?_, herrors⟩
  rw [herrors]
  exact (List.singleton_perm.mp hperm).symm

end Nclav
