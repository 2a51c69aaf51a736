import Nclav.Guarantees.ReportExact
import Nclav.Guarantees.ServedGraph
import Nclav.Guarantees.Fixpoint

/-!
# Recovery

Requests may have overlapped, failed and been cut off. One run in which no call fails brings the store
to what is declared, whatever was left there, and the run after it has nothing to do. That the first
run reports no error comes from what its report says (`reports_of_run`).
-/

namespace Nclav

open Effect

/-- The answers that a run was given. -/
theorem log_new_answers {A : (c : Call) → Resp c → Prop} {α : Type} {p : Sys α} {w w' : World}
    {a : α} (h : Prog.Exec (system A) p w a w') :
    ∃ newer, w'.log = newer ++ w.log ∧ ∀ ev ∈ newer, A ev.1 ev.2 := by
  induction h with
  | ret => exact ⟨[], rfl, fun _ h => absurd h List.not_mem_nil⟩
  | call r hr _ ih =>
    obtain ⟨newer, hlog, hnewer⟩ := ih
    refine ⟨newer ++ [⟨_, r⟩], ?_, fun ev hev => ?_⟩
    · rw [hlog, system_next, World.next_log, List.append_assoc]
      rfl
    · rcases List.mem_append.mp hev with hev | hev
      · exact hnewer ev hev
      · rw [List.mem_singleton.mp hev]
        exact hr.2

/-- Only failed calls are reported. -/
theorem Event.reported_of_ok {ev : Event} (h : failed ev.1 ev.2 = false) : ev.reported = none := by
  rw [Event.reported.eq_def]
  split
  all_goals first | rfl | cases h

theorem failures_of_ok {log : List Event} (h : ∀ ev ∈ log, failed ev.1 ev.2 = false) :
    failures log = [] :=
  List.filterMap_eq_nil_iff.mpr fun ev hev =>
    Event.reported_of_ok (h ev (List.mem_reverse.mp hev))

section

variable {host : Host} {req : ReconcileRequest} {registry : DriverRegistry}
  {desired : List Enclave} {w w' : World}

/-- A run in which no call fails has no error to report. -/
theorem errors_of_allOk (hlawful : host.topo.Lawful) (hdry : req.dryRun = false)
    (hnodup : (desired.map (·.id)).Nodup) (hw : w.Records EnclaveState.Keyed)
    (hdrivers : ∀ enc ∈ desired, ∃ driver, registry.forEnclave enc = .ok driver)
    {report : ReconcileReport}
    (hrun : Prog.Exec (system allOk) (reconcileLoaded host req registry desired).run w
      (.ok report) w') : report.errors = [] := by
  obtain ⟨newer, hlog, -, hperm⟩ := reports_of_run hlawful hdry hnodup hw hrun
  obtain ⟨newer', hlog', hok⟩ := log_new_answers hrun
  obtain rfl : newer = newer' := List.append_cancel_right (hlog.symm.trans hlog')
  have hserved : desired.filterMap registry.missing = [] := by
    refine List.filterMap_eq_nil_iff.mpr fun enc henc => ?_
    obtain ⟨driver, hdriver⟩ := hdrivers enc henc
    exact DriverRegistry.missing_of_driver hdriver
  rw [hserved, failures_of_ok hok] at hperm
  exact hperm.eq_nil

end

/-- **One run without failures recovers.** Whatever requests have left behind, each of them at any
point of its run, a run in which no call fails reports no error, leaves a record of each declared
enclave and no other, all of them active, and the next run has no change to report. -/
theorem recovery {host : Host} {ι : Type} [DecidableEq ι] {requests : ι → Request}
    {s : Pool ι Call Resp World Unit} (hreach : SideBySide (serverPool host requests) s)
    {fs : FileSystem} {root : Dir} {req req' : ReconcileRequest}
    {registry registry' : DriverRegistry} {desired : List Enclave} {resolved : ResolvedGraph}
    (hlawful : host.topo.Lawful) (hload : loadEnclaves fs req.enclavesDir root = .ok desired)
    (hvalid : validate host.topo desired = .ok resolved) (hnodup : (desired.map (·.id)).Nodup)
    (hparts : ∀ enc ∈ desired, (enc.partitions.map (·.id)).Nodup)
    (hdrivers : ∀ enc ∈ desired, ∃ driver, registry.forEnclave enc = .ok driver)
    (hdry : req.dryRun = false) {r : Except ReconcileError ReconcileReport} {w₁ w₂ : World}
    (hrun : Prog.Exec (system allOk) (reconcile host fs root req registry).run s.world r w₁)
    (hdir : req'.enclavesDir = req.enclavesDir)
    {report' : ReconcileReport}
    (hrun' : Prog.Exec (system anyAnswer) (reconcile host fs root req' registry').run w₁
      (.ok report') w₂) :
    (∃ report, r = .ok report ∧ report.errors = []) ∧
      (w₁.store.enclaves.toList.map fun e => e.2.desired).Perm desired ∧
      (∀ id state, w₁.store.get? id = some state → state.meta_.status = .active) ∧
      w₁.store.Applied host desired ∧ report'.changes = [] := by
  rw [reconcile_of_loaded hload] at hrun
  have hload' : loadEnclaves fs req'.enclavesDir root = .ok desired := by
    rw [hdir]
    exact hload
  rw [reconcile_of_loaded hload'] at hrun'
  obtain ⟨report, rfl⟩ := ok_of_run neverAborts_allOk hdry hvalid hrun
  have herrors := errors_of_allOk hlawful hdry hnodup (keyed_of_sideBySide hreach) hdrivers hrun
  obtain ⟨run, resolved', removed, -, hsettled⟩ :=
    settled_of_run hlawful hdry hnodup hrun herrors
  obtain ⟨hrecords, hactive⟩ := hsettled.records hnodup
  have happlied := applied_of_run hlawful hdry hnodup hparts hrun herrors
  exact ⟨⟨report, rfl, herrors⟩, hrecords, hactive, happlied,
    changes_of_applied happlied hrun'⟩

/-! ### After an interruption -/

/-- Two runs with different names for the partition, in turns, both cut off. -/
def interrupted : Pool Bool Call Resp World Unit :=
  Pool.schedule World.next okAnswer (List.replicate 8 [false, true]).flatten
    (serverPool namingHost fun renamed => applyNamed (if renamed then "q" else "p"))

theorem sideBySide_interrupted :
    SideBySide (serverPool namingHost fun renamed => applyNamed (if renamed then "q" else "p"))
      interrupted :=
  Pool.runs_schedule (M := system anyAnswer) (fun w c => ⟨answers_okAnswer w c, trivial⟩) _

/-- A run in which no call fails. -/
def smoothRun (w : World) : Except ReconcileError ReconcileReport × World :=
  Prog.run World.next okAnswer
    (reconcile namingHost (named "q") regionlessRoot enclavesRequest gcpOnly).run w

theorem exec_smoothRun (w : World) :
    Prog.Exec (system allOk)
      (reconcile namingHost (named "q") regionlessRoot enclavesRequest gcpOnly).run w
      (smoothRun w).1 (smoothRun w).2 :=
  Prog.exec_run (M := system allOk) (fun w c => ⟨answers_okAnswer w c, allOk_okAnswer w c⟩) _ _

/-- What was in flight when they were cut off is active after one such run, and the next one has
nothing to change. -/
theorem interrupted_recovery : ∃ state report,
    interrupted.world.store.get? ⟨"a"⟩ = some state ∧ state.meta_.status = .provisioning ∧
      (∀ id state, (smoothRun interrupted.world).2.store.get? id = some state →
        state.meta_.status = .active) ∧
      (namedRun "q" (smoothRun interrupted.world).2).1 = .ok report ∧ report.changes = [] := by
  obtain ⟨state, hstate, hstatus⟩ : ∃ state, interrupted.world.store.get? ⟨"a"⟩ = some state ∧
      state.meta_.status = .provisioning := ⟨_, rfl, rfl⟩
  obtain ⟨report, hreport⟩ : ∃ report,
      (namedRun "q" (smoothRun interrupted.world).2).1 = .ok report := ⟨_, rfl⟩
  have hrun' := exec_namedRun "q" (smoothRun interrupted.world).2
  rw [hreport] at hrun'
  have hserved : ∀ enc ∈ [namedEnclave "q"], ∃ driver, gcpOnly.forEnclave enc = .ok driver := by
    intro enc henc
    obtain rfl := List.mem_singleton.mp henc
    exact ⟨_, rfl⟩
  obtain ⟨-, -, hactive, -, hchanges⟩ := recovery sideBySide_interrupted Topo.kahn_lawful
    load_second rfl (by decide) (nodup_partitions_named "q") hserved rfl
    (exec_smoothRun interrupted.world) rfl hrun'
  exact ⟨state, report, hstate, hstatus, hactive, hreport, hchanges⟩

end Nclav
