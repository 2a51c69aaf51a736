import Nclav.Api.Handlers
import Nclav.Effect.Steps

/-!
# A deletion as steps

`DeleteStep` says which calls a delete handler makes, by the record it finds when it starts.
-/

namespace Nclav

open Effect

/-- What the deletion of the enclave `id`, or of one of its partitions, may call, `stored` being
the record that is found; a full one tears down the enclave itself. -/
inductive DeleteStep (state : AppState) (id : EnclaveId) (stored : Option EnclaveState) (full : Bool) :
    Call → Prop
  | getEnclave : DeleteStep state id stored full (.getEnclave id)
  | partitionOrder (entries : List (PartitionId × PartitionState)) :
    DeleteStep state id stored full (.partitionOrder entries)
  /-- without an enclave handle the environment is empty -/
  | tfTeardown {s : EnclaveState} {driver : Driver} {pid : PartitionId} {ps : PartitionState}
    {authEnv : HashMap String String} (hs : stored = some s)
    (hdriver : state.registry.forCloud (state.registry.stateCloud s) = .ok driver)
    (hpart : s.partitions[pid]? = some ps)
    (henv : authEnv = (s.enclaveHandle.map (driver.authEnv s.desired)).getD ∅) :
    DeleteStep state id stored full (.tfTeardown state.tfBackend s.desired ps.desired authEnv none)
  | teardownPartition {s : EnclaveState} {driver : Driver} {pid : PartitionId}
    {ps : PartitionState} {h : Handle} (hs : stored = some s)
    (hdriver : state.registry.forCloud (state.registry.stateCloud s) = .ok driver)
    (hpart : s.partitions[pid]? = some ps) (hhandle : ps.partitionHandle = some h) :
    DeleteStep state id stored full (.teardownPartition driver s.desired ps.desired h)
  | teardownEnclave {s : EnclaveState} {driver : Driver} {h : Handle} (hs : stored = some s)
    (hdriver : state.registry.forCloud (state.registry.stateCloud s) = .ok driver)
    (hhandle : s.enclaveHandle = some h) (hfull : full = true) :
    DeleteStep state id stored full (.teardownEnclave driver s.desired h)
  | listPartitionResources {s : EnclaveState} {driver : Driver} {h : Handle} {part : Partition}
    (hs : stored = some s) : DeleteStep state id stored full
      (.listPartitionResources driver s.desired h part)
  | deleteEnclave : DeleteStep state id stored full (.deleteEnclave id)
  | deletePartition (pid : PartitionId) : DeleteStep state id stored full (.deletePartition id pid)

/-- The worlds that a deletion leads to. -/
abbrev AppState.Deletes (state : AppState) (id : EnclaveId) (full : Bool) (w : World) : World → Prop :=
  Effect.Steps World.next (fun _ => DeleteStep state id (w.store.get? id) full) w

section

variable {A : (c : Call) → Resp c → Prop} {state : AppState} {id : EnclaveId} {full : Bool}
  {existing : EnclaveState} {driver : Driver}

theorem destroyPartition_steps
    (hdriver : state.registry.forCloud (state.registry.stateCloud existing) = .ok driver)
    {entry : PartitionId × PartitionState}
    (hentry : existing.partitions[entry.1]? = some entry.2) {authEnv : HashMap String String}
    (henv : authEnv = (existing.enclaveHandle.map (driver.authEnv existing.desired)).getD ∅)
    (errors : List String) :
    Prog.CallsE (DeleteStep state id (some existing) full) (fun _ => True)
      (destroyPartition state.tfBackend id driver existing authEnv errors entry) := by
  refine (callsE_apiPerform (.tfTeardown rfl hdriver hentry henv)).bind fun destroyed _ => ?_
  rcases hhandle : entry.2.partitionHandle with _ | handle
  · exact Prog.CallsE.pure trivial
  · exact (callsE_apiPerform (.teardownPartition rfl hdriver hentry hhandle)).bind
      fun _ _ => Prog.CallsE.pure trivial

theorem destroyEnclave_steps
    (hdriver : state.registry.forCloud (state.registry.stateCloud existing) = .ok driver)
    (resourcesOnly : Bool) :
    Prog.CallsE (DeleteStep state id (some existing) !resourcesOnly) (fun _ => True)
      (destroyEnclave state.tfBackend id driver existing resourcesOnly) := by
  rw [destroyEnclave]
  split
  · exact Prog.CallsE.pure trivial
  rename_i encHandle hhandle
  refine (callsE_apiPerform (.partitionOrder _)).bind fun entries _ => ?_
  refine Prog.CallsE.bind (Prog.CallsE.foldlM (fun _ => True) (fun errors entry hentry _ => ?_)
    trivial) fun errors _ => ?_
  · have hpart : existing.partitions[entry.1]? = some entry.2 :=
      Std.ExtTreeMap.mem_toList_iff_getElem?_eq_some.mp (entries.property.mem_iff.mp hentry)
    exact destroyPartition_steps hdriver hpart (by rw [hhandle]; rfl) errors
  · split
    · exact Prog.CallsE.pure trivial
    · rename_i hfull
      exact (callsE_apiPerform (.teardownEnclave rfl hdriver hhandle (by simpa using hfull))).bind
        fun _ _ => Prog.CallsE.pure trivial

/-- A handler reads the record it deletes from, and then makes its calls. -/
theorem steps_of_getEnclave {α : Type} {w : World}
    {f : Option EnclaveState → Api α}
    (hf : Prog.CallsE (DeleteStep state id (w.store.get? id) full) (fun _ => True)
      (f (w.store.get? id))) :
    Prog.wpE (system A) (apiStoreCall (perform (.getEnclave id)) >>= f)
      (fun _ w' => state.Deletes id full w w') w := by
  rw [Prog.wpE_bind]
  rintro (e | stored) ⟨hstored, -⟩
  · exact .next _ _ .refl .getEnclave
  · obtain rfl : stored = w.store.get? id := hstored
    have hstart : state.Deletes id full w (w.next (.getEnclave id) (.ok (w.store.get? id))) :=
      .next _ _ .refl .getEnclave
    have hsteps := hf.ensures (M := system A) (I := state.Deletes id full w)
      (fun _ _ r hc _ hw => .next _ r hw hc) hstart
    show Prog.wpE (system A) (f (w.store.get? id)) (fun _ w' => state.Deletes id full w w')
      (w.next (.getEnclave id) (.ok (w.store.get? id)))
    exact Prog.wpE_mono hsteps fun _ _ h => h.1

/-- **A deletion of an enclave follows its steps.** -/
theorem steps_of_deleteEnclave {resourcesOnly : Bool} {w w' : World}
    {r : Except ApiError DestroyReport}
    (hrun : Prog.Exec (system A) (deleteEnclave state id resourcesOnly).run w r w') :
    state.Deletes id (!resourcesOnly) w w' := by
  refine hrun.wp (steps_of_getEnclave ?_)
  refine (callsE_okOr _ _).bind fun existing hexisting => ?_
  rw [hexisting]
  refine callsE_driverOf.bind fun driver hdriver => ?_
  refine (destroyEnclave_steps hdriver resourcesOnly).bind fun errors _ => ?_
  exact (callsE_apiStoreCall (Prog.Calls.perform .deleteEnclave)).bind
    fun _ _ => Prog.CallsE.pure trivial

/-- **A deletion of a partition follows its steps.** -/
theorem steps_of_deletePartition {pid : PartitionId} {w w' : World}
    {r : Except ApiError DestroyReport}
    (hrun : Prog.Exec (system A) (deletePartition state id pid).run w r w') :
    state.Deletes id false w w' := by
  refine hrun.wp (steps_of_getEnclave ?_)
  refine (callsE_okOr _ _).bind fun existing hexisting => ?_
  rw [hexisting]
  refine (callsE_okOr _ _).bind fun part hpart => ?_
  refine callsE_driverOf.bind fun driver hdriver => ?_
  refine Prog.CallsE.bind (Q := fun _ => True) ?_ fun errors _ => ?_
  · refine (callsE_apiPerform (.tfTeardown rfl hdriver hpart rfl)).bind fun destroyed _ => ?_
    rcases hhandle : part.partitionHandle with _ | handle
    · exact Prog.CallsE.pure trivial
    · exact (callsE_apiPerform (.teardownPartition rfl hdriver hpart hhandle)).bind
        fun _ _ => Prog.CallsE.pure trivial
  refine (callsE_apiStoreCall (Prog.Calls.perform (.deletePartition _))).bind fun _ _ => ?_
  refine Prog.CallsE.bind (Q := fun _ => True) ?_ fun _ _ => Prog.CallsE.pure trivial
  rw [remainingResources]
  split
  · exact Prog.CallsE.pure trivial
  · exact (callsE_apiPerform (.listPartitionResources rfl)).bind
      fun _ _ => Prog.CallsE.pure trivial

end

end Nclav
