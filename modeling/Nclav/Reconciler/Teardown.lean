import Nclav.Reconciler.Diff

/-!
# Tearing down removed enclaves

The first pass of a run that is not dry: every stored enclave that is no longer desired is
torn down and its record deleted. A failed destroy of a partition is reported and passed
over, a failed `teardown_enclave` ends the run, and where the record has no handle or its
cloud no driver the record is deleted and nothing is called.
-/

namespace Nclav

open Effect

/-- Destroy one partition of a removed enclave, then clean up its identity. -/
def teardownRemovedPartition (run : Run) (id : EnclaveId) (driver : Driver)
    (existing : EnclaveState) (authEnv : HashMap String String) (errors : List ReportError)
    (entry : PartitionId × PartitionState) : Rec (List ReportError) := do
  let destroyed ← run.req.tfBackend.teardown existing.desired entry.2.desired authEnv
    (some run.runId)
  let errors := match destroyed with
    | .ok () => errors
    | .error e => errors ++ [.teardown id entry.1 e]
  match entry.2.partitionHandle with
  | none => return errors
  | some handle => do
    -- a failure is logged only
    let _ ← perform (.teardownPartition driver existing.desired entry.2.desired handle)
    return errors

/-- The resources of a removed enclave whose driver and handle are known: the partitions,
then the enclave itself. -/
def teardownRemovedResources (run : Run) (id : EnclaveId) (driver : Driver)
    (existing : EnclaveState) (handle : Handle) (errors : List ReportError) :
    Rec (List ReportError) := do
  let authEnv := driver.authEnv existing.desired handle
  let entries ← perform (.partitionOrder existing.partitions.toList)
  let errors ← entries.val.foldlM (teardownRemovedPartition run id driver existing authEnv) errors
  if run.req.resourcesOnly then return errors
  else do
    orFail .driver (perform (.teardownEnclave driver existing.desired handle))
    return errors

/-- The resources of a removed enclave. -/
def teardownRemovedEnclave (run : Run) (id : EnclaveId) (existing : EnclaveState)
    (errors : List ReportError) : Rec (List ReportError) :=
  match run.registry.forCloud (run.registry.stateCloud existing), existing.enclaveHandle with
  | .ok driver, some handle => teardownRemovedResources run id driver existing handle errors
  -- no driver for the persisted cloud, or no handle: nothing is called
  | _, _ => return errors

/-- One removed enclave: its resources, then its record. -/
def teardownRemoved (run : Run) (errors : List ReportError) (id : EnclaveId) :
    Rec (List ReportError) :=
  match run.existing id with
  | none => return errors
  | some existing => do
    let errors ← teardownRemovedEnclave run id existing errors
    storeCall (perform (.deleteEnclave id))
    return errors

/-- The teardown pass. -/
def teardownPass (run : Run) (removed : List EnclaveId) : Rec (List ReportError) :=
  removed.foldlM (teardownRemoved run) []

/-! ## The calls of the pass -/

/-- The calls that tear down the resources of the enclave `id`. -/
inductive Call.TearsDown (id : EnclaveId) : Call → Prop
  | partitionOrder (entries : List (PartitionId × PartitionState)) :
    TearsDown id (.partitionOrder entries)
  | tfTeardown (tf : TerraformBackend) (enc : Enclave) (part : Partition)
    (authEnv : HashMap String String) (runId : Option Uuid) (h : enc.id = id) :
    TearsDown id (.tfTeardown tf enc part authEnv runId)
  | teardownPartition (driver : Driver) (enc : Enclave) (part : Partition) (handle : Handle)
    (h : enc.id = id) : TearsDown id (.teardownPartition driver enc part handle)
  | teardownEnclave (driver : Driver) (enc : Enclave) (handle : Handle) (h : enc.id = id) :
    TearsDown id (.teardownEnclave driver enc handle)

section

variable {run : Run} {id : EnclaveId} {existing : EnclaveState}

theorem teardownRemovedPartition_calls (hid : existing.desired.id = id) {driver : Driver}
    {authEnv : HashMap String String} (errors : List ReportError)
    (entry : PartitionId × PartitionState) :
    Prog.CallsE (Call.TearsDown id) (ReportError.Adds id errors)
      (teardownRemovedPartition run id driver existing authEnv errors entry) := by
  refine Prog.CallsE.bind (Prog.CallsE.monadLift (Prog.Calls.perform
    (.tfTeardown _ _ _ _ _ hid))) fun destroyed _ => ?_
  have hadds : ReportError.Adds id errors (match destroyed with
      | .ok () => errors
      | .error e => errors ++ [.teardown id entry.1 e]) := by
    cases destroyed with
    | ok _ => exact .refl id errors
    | error e => exact .single rfl errors
  rcases entry.2.partitionHandle with _ | handle
  · exact Prog.CallsE.pure hadds
  · exact Prog.CallsE.bind (callsE_perform (.teardownPartition _ _ _ _ hid))
      fun _ _ => Prog.CallsE.pure hadds

theorem teardownRemovedEnclave_calls (hid : existing.desired.id = id)
    (errors : List ReportError) :
    Prog.CallsE (Call.TearsDown id) (ReportError.Adds id errors)
      (teardownRemovedEnclave run id existing errors) := by
  rw [teardownRemovedEnclave]
  split
  · refine Prog.CallsE.bind (callsE_perform (.partitionOrder _)) fun entries _ => ?_
    refine Prog.CallsE.bind (Prog.CallsE.foldlM (ReportError.Adds id errors)
      (fun errors' entry _ h => ?_) (.refl id errors)) fun errors' h => ?_
    · exact (teardownRemovedPartition_calls hid errors' entry).mono (fun _ hc => hc)
        fun _ h' => h.trans h'
    split
    · exact Prog.CallsE.pure h
    · exact Prog.CallsE.bind (callsE_orFail (Prog.Calls.perform (.teardownEnclave _ _ _ hid)))
        fun _ _ => Prog.CallsE.pure h
  · exact Prog.CallsE.pure (.refl id errors)

/-- The teardown of one removed enclave calls nothing but teardowns of it, and deletes only
its record. -/
theorem teardownRemoved_calls (hkeyed : ∀ s, run.existing id = some s → s.desired.id = id)
    (errors : List ReportError) :
    Prog.CallsE (fun c => c.TearsDown id ∨ c = .deleteEnclave id) (ReportError.Adds id errors)
      (teardownRemoved run errors id) := by
  rw [teardownRemoved]
  rcases hex : run.existing id with _ | s
  · exact Prog.CallsE.pure (.refl id errors)
  · refine Prog.CallsE.bind ((teardownRemovedEnclave_calls (hkeyed s hex) errors).mono
      (fun _ hc => .inl hc) fun _ h => h) fun errors' h => ?_
    exact Prog.CallsE.bind (callsE_deleteEnclave (Or.inr rfl))
      fun _ _ => Prog.CallsE.pure h

end

theorem Call.TearsDown.subject {id : EnclaveId} {c : Call} (h : c.TearsDown id) :
    c.subject = none ∨ c.subject = some id := by
  cases h with
  | partitionOrder => exact .inl rfl
  | tfTeardown _ _ _ _ _ h => exact .inr (congrArg some h)
  | teardownPartition _ _ _ _ h => exact .inr (congrArg some h)
  | teardownEnclave _ _ _ h => exact .inr (congrArg some h)

theorem Call.TearsDown.written {id : EnclaveId} {c : Call} (h : c.TearsDown id) :
    c.written = none := by
  cases h <;> rfl

/-- Tearing down an enclave touches no other. -/
theorem sameView_teardownRemoved {A : (c : Call) → Resp c → Prop} {run : Run}
    {id id' : EnclaveId} (hkeyed : ∀ s, run.existing id = some s → s.desired.id = id)
    (hne : id' ≠ id) (errors : List ReportError) (w : World) :
    Prog.Keeps (system A) (w.SameView id') (teardownRemoved run errors id) := by
  refine keeps_sameView (teardownRemoved_calls hkeyed errors) (fun c hc => ?_) w
  rcases hc with hc | rfl
  · rintro (h | h)
    · rcases hc.subject with hs | hs
      · rw [hs] at h
        cases h
      · rw [hs] at h
        exact hne (Option.some.inj h).symm
    · rw [hc.written] at h
      cases h
  · rintro (h | h)
    · cases h
    · exact hne (Option.some.inj h).symm

/-! ## Where the pass does not end the run -/

section

variable {A : (c : Call) → Resp c → Prop} {run : Run}

theorem succeeds_teardownRemovedPartition {id : EnclaveId} {driver : Driver}
    {existing : EnclaveState} {authEnv : HashMap String String} (errors : List ReportError)
    (entry : PartitionId × PartitionState) :
    Prog.Succeeds (system A)
      (teardownRemovedPartition run id driver existing authEnv errors entry) := by
  refine (Prog.Succeeds.monadLift _).bind fun destroyed => ?_
  rcases entry.2.partitionHandle with _ | handle
  · exact .pure _
  · exact (Prog.Succeeds.monadLift _).bind fun _ => .pure _

theorem succeeds_teardownRemovedEnclave (hA : NeverAborts A) (id : EnclaveId)
    (existing : EnclaveState) (errors : List ReportError) :
    Prog.Succeeds (system A) (teardownRemovedEnclave run id existing errors) := by
  rw [teardownRemovedEnclave]
  split
  · refine (Prog.Succeeds.monadLift _).bind fun entries => ?_
    refine (Prog.Succeeds.foldlM (fun _ _ _ => succeeds_teardownRemovedPartition _ _) _).bind
      fun errors' => ?_
    split
    · exact .pure _
    · exact (succeeds_teardownEnclave hA _ _ _).bind fun _ => .pure _
  · exact .pure _

theorem succeeds_teardownPass (hA : NeverAborts A) (removed : List EnclaveId) :
    Prog.Succeeds (system A) (teardownPass run removed) := by
  refine Prog.Succeeds.foldlM (fun errors id _ => ?_) _
  rw [teardownRemoved]
  rcases run.existing id with _ | existing
  · exact .pure _
  · exact (succeeds_teardownRemovedEnclave hA id existing errors).bind fun _ =>
      (succeeds_deleteEnclave hA.storeSafe id).bind fun _ => .pure _

/-- A removed enclave that the pass gets past was deleted. -/
theorem wpE_teardownRemoved_deletes {id : EnclaveId} (hex : (run.existing id).isSome = true)
    (errors : List ReportError) (w : World) :
    Prog.wpE (system A) (teardownRemoved run errors id)
      (fun r w' => ∀ a, r = .ok a → w'.Logged fun ev => ev.1 = .deleteEnclave id) w := by
  obtain ⟨existing, hrec⟩ := Option.isSome_iff_exists.mp hex
  rw [teardownRemoved, hrec]
  refine wpE_bind_logs fun errors' w₁ => wpE_bind_logged ?_
  rw [wpE_orFail, Prog.wp_perform]
  intro r _ _ _
  exact w₁.logged_next rfl

end

end Nclav
