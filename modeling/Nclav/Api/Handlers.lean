import Nclav.Reconciler.Reconcile

/-!
# The delete handlers

Besides a reconcile two requests write the store: the deletion of an enclave and that of a
partition. Both tear the resources down with the driver of the persisted cloud and collect what
fails; both drop the record in the end, whatever failed.
-/

namespace Nclav

open Effect

/-- What the handlers share. -/
structure AppState : Type where
  registry : DriverRegistry
  authToken : String
  apiBase : String

/-- The Terraform backend that a handler sets up. -/
def AppState.tfBackend (state : AppState) : TerraformBackend where
  apiBase := state.apiBase
  authToken := state.authToken
  testMode := false

/-- The error of a handler: its HTTP status and its message. -/
structure ApiError : Type where
  status : Nat
  message : String

namespace ApiError

def notFound (msg : String) : ApiError := ⟨404, msg⟩

def internal (msg : String) : ApiError := ⟨500, msg⟩

def ofStore (e : StoreError) : ApiError := internal (toString e)

end ApiError

/-- The answer of a delete handler. -/
structure DestroyReport : Type where
  destroyed : String
  errors : List String
  remainingResources : List String

/-! ## The monad -/

abbrev Api : Type → Type := ExceptT ApiError Sys

/-- A store call with `?`. -/
def apiStoreCall {α : Type} (p : Sys (Except StoreError α)) : Api α :=
  ExceptT.mk (p.bind fun r => .ret (r.mapError .ofStore))

@[simp] theorem wpE_apiStoreCall {W α : Type} {M : Machine Call Resp W}
    (p : Sys (Except StoreError α)) (Q : Except ApiError α → W → Prop) (w : W) :
    Prog.wpE M (apiStoreCall p) Q w ↔ Prog.wp M p (fun r => Q (r.mapError .ofStore)) w := by
  rw [apiStoreCall, Prog.wpE_mk, Prog.wp_bind]
  exact Iff.rfl

/-- `ok_or_else`. -/
def okOr {α : Type} (e : ApiError) : Option α → Api α
  | some a => return a
  | none => throw e

/-- The driver of the cloud that a record was provisioned on. -/
def AppState.driverOf (state : AppState) (existing : EnclaveState) : Api Driver :=
  match state.registry.forCloud (state.registry.stateCloud existing) with
  | .ok driver => return driver
  | .error e => throw (.internal (toString e))

/-- A failure is collected under a prefix. -/
def collect (label : String) (errors : List String) : Except DriverError Unit → List String
  | .ok () => errors
  | .error e => errors ++ [s!"{label}{e}"]

/-! ## The handlers -/

/-- Destroy one partition of an enclave that is deleted, then clean up its identity. -/
def destroyPartition (tf : TerraformBackend) (id : EnclaveId) (driver : Driver)
    (existing : EnclaveState) (authEnv : HashMap String String) (errors : List String)
    (entry : PartitionId × PartitionState) : Api (List String) := do
  let destroyed ← tf.teardown existing.desired entry.2.desired authEnv none
  let errors := collect s!"teardown {id.val}/{entry.1.val}: " errors destroyed
  match entry.2.partitionHandle with
  | none => return errors
  | some handle => do
    let cleaned ← perform (.teardownPartition driver existing.desired entry.2.desired handle)
    return collect s!"SA cleanup {id.val}/{entry.1.val}: " errors cleaned

/-- The resources of an enclave that is deleted, if it has a handle. -/
def destroyEnclave (tf : TerraformBackend) (id : EnclaveId) (driver : Driver)
    (existing : EnclaveState) (resourcesOnly : Bool) : Api (List String) :=
  match existing.enclaveHandle with
  | none => return []
  | some encHandle => do
    let authEnv := driver.authEnv existing.desired encHandle
    let entries ← perform (.partitionOrder existing.partitions.toList)
    let errors ← entries.val.foldlM (destroyPartition tf id driver existing authEnv) []
    if resourcesOnly then return errors
    else do
      let destroyed ← perform (.teardownEnclave driver existing.desired encHandle)
      return collect s!"enclave teardown {id.val}: " errors destroyed

/-- `DELETE /enclaves/{id}`. -/
def deleteEnclave (state : AppState) (id : EnclaveId) (resourcesOnly : Bool) :
    Api DestroyReport := do
  let stored ← apiStoreCall (perform (.getEnclave id))
  let existing ← okOr (.notFound s!"enclave '{id.val}' not found") stored
  let driver ← state.driverOf existing
  let errors ← destroyEnclave state.tfBackend id driver existing resourcesOnly
  apiStoreCall (perform (.deleteEnclave id))
  return { destroyed := id.val, errors, remainingResources := [] }

/-- Destroy the partition that is deleted, then clean up its identity. -/
def destroyDeletedPartition (tf : TerraformBackend) (driver : Driver) (existing : EnclaveState)
    (partState : PartitionState) : Api (List String) := do
  let authEnv := (existing.enclaveHandle.map (driver.authEnv existing.desired)).getD ∅
  let destroyed ← tf.teardown existing.desired partState.desired authEnv none
  let errors := collect "" [] destroyed
  match partState.partitionHandle with
  | none => return errors
  | some handle => do
    let cleaned ← perform (.teardownPartition driver existing.desired partState.desired handle)
    return collect "SA cleanup: " errors cleaned

/-- What is left in the cloud of a deleted partition. -/
def remainingResources (driver : Driver) (existing : EnclaveState) (partState : PartitionState) :
    Api (List String) :=
  match existing.enclaveHandle with
  | none => return []
  | some encHandle => do
    let listed ← perform
      (.listPartitionResources driver existing.desired encHandle partState.desired)
    return match listed with
      | .ok resources => resources
      | .error _ => []

/-- `DELETE /enclaves/{id}/partitions/{part}`. -/
def deletePartition (state : AppState) (id : EnclaveId) (pid : PartitionId) :
    Api DestroyReport := do
  let stored ← apiStoreCall (perform (.getEnclave id))
  let existing ← okOr (.notFound s!"enclave '{id.val}' not found") stored
  let partState ← okOr
    (.notFound s!"partition '{pid.val}' not found in enclave '{id.val}'") existing.partitions[pid]?
  let driver ← state.driverOf existing
  let errors ← destroyDeletedPartition state.tfBackend driver existing partState
  -- whatever failed, the operator can fix it and apply again
  apiStoreCall (perform (.deletePartition id pid))
  let remaining ← remainingResources driver existing partState
  return { destroyed := s!"{id.val}/{pid.val}", errors, remainingResources := remaining }

/-! ## The calls of the handlers -/

/-- The calls that delete the enclave `id` or one of its partitions. -/
inductive Call.Deletes (id : EnclaveId) : Call → Prop
  | getEnclave (id' : EnclaveId) : Deletes id (.getEnclave id')
  | partitionOrder (entries : List (PartitionId × PartitionState)) :
    Deletes id (.partitionOrder entries)
  | tfTeardown (tf : TerraformBackend) (enc : Enclave) (part : Partition)
    (authEnv : HashMap String String) (runId : Option Uuid) :
    Deletes id (.tfTeardown tf enc part authEnv runId)
  | teardownPartition (driver : Driver) (enc : Enclave) (part : Partition) (handle : Handle) :
    Deletes id (.teardownPartition driver enc part handle)
  | teardownEnclave (driver : Driver) (enc : Enclave) (handle : Handle) :
    Deletes id (.teardownEnclave driver enc handle)
  | listPartitionResources (driver : Driver) (enc : Enclave) (handle : Handle) (part : Partition) :
    Deletes id (.listPartitionResources driver enc handle part)
  | deleteEnclave : Deletes id (.deleteEnclave id)
  | deletePartition (pid : PartitionId) : Deletes id (.deletePartition id pid)

section

variable {P : Call → Prop} {α : Type} {id : EnclaveId} {tf : TerraformBackend} {driver : Driver}
  {existing : EnclaveState} {state : AppState}

theorem callsE_apiStoreCall {p : Sys (Except StoreError α)} {Q : Except StoreError α → Prop}
    (hp : Prog.Calls P Q p) : Prog.CallsE P (fun _ => True) (apiStoreCall p) :=
  hp.bind fun _ _ _ _ => trivial

theorem callsE_apiPerform {c : Call} (hc : P c) :
    Prog.CallsE P (fun _ => True) (monadLift (perform c) : Api (Resp c)) :=
  Prog.CallsE.monadLift (Prog.Calls.perform hc)

theorem callsE_okOr (e : ApiError) (a : Option α) :
    Prog.CallsE P (fun x => a = some x) (okOr e a) := by
  rcases a with _ | a
  · exact Prog.CallsE.throw
  · exact Prog.CallsE.pure rfl

theorem callsE_driverOf :
    Prog.CallsE P (fun driver => state.registry.forCloud (state.registry.stateCloud existing) =
      .ok driver) (state.driverOf existing) := by
  rw [AppState.driverOf]
  split
  · rename_i hdriver
    exact Prog.CallsE.pure hdriver
  · exact Prog.CallsE.throw

theorem destroyPartition_calls {authEnv : HashMap String String} (errors : List String)
    (entry : PartitionId × PartitionState) :
    Prog.CallsE (Call.Deletes id) (fun _ => True)
      (destroyPartition tf id driver existing authEnv errors entry) := by
  refine (callsE_apiPerform (.tfTeardown _ _ _ _ _)).bind fun destroyed _ => ?_
  rcases entry.2.partitionHandle with _ | handle
  · exact Prog.CallsE.pure trivial
  · exact (callsE_apiPerform (.teardownPartition _ _ _ _)).bind
      fun _ _ => Prog.CallsE.pure trivial

theorem destroyEnclave_calls (resourcesOnly : Bool) :
    Prog.CallsE (Call.Deletes id) (fun _ => True)
      (destroyEnclave tf id driver existing resourcesOnly) := by
  rw [destroyEnclave]
  split
  · exact Prog.CallsE.pure trivial
  · refine (callsE_apiPerform (.partitionOrder _)).bind fun entries _ => ?_
    refine Prog.CallsE.bind (Prog.CallsE.foldlM (fun _ => True)
      (fun errors entry _ _ => destroyPartition_calls errors entry) trivial) fun errors _ => ?_
    split
    · exact Prog.CallsE.pure trivial
    · exact (callsE_apiPerform (.teardownEnclave _ _ _)).bind
        fun _ _ => Prog.CallsE.pure trivial

theorem deleteEnclave_calls (resourcesOnly : Bool) :
    Prog.CallsE (Call.Deletes id) (fun _ => True) (deleteEnclave state id resourcesOnly) := by
  refine (callsE_apiStoreCall (Prog.Calls.perform (.getEnclave _))).bind fun stored _ => ?_
  refine (callsE_okOr _ stored).bind fun existing _ => callsE_driverOf.bind fun driver _ => ?_
  refine (destroyEnclave_calls resourcesOnly).bind fun errors _ => ?_
  exact (callsE_apiStoreCall (Prog.Calls.perform .deleteEnclave)).bind
    fun _ _ => Prog.CallsE.pure trivial

theorem deletePartition_calls (pid : PartitionId) :
    Prog.CallsE (Call.Deletes id) (fun _ => True) (deletePartition state id pid) := by
  refine (callsE_apiStoreCall (Prog.Calls.perform (.getEnclave _))).bind fun stored _ => ?_
  refine (callsE_okOr _ stored).bind fun existing _ => (callsE_okOr _ _).bind fun part _ => ?_
  refine callsE_driverOf.bind fun driver _ => ?_
  refine Prog.CallsE.bind (Q := fun _ => True) ?_ fun errors _ => ?_
  · refine (callsE_apiPerform (.tfTeardown _ _ _ _ _)).bind fun destroyed _ => ?_
    rcases part.partitionHandle with _ | handle
    · exact Prog.CallsE.pure trivial
    · exact (callsE_apiPerform (.teardownPartition _ _ _ _)).bind
        fun _ _ => Prog.CallsE.pure trivial
  refine (callsE_apiStoreCall (Prog.Calls.perform (.deletePartition _))).bind fun _ _ => ?_
  refine Prog.CallsE.bind (Q := fun _ => True) ?_ fun _ _ => Prog.CallsE.pure trivial
  rw [remainingResources]
  split
  · exact Prog.CallsE.pure trivial
  · exact (callsE_apiPerform (.listPartitionResources _ _ _ _)).bind
      fun _ _ => Prog.CallsE.pure trivial

end

end Nclav
