import Nclav.Domain.Types
import Nclav.Serde.Value

/-!
# Stored state

The records of the state store: one `EnclaveState` per enclave with the states of its
partitions in it, each with its lifecycle metadata, and the audit events. `markActive` and
`markError` are the two transitions the reconciler makes on the metadata.
-/

namespace Nclav

open Serde (Value)

/-- What a driver returned from a provision call. -/
abbrev Handle : Type := Value

/-- An instant, in nanoseconds since the epoch. -/
abbrev DateTime : Type := Int

abbrev Uuid : Type := Nat

/-! ## Lifecycle -/

inductive ProvisioningStatus : Type where
  | pending
  | provisioning
  | active
  | updating
  | degraded
  | error
  | deleting
  | deleted
  deriving DecidableEq, Repr

/-- The most recent provisioning failure. -/
structure ResourceError : Type where
  message : String
  occurredAt : DateTime
  deriving DecidableEq

structure ResourceMeta : Type where
  status : ProvisioningStatus
  createdAt : Option DateTime
  updatedAt : Option DateTime
  lastSeenAt : Option DateTime
  lastError : Option ResourceError
  /-- the hash of the desired config at the last successful apply -/
  desiredHash : Option String
  generation : Nat
  deriving DecidableEq

namespace ResourceMeta

def default : ResourceMeta where
  status := .pending
  createdAt := none
  updatedAt := none
  lastSeenAt := none
  lastError := none
  desiredHash := none
  generation := 0

/-- Transition to Active after a successful provision. -/
def markActive (m : ResourceMeta) (now : DateTime) (hash : String) : ResourceMeta where
  status := .active
  createdAt := if m.createdAt.isNone then some now else m.createdAt
  updatedAt := some now
  lastSeenAt := m.lastSeenAt
  lastError := none
  desiredHash := some hash
  generation := m.generation + 1

/-- Transition to Error after a failed provision. -/
def markError (m : ResourceMeta) (now : DateTime) (message : String) : ResourceMeta :=
  { m with
    status := .error
    lastError := some { message, occurredAt := now }
    generation := m.generation + 1 }

section

variable (m : ResourceMeta) (now : DateTime) (hash message : String)

@[simp] theorem markActive_status : (m.markActive now hash).status = .active := rfl

@[simp] theorem markActive_lastError : (m.markActive now hash).lastError = none := rfl

@[simp] theorem markActive_desiredHash : (m.markActive now hash).desiredHash = some hash := rfl

@[simp] theorem markActive_generation :
    (m.markActive now hash).generation = m.generation + 1 := rfl

@[simp] theorem markError_status : (m.markError now message).status = .error := rfl

@[simp] theorem markError_desiredHash :
    (m.markError now message).desiredHash = m.desiredHash := rfl

@[simp] theorem markError_generation :
    (m.markError now message).generation = m.generation + 1 := rfl

end

end ResourceMeta

/-! ## Records -/

structure PartitionState : Type where
  /-- the partition as parsed from YAML -/
  desired : Partition
  partitionHandle : Option Handle
  resolvedOutputs : HashMap String String
  meta_ : ResourceMeta
  deriving DecidableEq

def PartitionState.new (desired : Partition) : PartitionState where
  desired := desired
  partitionHandle := none
  resolvedOutputs := ∅
  meta_ := .default

structure EnclaveState : Type where
  /-- the enclave as parsed from YAML -/
  desired : Enclave
  enclaveHandle : Option Handle
  partitions : HashMap PartitionId PartitionState
  /-- keyed by export name -/
  exportHandles : HashMap String Handle
  /-- keyed by alias -/
  importHandles : HashMap String Handle
  meta_ : ResourceMeta
  /-- the cloud resolved at reconcile time, for teardown after the YAML is gone -/
  resolvedCloud : Option CloudTarget
  deriving DecidableEq

def EnclaveState.new (desired : Enclave) : EnclaveState where
  desired := desired
  enclaveHandle := none
  partitions := ∅
  exportHandles := ∅
  importHandles := ∅
  meta_ := .default
  resolvedCloud := none

inductive AuditEvent : Type where
  | reconcileStarted (id : Uuid) (at_ : DateTime) (dryRun : Bool)
  | reconcileCompleted (id : Uuid) (at_ : DateTime) (changes : Nat) (dryRun : Bool)
  | enclaveProvisioned (id : Uuid) (at_ : DateTime) (enclaveId : EnclaveId)
  | partitionProvisioned (id : Uuid) (at_ : DateTime) (enclaveId : EnclaveId)
      (partitionId : PartitionId)
  | exportWired (id : Uuid) (at_ : DateTime) (enclaveId : EnclaveId) (exportName : String)
  | importWired (id : Uuid) (at_ : DateTime) (importerEnclave : EnclaveId)
      (exportName : String)
  | enclaveError (id : Uuid) (at_ : DateTime) (enclaveId : EnclaveId) (message : String)
  | partitionError (id : Uuid) (at_ : DateTime) (enclaveId : EnclaveId)
      (partitionId : PartitionId) (message : String)
  deriving DecidableEq

/-- A failed store call. -/
inductive StoreError : Type where
  | enclaveNotFound : String → StoreError
  | serialization : String → StoreError
  | internal : String → StoreError
  | lockConflict : Value → StoreError
  deriving DecidableEq

instance : ToString StoreError where
  toString
    | .enclaveNotFound id => s!"enclave not found: {id}"
    | .serialization msg => s!"serialization error: {msg}"
    | .internal msg => s!"internal store error: {msg}"
    | .lockConflict _ => "state lock conflict"

end Nclav
