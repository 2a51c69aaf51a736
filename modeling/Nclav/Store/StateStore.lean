import Nclav.Effect.Alone
import Nclav.System.Call

/-!
# The state store

The operations of the `StateStore` trait on enclaves, partitions, audit events, and Terraform state
and locks. A store is its data, the sections that are atomic on them, and the methods as programs
of such sections. The first implementation is `inMemoryStore`.
-/

namespace Nclav

open Effect
open Serde (Value)

/-- The text of an event's enclave, under which it is listed. -/
def AuditEvent.enclaveId : AuditEvent → Option EnclaveId
  | .enclaveProvisioned _ _ enclaveId => some enclaveId
  | .partitionProvisioned _ _ enclaveId _ => some enclaveId
  | .exportWired _ _ enclaveId _ => some enclaveId
  | .importWired _ _ importerEnclave _ => some importerEnclave
  | .enclaveError _ _ enclaveId _ => some enclaveId
  | .partitionError _ _ enclaveId _ _ => some enclaveId
  | .reconcileStarted _ _ _ | .reconcileCompleted _ _ _ _ => none

abbrev Bytes : Type := List UInt8

/-- The methods of `StateStore`. -/
inductive StoreCall : Type where
  | getEnclave (id : EnclaveId)
  | listEnclaves
  | upsertEnclave (state : EnclaveState)
  | deleteEnclave (id : EnclaveId)
  | upsertPartition (enclaveId : EnclaveId) (state : PartitionState)
  | deletePartition (enclaveId : EnclaveId) (partitionId : PartitionId)
  | appendEvent (event : AuditEvent)
  | listEvents (enclaveId : Option EnclaveId) (limit : Nat)
  | getTfState (key : String)
  | putTfState (key : String) (state : Bytes)
  | deleteTfState (key : String)
  | lockTfState (key : String) (lockInfo : Value)
  | unlockTfState (key lockId : String)

/-- What a method returns when it succeeds. -/
@[reducible] def StoreResult : StoreCall → Type
  | .getEnclave _ => Option EnclaveState
  | .listEnclaves => List EnclaveState
  | .listEvents _ _ => List AuditEvent
  | .getTfState _ => Option Bytes
  | _ => Unit

/-- A state store: its data, the sections that are atomic on them, and its methods as programs of
such sections. -/
structure StateStore : Type 1 where
  Section : Type
  Answer : Section → Type
  Data : Type
  empty : Data
  step : Data → (t : Section) → Answer t × Data
  method : (c : StoreCall) → Prog Section Answer (Except StoreError (StoreResult c))

namespace StateStore

/-- A method with what it returned. -/
abbrev Return : Type := (c : StoreCall) × Except StoreError (StoreResult c)

/-- A method that nothing else disturbs. -/
def call (store : StateStore) (d : store.Data) (c : StoreCall) :
    Except StoreError (StoreResult c) × store.Data :=
  (store.method c).alone store.step d

/-- What methods return that are called one after another. -/
def returns (store : StateStore) : store.Data → List StoreCall → List Return
  | _, [] => []
  | d, c :: cs => ⟨c, (store.call d c).1⟩ :: store.returns (store.call d c).2 cs

/-- What methods leave behind that are called one after another. -/
def after (store : StateStore) : store.Data → List StoreCall → store.Data
  | d, [] => d
  | d, c :: cs => store.after (store.call d c).2 cs

/-- Each call meets the condition `C` in the data where it is made. -/
def EachCall (store : StateStore) (C : store.Data → StoreCall → Prop) :
    store.Data → List StoreCall → Prop
  | _, [] => True
  | d, c :: cs => C d c ∧ store.EachCall C (store.call d c).2 cs

/-- The same result, a list of enclaves being taken up to its order. -/
inductive SameReturn : Return → Return → Prop
  | refl (r : Return) : SameReturn r r
  | listed {states states' : List EnclaveState} (h : states.Perm states') :
    SameReturn ⟨.listEnclaves, .ok states⟩ ⟨.listEnclaves, .ok states'⟩

/-- Two stores do the same with a call that the relation `R` allows on their data. -/
structure Step (store store' : StateStore) (R : store.Data → store'.Data → Prop) (d : store.Data)
    (d' : store'.Data) (c : StoreCall) : Prop where
  returned : SameReturn ⟨c, (store.call d c).1⟩ ⟨c, (store'.call d' c).1⟩
  after : R (store.call d c).2 (store'.call d' c).2

/-- **Simulation.** Stores whose data stay related return the same. -/
theorem returns_same {store store' : StateStore} {R : store.Data → store'.Data → Prop}
    {C : store.Data → StoreCall → Prop}
    (hstep : ∀ d d' c, R d d' → C d c → Step store store' R d d' c) {d : store.Data}
    {d' : store'.Data} (hR : R d d') {cs : List StoreCall} (hC : store.EachCall C d cs) :
    List.Forall₂ SameReturn (store.returns d cs) (store'.returns d' cs) := by
  induction cs generalizing d d' with
  | nil => exact .nil
  | cons c cs ih =>
    have h := hstep d d' c hR hC.1
    exact .cons h.returned (ih h.after hC.2)

end StateStore

/-- The last `limit` of the listed events. -/
def lastEvents (events : List AuditEvent) (limit : Nat) : List AuditEvent :=
  events.drop (events.length - limit)

/-- The event is listed for the enclave, or for all. -/
def AuditEvent.listedFor (enclaveId : Option EnclaveId) (event : AuditEvent) : Bool :=
  match enclaveId with
  | some eid => event.enclaveId = some eid
  | none => true

/-- `existing["ID"].as_str().unwrap_or("")`. -/
def lockIdOf (lockInfo : Value) : String := ((lockInfo.idx "ID").asStr).getD ""

/-- The order in which a store lists its enclaves: that of a hash map, or of a collation. -/
structure Listing : Type where
  list : Store → List EnclaveState
  perm : ∀ st, (list st).Perm (st.enclaves.toList.map (·.2))

/-- The order of the ids. -/
def Listing.byId : Listing := ⟨fun st => st.enclaves.toList.map (·.2), fun _ => .refl _⟩

/-- `upsert_partition` on the records: the partition of a stored enclave is set. -/
def Store.upsertPartition (st : Store) (id : EnclaveId) (ps : PartitionState) : Option Store :=
  (st.get? id).map fun s => st.upsert { s with partitions := s.partitions.insert ps.desired.id ps }

theorem Store.upsertPartition_of_none {st : Store} {id : EnclaveId} (h : st.get? id = none)
    (ps : PartitionState) : st.upsertPartition id ps = none := by
  rw [Store.upsertPartition, h, Option.map_none]

theorem Store.upsertPartition_of_some {st : Store} {id : EnclaveId} {s : EnclaveState}
    (h : st.get? id = some s) (ps : PartitionState) : st.upsertPartition id ps =
      some (st.upsert { s with partitions := s.partitions.insert ps.desired.id ps }) := by
  rw [Store.upsertPartition, h, Option.map_some]

/-! ## In memory -/

structure InMemoryStore : Type where
  enclaves : Store
  events : List AuditEvent
  tfState : HashMap String Bytes
  tfLocks : HashMap String Value

namespace InMemoryStore

def empty : InMemoryStore := ⟨.empty, [], ∅, ∅⟩

def step (listing : Listing) (inner : InMemoryStore) :
    (c : StoreCall) → Except StoreError (StoreResult c) × InMemoryStore
  | .getEnclave id => (.ok (inner.enclaves.get? id), inner)
  | .listEnclaves => (.ok (listing.list inner.enclaves), inner)
  | .upsertEnclave state => (.ok (), { inner with enclaves := inner.enclaves.upsert state })
  | .deleteEnclave id => (.ok (), { inner with enclaves := inner.enclaves.delete id })
  | .upsertPartition enclaveId state =>
    match inner.enclaves.upsertPartition enclaveId state with
    | none => (.error (.enclaveNotFound enclaveId.val), inner)
    | some enclaves => (.ok (), { inner with enclaves })
  | .deletePartition enclaveId partitionId =>
    (.ok (), { inner with enclaves := inner.enclaves.deletePartition enclaveId partitionId })
  | .appendEvent event => (.ok (), { inner with events := inner.events ++ [event] })
  | .listEvents enclaveId limit =>
    (.ok (lastEvents (inner.events.filter (·.listedFor enclaveId)) limit), inner)
  | .getTfState key => (.ok inner.tfState[key]?, inner)
  | .putTfState key state => (.ok (), { inner with tfState := inner.tfState.insert key state })
  | .deleteTfState key =>
    (.ok (), { inner with tfState := inner.tfState.erase key, tfLocks := inner.tfLocks.erase key })
  | .lockTfState key lockInfo =>
    match inner.tfLocks[key]? with
    | some existing => (.error (.lockConflict existing), inner)
    | none => (.ok (), { inner with tfLocks := inner.tfLocks.insert key lockInfo })
  | .unlockTfState key lockId =>
    match inner.tfLocks[key]? with
    | some existing =>
      -- an empty id is a forced unlock
      if lockId = "" ∨ lockIdOf existing = lockId then
        (.ok (), { inner with tfLocks := inner.tfLocks.erase key })
      else (.ok (), inner)
    | none => (.ok (), inner)

end InMemoryStore

/-- The store of tests and of the local driver: every method is one section under the lock. -/
@[reducible] def inMemoryStore (listing : Listing) : StateStore where
  Section := StoreCall
  Answer c := Except StoreError (StoreResult c)
  Data := InMemoryStore
  empty := .empty
  step := InMemoryStore.step listing
  method := Prog.perform

theorem inMemoryStore_call (listing : Listing) (inner : InMemoryStore) (c : StoreCall) :
    (inMemoryStore listing).call inner c = inner.step listing c := rfl

end Nclav
