import Nclav.Store.StateStore

/-!
# The redb store

Tables in a file. Every method is one transaction, but for the two that change a partition: they
read the record of the enclave in one transaction and write it back in another.
-/

namespace Nclav

open Effect
open Serde (Value)

/-- The tables. -/
structure RedbTables : Type where
  enclaves : Store
  events : HashMap Nat AuditEvent
  /-- `META["event_seq"]` -/
  eventSeq : Option Nat
  tfState : HashMap String Bytes
  tfLocks : HashMap String Value

/-- The transactions. -/
inductive RedbTxn : Type where
  | getEnclave (id : EnclaveId)
  | listEnclaves
  | upsertEnclave (state : EnclaveState)
  | deleteEnclave (id : EnclaveId)
  | appendEvent (event : AuditEvent)
  | listEvents (enclaveId : Option EnclaveId)
  | getTfState (key : String)
  | putTfState (key : String) (state : Bytes)
  | deleteTfState (key : String)
  | lockTfState (key : String) (lockInfo : Value)
  | unlockTfState (key lockId : String)

@[reducible] def RedbAnswer : RedbTxn → Type
  | .getEnclave _ => Option EnclaveState
  | .listEnclaves => List EnclaveState
  | .listEvents _ => List AuditEvent
  | .getTfState _ => Option Bytes
  | .lockTfState _ _ => Except StoreError Unit
  | _ => Unit

namespace RedbTables

def empty : RedbTables := ⟨.empty, ∅, none, ∅, ∅⟩

def step (db : RedbTables) : (t : RedbTxn) → RedbAnswer t × RedbTables
  | .getEnclave id => (db.enclaves.get? id, db)
  -- a table is read in the order of its keys
  | .listEnclaves => (Listing.byId.list db.enclaves, db)
  | .upsertEnclave state => ((), { db with enclaves := db.enclaves.upsert state })
  | .deleteEnclave id => ((), { db with enclaves := db.enclaves.delete id })
  | .appendEvent event =>
    let newSeq := db.eventSeq.getD 0 + 1
    ((), { db with eventSeq := some newSeq, events := db.events.insert newSeq event })
  | .listEvents enclaveId => ((db.events.toList.map (·.2)).filter (·.listedFor enclaveId), db)
  | .getTfState key => (db.tfState[key]?, db)
  | .putTfState key state => ((), { db with tfState := db.tfState.insert key state })
  | .deleteTfState key =>
    ((), { db with tfState := db.tfState.erase key, tfLocks := db.tfLocks.erase key })
  | .lockTfState key lockInfo =>
    match db.tfLocks[key]? with
    -- the transaction is dropped
    | some existing => (.error (.lockConflict existing), db)
    | none => (.ok (), { db with tfLocks := db.tfLocks.insert key lockInfo })
  | .unlockTfState key lockId =>
    match db.tfLocks[key]? with
    | some existing =>
      if lockId = "" ∨ lockIdOf existing = lockId then
        ((), { db with tfLocks := db.tfLocks.erase key })
      else ((), db)
    | none => ((), db)

end RedbTables

namespace RedbStore

abbrev Redb : Type → Type := Prog RedbTxn RedbAnswer

/-- Run a transaction. -/
abbrev txn (t : RedbTxn) : Redb (RedbAnswer t) := Prog.perform t

def upsertPartition (enclaveId : EnclaveId) (state : PartitionState) :
    Redb (Except StoreError Unit) := do
  match ← txn (.getEnclave enclaveId) with
  | none => return .error (.enclaveNotFound enclaveId.val)
  | some encState => do
    txn (.upsertEnclave { encState with
      partitions := encState.partitions.insert state.desired.id state })
    return .ok ()

def deletePartition (enclaveId : EnclaveId) (partitionId : PartitionId) :
    Redb (Except StoreError Unit) := do
  match ← txn (.getEnclave enclaveId) with
  | none => return .ok ()
  | some encState => do
    txn (.upsertEnclave { encState with partitions := encState.partitions.erase partitionId })
    return .ok ()

def method : (c : StoreCall) → Redb (Except StoreError (StoreResult c))
  | .getEnclave id => do return .ok (← txn (.getEnclave id))
  | .listEnclaves => do return .ok (← txn .listEnclaves)
  | .upsertEnclave state => do return .ok (← txn (.upsertEnclave state))
  | .deleteEnclave id => do return .ok (← txn (.deleteEnclave id))
  | .upsertPartition enclaveId state => upsertPartition enclaveId state
  | .deletePartition enclaveId partitionId => deletePartition enclaveId partitionId
  | .appendEvent event => do return .ok (← txn (.appendEvent event))
  | .listEvents enclaveId limit => do
    return .ok (lastEvents (← txn (.listEvents enclaveId)) limit)
  | .getTfState key => do return .ok (← txn (.getTfState key))
  | .putTfState key state => do return .ok (← txn (.putTfState key state))
  | .deleteTfState key => do return .ok (← txn (.deleteTfState key))
  | .lockTfState key lockInfo => txn (.lockTfState key lockInfo)
  | .unlockTfState key lockId => do return .ok (← txn (.unlockTfState key lockId))

end RedbStore

/-- The key under which a run of Terraform is indexed: in the order of time, within a partition. -/
def iacRunIndexKey (enclaveId : EnclaveId) (partitionId : PartitionId) (startedAt runId : String) :
    String :=
  s!"{enclaveId.val}/{partitionId.val}/{startedAt}/{runId}"

/-- What the keys of a partition begin with. -/
def iacRunPrefix (enclaveId : EnclaveId) (partitionId : PartitionId) : String :=
  s!"{enclaveId.val}/{partitionId.val}/"

/-- The store of a single server. -/
@[reducible] def redbStore : StateStore where
  Section := RedbTxn
  Answer := RedbAnswer
  Data := RedbTables
  empty := .empty
  step := RedbTables.step
  method := RedbStore.method

section

variable (db : RedbTables) (id : EnclaveId)

theorem redbStore_upsertPartition (state : PartitionState) :
    redbStore.call db (.upsertPartition id state) =
      match db.enclaves.upsertPartition id state with
      | none => (.error (.enclaveNotFound id.val), db)
      | some enclaves => (.ok (), { db with enclaves }) := by
  show (RedbStore.upsertPartition id state).alone RedbTables.step db = _
  cases hget : db.enclaves.get? id with
  | none =>
    rw [Store.upsertPartition_of_none hget]
    simp [RedbStore.upsertPartition, RedbTables.step, hget]
  | some s =>
    rw [Store.upsertPartition_of_some hget]
    simp [RedbStore.upsertPartition, RedbTables.step, hget]

theorem redbStore_deletePartition (pid : PartitionId) :
    redbStore.call db (.deletePartition id pid) =
      (.ok (), { db with enclaves := db.enclaves.deletePartition id pid }) := by
  show (RedbStore.deletePartition id pid).alone RedbTables.step db = _
  cases hget : db.enclaves.get? id with
  | none =>
    simp [RedbStore.deletePartition, RedbTables.step, Store.deletePartition, hget]
  | some s =>
    simp [RedbStore.deletePartition, RedbTables.step, Store.deletePartition, hget]

theorem redbStore_lockTfState (key : String) (lockInfo : Value) :
    redbStore.call db (.lockTfState key lockInfo) =
      match db.tfLocks[key]? with
      | some existing => (.error (.lockConflict existing), db)
      | none => (.ok (), { db with tfLocks := db.tfLocks.insert key lockInfo }) := by
  show RedbTables.step db (.lockTfState key lockInfo) = _
  rw [RedbTables.step]


theorem redbStore_unlockTfState (key lockId : String) :
    redbStore.call db (.unlockTfState key lockId) =
      match db.tfLocks[key]? with
      | some existing =>
        if lockId = "" ∨ lockIdOf existing = lockId then
          (.ok (), { db with tfLocks := db.tfLocks.erase key })
        else (.ok (), db)
      | none => (.ok (), db) := by
  show (Except.ok (), (RedbTables.step db (.unlockTfState key lockId)).2) = _
  rw [RedbTables.step]
  cases db.tfLocks[key]? with
  | none => rfl
  | some existing =>
    by_cases h : lockId = "" ∨ lockIdOf existing = lockId
    · simp only [if_pos h]
    · simp only [if_neg h]

end

end Nclav
