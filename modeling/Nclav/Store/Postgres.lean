import Nclav.Store.StateStore

/-!
# The PostgreSQL store

Every method sends its statements one at a time, each a transaction of its own. As in the redb store
a partition is changed by reading the record of its enclave and writing it back. Here deleting a
partition of an enclave that is not stored is an error, deleting Terraform state leaves the lock,
and the id of a lock is compared by the database.
-/

namespace Nclav

open Effect
open Serde (Value)

/-- A row of `audit_events`. -/
structure AuditEventRow : Type where
  enclaveId : Option String
  event : AuditEvent

/-- The tables. -/
structure PostgresTables : Type where
  enclaves : Store
  /-- by `seq` -/
  auditEvents : HashMap Nat AuditEventRow
  /-- the last value that `seq` was given -/
  auditEventsSeq : Nat
  tfState : HashMap String Bytes
  tfLocks : HashMap String Value

/-- The statements. -/
inductive PostgresStatement : Type where
  | selectEnclave (id : EnclaveId)
  | selectEnclaves
  | upsertEnclave (state : EnclaveState)
  | deleteEnclave (id : EnclaveId)
  | insertEvent (enclaveId : Option String) (event : AuditEvent)
  | selectEvents (enclaveId : Option String) (limit : Nat)
  | selectTfState (key : String)
  | upsertTfState (key : String) (state : Bytes)
  | deleteTfState (key : String)
  | insertLock (key : String) (lockInfo : Value)
  | selectLock (key : String)
  | deleteLock (key : String)
  | deleteLockOf (key lockId : String)

@[reducible] def PostgresAnswer : PostgresStatement → Type
  | .selectEnclave _ => Option EnclaveState
  | .selectEnclaves => List EnclaveState
  | .selectEvents _ _ => List AuditEvent
  | .selectTfState _ => Option Bytes
  -- the rows affected
  | .insertLock _ _ => Nat
  | .selectLock _ => Option Value
  | _ => Unit

/-- `v->>'k'`: the field as a text, that of a string being the string itself; `text` is the text of
the other values. -/
def fieldText (text : Value → String) (v : Value) (k : String) : Option String :=
  match v.get? k with
  | none => none
  | some .null => none
  | some (.str s) => some s
  | some v => some (text v)

/-- Erasing a key that has no entry. -/
theorem HashMap.erase_of_get?_eq_none {V : Type} {m : HashMap String V} {k : String}
    (h : m[k]? = none) : m.erase k = m := by
  refine Std.ExtTreeMap.ext_getElem? fun a => ?_
  rw [HashMap.get?_erase]
  split
  · rename_i heq
    rw [heq, h]
  · rfl

namespace PostgresTables

def empty : PostgresTables := ⟨.empty, ∅, 0, ∅, ∅⟩

section

variable (listing : Listing) (text : Value → String)

def step (db : PostgresTables) : (t : PostgresStatement) → PostgresAnswer t × PostgresTables
  | .selectEnclave id => (db.enclaves.get? id, db)
  -- `ORDER BY id`
  | .selectEnclaves => (listing.list db.enclaves, db)
  | .upsertEnclave state => ((), { db with enclaves := db.enclaves.upsert state })
  | .deleteEnclave id => ((), { db with enclaves := db.enclaves.delete id })
  | .insertEvent enclaveId event =>
    let seq := db.auditEventsSeq + 1
    ((), { db with
      auditEventsSeq := seq
      auditEvents := db.auditEvents.insert seq ⟨enclaveId, event⟩ })
  | .selectEvents enclaveId limit =>
    let rows := (db.auditEvents.toList.map (·.2)).filter fun row =>
      match enclaveId with
      | some eid => row.enclaveId = some eid
      | none => true
    -- `ORDER BY seq DESC LIMIT`
    ((rows.reverse.take limit).map (·.event), db)
  | .selectTfState key => (db.tfState[key]?, db)
  | .upsertTfState key state => ((), { db with tfState := db.tfState.insert key state })
  | .deleteTfState key => ((), { db with tfState := db.tfState.erase key })
  | .insertLock key lockInfo =>
    match db.tfLocks[key]? with
    -- `ON CONFLICT (key) DO NOTHING`
    | some _ => (0, db)
    | none => (1, { db with tfLocks := db.tfLocks.insert key lockInfo })
  | .selectLock key => (db.tfLocks[key]?, db)
  | .deleteLock key => ((), { db with tfLocks := db.tfLocks.erase key })
  | .deleteLockOf key lockId =>
    match db.tfLocks[key]? with
    | some lockInfo =>
      if fieldText text lockInfo "ID" = some lockId then
        ((), { db with tfLocks := db.tfLocks.erase key })
      else ((), db)
    | none => ((), db)

end

end PostgresTables

namespace PostgresStore

abbrev Postgres : Type → Type := Prog PostgresStatement PostgresAnswer

/-- Execute a statement. -/
abbrev exec (t : PostgresStatement) : Postgres (PostgresAnswer t) := Prog.perform t

def upsertPartition (enclaveId : EnclaveId) (state : PartitionState) :
    Postgres (Except StoreError Unit) := do
  match ← exec (.selectEnclave enclaveId) with
  | none => return .error (.enclaveNotFound enclaveId.val)
  | some enc => do
    exec (.upsertEnclave { enc with partitions := enc.partitions.insert state.desired.id state })
    return .ok ()

def deletePartition (enclaveId : EnclaveId) (partitionId : PartitionId) :
    Postgres (Except StoreError Unit) := do
  match ← exec (.selectEnclave enclaveId) with
  | none => return .error (.enclaveNotFound enclaveId.val)
  | some enc => do
    exec (.upsertEnclave { enc with partitions := enc.partitions.erase partitionId })
    return .ok ()

/-- The text of `fetch_one`'s error when there is no row. -/
def rowNotFound : String :=
  "no rows returned by a query that expected to return at least one row"

def lockTfState (key : String) (lockInfo : Value) : Postgres (Except StoreError Unit) := do
  let rowsAffected ← exec (.insertLock key lockInfo)
  if rowsAffected = 0 then
    match ← exec (.selectLock key) with
    | some holder => return .error (.lockConflict holder)
    | none => return .error (.internal rowNotFound)
  else return .ok ()

def unlockTfState (key lockId : String) : Postgres (Except StoreError Unit) := do
  if lockId = "" then
    exec (.deleteLock key)
    return .ok ()
  else
    exec (.deleteLockOf key lockId)
    return .ok ()

def method : (c : StoreCall) → Postgres (Except StoreError (StoreResult c))
  | .getEnclave id => do return .ok (← exec (.selectEnclave id))
  | .listEnclaves => do return .ok (← exec .selectEnclaves)
  | .upsertEnclave state => do return .ok (← exec (.upsertEnclave state))
  | .deleteEnclave id => do return .ok (← exec (.deleteEnclave id))
  | .upsertPartition enclaveId state => upsertPartition enclaveId state
  | .deletePartition enclaveId partitionId => deletePartition enclaveId partitionId
  | .appendEvent event => do
    return .ok (← exec (.insertEvent (event.enclaveId.map (·.val)) event))
  | .listEvents enclaveId limit => do
    return .ok (← exec (.selectEvents (enclaveId.map (·.val)) limit)).reverse
  | .getTfState key => do return .ok (← exec (.selectTfState key))
  | .putTfState key state => do return .ok (← exec (.upsertTfState key state))
  | .deleteTfState key => do return .ok (← exec (.deleteTfState key))
  | .lockTfState key lockInfo => lockTfState key lockInfo
  | .unlockTfState key lockId => unlockTfState key lockId

end PostgresStore

/-- The store of several servers. -/
@[reducible] def postgresStore (listing : Listing) (text : Value → String) : StateStore where
  Section := PostgresStatement
  Answer := PostgresAnswer
  Data := PostgresTables
  empty := .empty
  step := PostgresTables.step listing text
  method := PostgresStore.method

section

variable (listing : Listing) (text : Value → String) (db : PostgresTables)

theorem postgresStore_upsertPartition (id : EnclaveId) (state : PartitionState) :
    (postgresStore listing text).call db (.upsertPartition id state) =
      match db.enclaves.upsertPartition id state with
      | none => (.error (.enclaveNotFound id.val), db)
      | some enclaves => (.ok (), { db with enclaves }) := by
  show (PostgresStore.upsertPartition id state).alone (PostgresTables.step listing text) db = _
  cases hget : db.enclaves.get? id with
  | none =>
    rw [Store.upsertPartition_of_none hget]
    simp [PostgresStore.upsertPartition, PostgresTables.step, hget]
  | some s =>
    rw [Store.upsertPartition_of_some hget]
    simp [PostgresStore.upsertPartition, PostgresTables.step, hget]

theorem postgresStore_deletePartition (id : EnclaveId) (pid : PartitionId) :
    (postgresStore listing text).call db (.deletePartition id pid) =
      if (db.enclaves.get? id).isSome then
        (.ok (), { db with enclaves := db.enclaves.deletePartition id pid })
      else (.error (.enclaveNotFound id.val), db) := by
  show (PostgresStore.deletePartition id pid).alone (PostgresTables.step listing text) db = _
  cases hget : db.enclaves.get? id with
  | none => simp [PostgresStore.deletePartition, PostgresTables.step, hget]
  | some s =>
    simp [PostgresStore.deletePartition, PostgresTables.step, Store.deletePartition, hget]

theorem postgresStore_lockTfState (key : String) (lockInfo : Value) :
    (postgresStore listing text).call db (.lockTfState key lockInfo) =
      match db.tfLocks[key]? with
      | some holder => (.error (.lockConflict holder), db)
      | none => (.ok (), { db with tfLocks := db.tfLocks.insert key lockInfo }) := by
  show (PostgresStore.lockTfState key lockInfo).alone (PostgresTables.step listing text) db = _
  cases hget : db.tfLocks[key]? with
  | none =>
    simp [PostgresStore.lockTfState, PostgresTables.step, hget]
  | some holder =>
    simp [PostgresStore.lockTfState, PostgresTables.step, hget]

theorem postgresStore_unlockTfState (key lockId : String) :
    (postgresStore listing text).call db (.unlockTfState key lockId) =
      match db.tfLocks[key]? with
      | some lockInfo =>
        if lockId = "" ∨ fieldText text lockInfo "ID" = some lockId then
          (.ok (), { db with tfLocks := db.tfLocks.erase key })
        else (.ok (), db)
      | none => (.ok (), db) := by
  show (PostgresStore.unlockTfState key lockId).alone (PostgresTables.step listing text) db = _
  by_cases hid : lockId = ""
  · simp only [PostgresStore.unlockTfState, hid]
    cases hget : db.tfLocks[key]? with
    | none =>
      show (Except.ok (), { db with tfLocks := db.tfLocks.erase key }) = (Except.ok (), db)
      rw [HashMap.erase_of_get?_eq_none hget]
    | some lockInfo => rfl
  · simp only [PostgresStore.unlockTfState, hid, false_or]
    cases hget : db.tfLocks[key]? with
    | none => simp [PostgresTables.step, hget]
    | some lockInfo =>
      by_cases htext : fieldText text lockInfo "ID" = some lockId
      · simp [PostgresTables.step, hget, htext]
      · simp [PostgresTables.step, hget, htext]

end

end Nclav
