import Nclav.Effect.Pool
import Nclav.Guarantees.AliasScope
import Nclav.Store.Redb
import Nclav.Store.Postgres

/-!
# Partition updates side by side

The partitions are part of the record of their enclave. The store in memory changes one under its
lock; the others read the record and write it back, so that what was written in between is lost, and
an enclave deleted in between comes back. `updates_kept` says that this is all: where each call
writes what it would have made of the record stored by then, the calls have the effect of calls made
one after another.
-/

namespace Nclav

open Effect
open Serde (Value)

/-- A call that writes the record of an enclave. -/
inductive RecordJob : Type where
  | upsertPartition (state : PartitionState)
  | deletePartition (pid : PartitionId)
  | deleteEnclave

namespace RecordJob

/-- The partition that the call changes. -/
def partition : RecordJob → Option PartitionId
  | .upsertPartition state => some state.desired.id
  | .deletePartition pid => some pid
  | .deleteEnclave => none

/-- What becomes of it. -/
def result : RecordJob → Option PartitionState
  | .upsertPartition state => some state
  | .deletePartition _ | .deleteEnclave => none

/-- The partitions after the call. -/
def onPartitions (partitions : HashMap PartitionId PartitionState) :
    RecordJob → HashMap PartitionId PartitionState
  | .upsertPartition state => partitions.insert state.desired.id state
  | .deletePartition pid => partitions.erase pid
  | .deleteEnclave => partitions

/-- The record after the call. -/
def onRecord (record : Option EnclaveState) : RecordJob → Option EnclaveState
  | .deleteEnclave => none
  | job => record.map fun s => { s with partitions := job.onPartitions s.partitions }

theorem eq_deleteEnclave {job : RecordJob} (h : job.partition = none) : job = .deleteEnclave := by
  cases job with
  | deleteEnclave => rfl
  | _ => cases h

variable (id : EnclaveId)

def call : RecordJob → StoreCall
  | .upsertPartition state => .upsertPartition id state
  | .deletePartition pid => .deletePartition id pid
  | .deleteEnclave => .deleteEnclave id

def program (store : StateStore) :
    RecordJob → Prog store.Section store.Answer (Except StoreError Unit)
  | .upsertPartition state => store.method (.upsertPartition id state)
  | .deletePartition pid => store.method (.deletePartition id pid)
  | .deleteEnclave => store.method (.deleteEnclave id)

@[simp] theorem onRecord_none (job : RecordJob) : onRecord none job = none := by
  cases job <;> rfl

theorem get?_onPartitions {job : RecordJob} {p : PartitionId} (h : job.partition = some p)
    (ps : HashMap PartitionId PartitionState) (q : PartitionId) :
    (onPartitions ps job)[q]? = if q = p then job.result else ps[q]? := by
  cases job with
  | upsertPartition state =>
    cases h
    rw [onPartitions, HashMap.get?_insert, result]
  | deletePartition pid =>
    cases h
    rw [onPartitions, HashMap.get?_erase, result]
  | deleteEnclave => cases h

theorem onPartitions_comm {job job' : RecordJob} {p p' : PartitionId} (h : job.partition = some p)
    (h' : job'.partition = some p') (hne : p ≠ p') (ps : HashMap PartitionId PartitionState) :
    onPartitions (onPartitions ps job) job' = onPartitions (onPartitions ps job') job := by
  refine Std.ExtTreeMap.ext_getElem? fun q => ?_
  rw [get?_onPartitions h', get?_onPartitions h, get?_onPartitions h, get?_onPartitions h']
  by_cases hq : q = p
  · rw [if_pos hq, if_pos hq, if_neg fun hq' => hne (hq.symm.trans hq')]
  · rw [if_neg hq, if_neg hq]

theorem onRecord_of_partition {job : RecordJob} {p : PartitionId} (h : job.partition = some p)
    (record : Option EnclaveState) : job.onRecord record =
      record.map fun s => { s with partitions := job.onPartitions s.partitions } := by
  cases job with
  | deleteEnclave => cases h
  | _ => rfl

/-- Changes of different partitions commute. -/
theorem onRecord_comm {job job' : RecordJob} {p p' : PartitionId} (h : job.partition = some p)
    (h' : job'.partition = some p') (hne : p ≠ p') (record : Option EnclaveState) :
    onRecord (onRecord record job) job' = onRecord (onRecord record job') job := by
  rw [onRecord_of_partition h, onRecord_of_partition h', onRecord_of_partition h,
    onRecord_of_partition h', Option.map_map, Option.map_map]
  refine Option.map_congr fun s _ => ?_
  show { s with partitions := job'.onPartitions (job.onPartitions s.partitions) } =
    { s with partitions := job.onPartitions (job'.onPartitions s.partitions) }
  rw [onPartitions_comm h h' hne]

end RecordJob

/-- The record after calls made one after another. -/
def recordAfter {ι : Type} (jobs : ι → RecordJob) (record : Option EnclaveState) (order : List ι) :
    Option EnclaveState :=
  order.foldl (fun record i => (jobs i).onRecord record) record

theorem recordAfter_concat {ι : Type} (jobs : ι → RecordJob) (record : Option EnclaveState)
    (order : List ι) (i : ι) : recordAfter jobs record (order ++ [i]) =
      (jobs i).onRecord (recordAfter jobs record order) := by
  rw [recordAfter, List.foldl_append]
  rfl

theorem recordAfter_none {ι : Type} (jobs : ι → RecordJob) (order : List ι) :
    recordAfter jobs none order = none := by
  induction order with
  | nil => rfl
  | cons i order ih =>
    rw [recordAfter, List.foldl_cons, RecordJob.onRecord_none]
    exact ih

/-- An enclave that was deleted stays so. -/
theorem recordAfter_of_mem {ι : Type} {jobs : ι → RecordJob} {order : List ι} {i : ι}
    (hi : i ∈ order) (hjob : jobs i = .deleteEnclave) (record : Option EnclaveState) :
    recordAfter jobs record order = none := by
  obtain ⟨before, rest, rfl⟩ := List.append_of_mem hi
  rw [recordAfter, List.foldl_append, List.foldl_cons, hjob]
  exact recordAfter_none jobs rest

/-- Calls that change different partitions, in any order. -/
theorem recordAfter_perm {ι : Type} {jobs : ι → RecordJob}
    (hdistinct : ∀ i j p, i ≠ j → (jobs i).partition = some p → (jobs j).partition ≠ some p)
    {order order' : List ι} (h : order.Perm order')
    (hjobs : ∀ i ∈ order, jobs i ≠ .deleteEnclave) (record : Option EnclaveState) :
    recordAfter jobs record order = recordAfter jobs record order' := by
  have hpartition : ∀ i ∈ order, ∃ p, (jobs i).partition = some p := by
    intro i hi
    cases hjob : jobs i with
    | deleteEnclave => exact absurd hjob (hjobs i hi)
    | upsertPartition state => exact ⟨_, rfl⟩
    | deletePartition pid => exact ⟨_, rfl⟩
  refine h.foldl_eq' (fun i hi j hj record => ?_) record
  by_cases hij : i = j
  · rw [hij]
  obtain ⟨p, hp⟩ := hpartition i hi
  obtain ⟨p', hp'⟩ := hpartition j hj
  refine RecordJob.onRecord_comm hp hp' (fun heq => ?_) record
  subst heq
  exact hdistinct i j p hij hp hp'

/-! ## The stores -/

/-- A store that reads the record of an enclave and writes it back, or changes it in one section. -/
structure RecordStore (store : StateStore) : Type where
  record : store.Data → EnclaveId → Option EnclaveState
  /-- what is left of a call that has read the record -/
  held : EnclaveId → RecordJob → EnclaveState →
    Prog store.Section store.Answer (Except StoreError Unit)
  sequential : ∀ d id (job : RecordJob),
    record (store.call d (job.call id)).2 id = job.onRecord (record d id)
  program_call : ∀ id (job : RecordJob), ∃ c k, job.program id store = .call c k
  first : ∀ d id (job : RecordJob) c k, job.program id store = .call c k →
    (∃ r, k (store.step d c).1 = .ret r ∧
        record (store.step d c).2 id = job.onRecord (record d id)) ∨
      ∃ s, record d id = some s ∧ k (store.step d c).1 = held id job s ∧
        (∃ c' k', held id job s = .call c' k') ∧ record (store.step d c).2 id = record d id
  second : ∀ d id (job : RecordJob) s c k, held id job s = .call c k → record d id = some s →
    ∃ r, k (store.step d c).1 = .ret r ∧
      record (store.step d c).2 id = job.onRecord (record d id)

/-- The record of a changed partition. -/
theorem get?_upsertPartition (st : Store) (id : EnclaveId) (state : PartitionState) :
    (match st.upsertPartition id state with
      | none => st
      | some enclaves => enclaves).get? id =
      RecordJob.onRecord (st.get? id) (.upsertPartition state) := by
  cases hget : st.get? id with
  | none => rw [Store.upsertPartition_of_none hget, hget, RecordJob.onRecord_none]
  | some s =>
    rw [Store.upsertPartition_of_some hget, Store.get?_upsert, if_pos (Store.id_of_get? hget).symm]
    rfl

theorem get?_deletedPartition (st : Store) (id : EnclaveId) (pid : PartitionId) :
    (st.deletePartition id pid).get? id =
      RecordJob.onRecord (st.get? id) (.deletePartition pid) := by
  rw [Store.get?_deletePartition, if_pos rfl]
  rfl

theorem get?_deletedEnclave (st : Store) (id : EnclaveId) :
    (st.delete id).get? id = RecordJob.onRecord (st.get? id) .deleteEnclave := by
  rw [Store.get?_delete, if_pos rfl]
  rfl

theorem memory_sequential (listing : Listing) (inner : InMemoryStore) (id : EnclaveId)
    (job : RecordJob) :
    ((inMemoryStore listing).call inner (job.call id)).2.enclaves.get? id =
      job.onRecord (inner.enclaves.get? id) := by
  cases job with
  | upsertPartition state =>
    rw [← get?_upsertPartition, RecordJob.call, inMemoryStore_call, InMemoryStore.step]
    cases inner.enclaves.upsertPartition id state <;> rfl
  | deletePartition pid => exact get?_deletedPartition inner.enclaves id pid
  | deleteEnclave => exact get?_deletedEnclave inner.enclaves id

/-- The store in memory never lets go between reading and writing. -/
def memoryRecords (listing : Listing) : RecordStore (inMemoryStore listing) where
  record inner id := inner.enclaves.get? id
  held _ _ _ := .ret (.ok ())
  sequential := memory_sequential listing
  program_call id job := by cases job <;> exact ⟨_, _, rfl⟩
  first inner id job c k h := by
    refine .inl ?_
    have hrecord := memory_sequential listing inner id job
    cases job with
    | upsertPartition state =>
      cases h
      exact ⟨_, rfl, hrecord⟩
    | deletePartition pid =>
      cases h
      exact ⟨_, rfl, hrecord⟩
    | deleteEnclave =>
      cases h
      exact ⟨_, rfl, hrecord⟩
  second _ _ _ _ _ _ h := by cases h

/-- The record that a call writes back. -/
def RecordJob.written (job : RecordJob) (s : EnclaveState) : EnclaveState :=
  { s with partitions := job.onPartitions s.partitions }

/-- Writing back what was read has the effect of the call, while it is stored. -/
theorem get?_upsert_written {st : Store} {id : EnclaveId} {s : EnclaveState}
    (h : st.get? id = some s) {job : RecordJob} {p : PartitionId} (hjob : job.partition = some p) :
    (st.upsert (job.written s)).get? id = job.onRecord (st.get? id) := by
  have hid : id = (job.written s).desired.id := (Store.id_of_get? h).symm
  rw [Store.get?_upsert, if_pos hid, RecordJob.onRecord_of_partition hjob, h]
  rfl

theorem redb_sequential (db : RedbTables) (id : EnclaveId) (job : RecordJob) :
    (redbStore.call db (job.call id)).2.enclaves.get? id =
      job.onRecord (db.enclaves.get? id) := by
  cases job with
  | upsertPartition state =>
    rw [← get?_upsertPartition, RecordJob.call, redbStore_upsertPartition]
    cases db.enclaves.upsertPartition id state <;> rfl
  | deletePartition pid =>
    rw [RecordJob.call, redbStore_deletePartition]
    exact get?_deletedPartition db.enclaves id pid
  | deleteEnclave => exact get?_deletedEnclave db.enclaves id

def redbHeld (job : RecordJob) (s : EnclaveState) : RedbStore.Redb (Except StoreError Unit) :=
  match job with
  | .deleteEnclave => .ret (.ok ())
  | job => .call (.upsertEnclave (job.written s)) fun _ => .ret (.ok ())

/-- What a change of a partition returns if the enclave is not stored. -/
def redbMissing (id : EnclaveId) : RecordJob → Except StoreError Unit
  | .upsertPartition _ => .error (.enclaveNotFound id.val)
  | _ => .ok ()

theorem redb_program {job : RecordJob} {p : PartitionId} (hjob : job.partition = some p)
    (id : EnclaveId) : job.program id redbStore = .call (.getEnclave id) fun encState =>
      match encState with
      | none => .ret (redbMissing id job)
      | some s => redbHeld job s := by
  cases job with
  | deleteEnclave => cases hjob
  | _ =>
    show Prog.call _ _ = Prog.call _ _
    refine congrArg _ (funext fun encState => ?_)
    cases encState <;> rfl

theorem redbHeld_call {job : RecordJob} {p : PartitionId} (hjob : job.partition = some p)
    (s : EnclaveState) : ∃ c k, redbHeld job s = .call c k := by
  cases job with
  | deleteEnclave => cases hjob
  | _ => exact ⟨_, _, rfl⟩

def redbRecords : RecordStore redbStore where
  record db id := db.enclaves.get? id
  held _ := redbHeld
  sequential := redb_sequential
  program_call id job := by cases job <;> exact ⟨_, _, rfl⟩
  first db id job c k h := by
    cases hjob : job.partition with
    | none =>
      obtain rfl := RecordJob.eq_deleteEnclave hjob
      cases h
      exact .inl ⟨_, rfl, redb_sequential db id .deleteEnclave⟩
    | some p =>
      rw [redb_program hjob] at h
      cases h
      cases hget : db.enclaves.get? id with
      | none =>
        refine .inl ⟨redbMissing id job, ?_, ?_⟩
        · simp [RedbTables.step, hget]
        · simp [RedbTables.step, hget]
      | some s =>
        refine .inr ⟨s, rfl, ?_, redbHeld_call hjob s, hget⟩
        simp [RedbTables.step, hget]
  second db id job s c k h hget := by
    cases hjob : job.partition with
    | none =>
      obtain rfl := RecordJob.eq_deleteEnclave hjob
      cases h
    | some p =>
      cases job with
      | deleteEnclave => cases hjob
      | _ =>
        cases h
        exact ⟨_, rfl, get?_upsert_written hget hjob⟩

theorem postgres_sequential (listing : Listing) (text : Value → String) (db : PostgresTables)
    (id : EnclaveId) (job : RecordJob) :
    ((postgresStore listing text).call db (job.call id)).2.enclaves.get? id =
      job.onRecord (db.enclaves.get? id) := by
  cases job with
  | upsertPartition state =>
    rw [← get?_upsertPartition, RecordJob.call, postgresStore_upsertPartition]
    cases db.enclaves.upsertPartition id state <;> rfl
  | deletePartition pid =>
    rw [RecordJob.call, postgresStore_deletePartition, ← get?_deletedPartition]
    cases hget : db.enclaves.get? id with
    | none => 
      simp [Store.deletePartition, hget]
    | some s => rfl
  | deleteEnclave => exact get?_deletedEnclave db.enclaves id

def postgresHeld (job : RecordJob) (s : EnclaveState) : PostgresStore.Postgres (Except StoreError Unit) :=
  match job with
  | .deleteEnclave => .ret (.ok ())
  | job => .call (.upsertEnclave (job.written s)) fun _ => .ret (.ok ())

theorem postgres_program (listing : Listing) (text : Value → String) {job : RecordJob}
    {p : PartitionId} (hjob : job.partition = some p) (id : EnclaveId) :
    job.program id (postgresStore listing text) = .call (.selectEnclave id) fun encState =>
      match encState with
      | none => .ret (.error (.enclaveNotFound id.val))
      | some s => postgresHeld job s := by
  cases job with
  | deleteEnclave => cases hjob
  | _ =>
    show Prog.call _ _ = Prog.call _ _
    refine congrArg _ (funext fun encState => ?_)
    cases encState <;> rfl

theorem postgresHeld_call {job : RecordJob} {p : PartitionId} (hjob : job.partition = some p)
    (s : EnclaveState) : ∃ c k, postgresHeld job s = .call c k := by
  cases job with
  | deleteEnclave => cases hjob
  | _ => exact ⟨_, _, rfl⟩

def postgresRecords (listing : Listing) (text : Value → String) :
    RecordStore (postgresStore listing text) where
  record db id := db.enclaves.get? id
  held _ := postgresHeld
  sequential := postgres_sequential listing text
  program_call id job := by cases job <;> exact ⟨_, _, rfl⟩
  first db id job c k h := by
    cases hjob : job.partition with
    | none =>
      obtain rfl := RecordJob.eq_deleteEnclave hjob
      cases h
      exact .inl ⟨_, rfl, postgres_sequential listing text db id .deleteEnclave⟩
    | some p =>
      rw [postgres_program listing text hjob] at h
      cases h
      cases hget : db.enclaves.get? id with
      | none =>
        refine .inl ⟨.error (.enclaveNotFound id.val), ?_, ?_⟩
        · simp [PostgresTables.step, hget]
        · simp [PostgresTables.step, hget]
      | some s =>
        refine .inr ⟨s, rfl, ?_, postgresHeld_call hjob s, hget⟩
        simp [PostgresTables.step, hget]
  second db id job s c k h hget := by
    cases hjob : job.partition with
    | none =>
      obtain rfl := RecordJob.eq_deleteEnclave hjob
      cases h
    | some p =>
      cases job with
      | deleteEnclave => cases hjob
      | _ =>
        cases h
        exact ⟨_, rfl, get?_upsert_written hget hjob⟩

/-! ## Interleavings -/

section

variable {ι : Type} [DecidableEq ι] {store : StateStore} (R : RecordStore store) (id : EnclaveId)
  (jobs : ι → RecordJob)

/-- The calls before any of them has begun. -/
def startCalls (store : StateStore) (d : store.Data) :
    Pool ι store.Section store.Answer store.Data (Except StoreError Unit) :=
  ⟨fun i => (jobs i).program id store, d⟩

/-- The condition on a section: a call that is about to write back the record writes what it would
have made of the record that is stored now. -/
def WritesWhatItRead
    (s : Pool ι store.Section store.Answer store.Data (Except StoreError Unit)) (i : ι) : Prop :=
  (∃ read, s.threads i = R.held id (jobs i) read) →
    ∃ read, s.threads i = R.held id (jobs i) read ∧ R.record s.world id = some read

/-- The call has returned. -/
def CallReturned (s : Pool ι store.Section store.Answer store.Data (Except StoreError Unit)) (i : ι) :
    Prop :=
  ∃ r, s.threads i = .ret r

/-- What is asked of the calls that have returned. -/
structure UpdatesKept (d : store.Data)
    (s : Pool ι store.Section store.Answer store.Data (Except StoreError Unit)) : Prop where
  /-- as long as the enclave is not deleted, they have the effect of calls in any order -/
  reflected : (∀ i, jobs i = .deleteEnclave → ¬CallReturned s i) → ∀ order : List ι, order.Nodup →
    (∀ i, i ∈ order ↔ CallReturned s i) →
    R.record s.world id = R.record (store.after d (order.map fun i => (jobs i).call id)) id
  /-- a deleted enclave stays deleted -/
  deleted : ∀ i, jobs i = .deleteEnclave → CallReturned s i → R.record s.world id = none

/-- The calls in the order of their effects, and where the others stand. -/
structure Linear (d : store.Data)
    (s : Pool ι store.Section store.Answer store.Data (Except StoreError Unit)) (done : List ι) :
    Prop where
  nodup : done.Nodup
  record : R.record s.world id = recordAfter jobs (R.record d id) done
  returned : ∀ i ∈ done, CallReturned s i
  waiting : ∀ i, i ∉ done → s.threads i = (jobs i).program id store ∨
    ∃ read, s.threads i = R.held id (jobs i) read ∧ ∃ c k, R.held id (jobs i) read = .call c k

variable {R id jobs}

omit [DecidableEq ι] in
theorem Linear.not_returned {d : store.Data}
    {s : Pool ι store.Section store.Answer store.Data (Except StoreError Unit)} {done : List ι}
    (h : Linear R id jobs d s done) {i : ι} (hi : i ∉ done) : ¬CallReturned s i := by
  rintro ⟨r, hr⟩
  rcases h.waiting i hi with hprogram | ⟨read, hheld, c, k, hcall⟩
  · obtain ⟨c, k, hcall⟩ := R.program_call id (jobs i)
    rw [hr, hcall] at hprogram
    cases hprogram
  · rw [hr, hcall] at hheld
    cases hheld

/-- A section that has the effect of its call. -/
theorem Linear.commit {d : store.Data}
    {s : Pool ι store.Section store.Answer store.Data (Except StoreError Unit)} {done : List ι}
    (h : Linear R id jobs d s done) {i : ι} (hi : i ∉ done) {c : store.Section}
    {p : Prog store.Section store.Answer (Except StoreError Unit)} {r : Except StoreError Unit}
    (hp : p = .ret r) (hrecord : R.record (store.step s.world c).2 id =
      (jobs i).onRecord (R.record s.world id)) :
    Linear R id jobs d (s.after (Machine.ofStep store.step).next i c (store.step s.world c).1 p)
      (done ++ [i]) where
  nodup := by
    rw [← List.concat_eq_append]
    exact h.nodup.concat hi
  record := by
    rw [recordAfter_concat, ← h.record]
    exact hrecord
  returned j hj := by
    by_cases hji : j = i
    · subst hji
      exact ⟨r, by rw [Pool.after_threads_self, hp]⟩
    · rw [CallReturned, Pool.after_threads_of_ne _ hji]
      refine h.returned j ((List.mem_append.mp hj).resolve_right fun hmem => hji ?_)
      exact List.mem_singleton.mp hmem
  waiting j hj := by
    have hji : j ≠ i := fun heq => hj (heq ▸ List.mem_append_right _ (List.mem_singleton.mpr rfl))
    rw [Pool.after_threads_of_ne _ hji]
    exact h.waiting j fun hmem => hj (List.mem_append_left _ hmem)

/-- A section that reads the record. -/
theorem Linear.hold {d : store.Data}
    {s : Pool ι store.Section store.Answer store.Data (Except StoreError Unit)} {done : List ι}
    (h : Linear R id jobs d s done) {i : ι} (hi : i ∉ done) {c : store.Section}
    {p : Prog store.Section store.Answer (Except StoreError Unit)} {read : EnclaveState}
    (hp : p = R.held id (jobs i) read) (hcall : ∃ c k, R.held id (jobs i) read = .call c k)
    (hrecord : R.record (store.step s.world c).2 id = R.record s.world id) :
    Linear R id jobs d (s.after (Machine.ofStep store.step).next i c (store.step s.world c).1 p)
      done where
  nodup := h.nodup
  record := hrecord.trans h.record
  returned j hj := by
    have hji : j ≠ i := fun heq => hi (heq ▸ hj)
    rw [CallReturned, Pool.after_threads_of_ne _ hji]
    exact h.returned j hj
  waiting j hj := by
    by_cases hji : j = i
    · subst hji
      rw [Pool.after_threads_self]
      exact .inr ⟨read, hp, hcall⟩
    · rw [Pool.after_threads_of_ne _ hji]
      exact h.waiting j hj

theorem Linear.step {d : store.Data}
    {s : Pool ι store.Section store.Answer store.Data (Except StoreError Unit)} {done : List ι}
    (h : Linear R id jobs d s done) {i : ι} {c : store.Section}
    {k : store.Answer c → Prog store.Section store.Answer (Except StoreError Unit)}
    (hcall : s.threads i = .call c k) (hC : WritesWhatItRead R id jobs s i) :
    ∃ done', Linear R id jobs d
      (s.after (Machine.ofStep store.step).next i c (store.step s.world c).1
        (k (store.step s.world c).1)) done' := by
  have hi : i ∉ done := fun hmem => by
    obtain ⟨r, hr⟩ := h.returned i hmem
    rw [hcall] at hr
    cases hr
  rcases h.waiting i hi with hprogram | ⟨read, hheld, -⟩
  · rcases R.first s.world id (jobs i) c k (hprogram.symm.trans hcall) with
      ⟨r, hk, hrecord⟩ | ⟨read, -, hk, hheld, hrecord⟩
    · exact ⟨_, h.commit hi hk hrecord⟩
    · exact ⟨_, h.hold hi hk hheld hrecord⟩
  · obtain ⟨read, hheld, hstored⟩ := hC ⟨read, hheld⟩
    obtain ⟨r, hk, hrecord⟩ := R.second s.world id (jobs i) read c k (hheld.symm.trans hcall) hstored
    exact ⟨_, h.commit hi hk hrecord⟩

omit [DecidableEq ι] in
theorem sequential_after (d : store.Data) (order : List ι) :
    R.record (store.after d (order.map fun i => (jobs i).call id)) id =
      recordAfter jobs (R.record d id) order := by
  induction order generalizing d with
  | nil => rfl
  | cons i order ih =>
    rw [List.map_cons, StateStore.after, ih, R.sequential]
    rfl

theorem updatesKept_of_runs
    (hdistinct : ∀ i j p, i ≠ j → (jobs i).partition = some p → (jobs j).partition ≠ some p)
    {d : store.Data} {s : Pool ι store.Section store.Answer store.Data (Except StoreError Unit)}
    (h : Pool.Runs (Machine.ofStep store.step) (fun s i _ => WritesWhatItRead R id jobs s i)
      (startCalls id jobs store d) s) : UpdatesKept R id jobs d s := by
  obtain ⟨done, hlinear⟩ : ∃ done, Linear R id jobs d s done := by
    refine h.invariant (I := fun s => ∃ done, Linear R id jobs d s done) ?_ ⟨[], ?_⟩
    · rintro s i c k r hcall hadm hC ⟨done, hlinear⟩
      obtain rfl : r = (store.step s.world c).1 := hadm
      exact hlinear.step hcall hC
    · exact ⟨List.nodup_nil, rfl, fun i hi => absurd hi List.not_mem_nil, fun i _ => .inl rfl⟩
  have hdone : ∀ i, i ∈ done ↔ CallReturned s i := fun i =>
    ⟨hlinear.returned i, fun hr => by_contra fun hi => hlinear.not_returned hi hr⟩
  constructor
  · intro hkept order hnodup horder
    have hperm : done.Perm order := (List.perm_ext_iff_of_nodup hlinear.nodup hnodup).mpr
      fun i => (hdone i).trans (horder i).symm
    rw [sequential_after, hlinear.record]
    exact recordAfter_perm hdistinct hperm (fun i hi hjob => hkept i hjob ((hdone i).mp hi)) _
  · intro i hjob hreturned
    rw [hlinear.record, recordAfter_of_mem ((hdone i).mpr hreturned) hjob]

end

/-- **Updates are kept.** Calls on one enclave that change different partitions, in any
interleaving of their sections: in memory they have the effect of calls made one after another, and
in the other stores too where each writes what it would have made of the record stored by then. -/
theorem updates_kept {ι : Type} [DecidableEq ι] (listing listing' : Listing)
    (text : Value → String) (id : EnclaveId) (jobs : ι → RecordJob)
    (hdistinct : ∀ i j p, i ≠ j → (jobs i).partition = some p → (jobs j).partition ≠ some p) :
    (∀ inner s, Pool.Runs (Machine.ofStep (inMemoryStore listing).step) (fun _ _ _ => True)
      (startCalls id jobs (inMemoryStore listing) inner) s →
      UpdatesKept (memoryRecords listing) id jobs inner s) ∧
    (∀ db s, Pool.Runs (Machine.ofStep redbStore.step)
      (fun s i _ => WritesWhatItRead redbRecords id jobs s i) (startCalls id jobs redbStore db) s →
      UpdatesKept redbRecords id jobs db s) ∧
    ∀ db s, Pool.Runs (Machine.ofStep (postgresStore listing' text).step)
      (fun s i _ => WritesWhatItRead (postgresRecords listing' text) id jobs s i)
      (startCalls id jobs (postgresStore listing' text) db) s →
      UpdatesKept (postgresRecords listing' text) id jobs db s := by
  refine ⟨fun inner s h => ?_, fun db s h => updatesKept_of_runs hdistinct h,
    fun db s h => updatesKept_of_runs hdistinct h⟩
  refine updatesKept_of_runs hdistinct (h.mono fun s i c k hcall _ hread => ?_)
  obtain ⟨read, hheld⟩ := hread
  -- a call that is about to enter its section has read nothing
  rw [hcall] at hheld
  cases hheld

/-! ## Two deletions -/

/-- Two clients delete a partition each. -/
def twoDeletions : Bool → RecordJob
  | false => .deletePartition ⟨"api"⟩
  | true => .deletePartition ⟨"db"⟩

theorem twoDeletions_distinct (i j : Bool) (p : PartitionId) (hij : i ≠ j)
    (h : (twoDeletions i).partition = some p) : (twoDeletions j).partition ≠ some p := by
  cases i <;> cases j <;> cases h <;> first | exact absurd rfl hij | decide

/-- An enclave of two partitions. -/
def shop : EnclaveState :=
  { EnclaveState.new (plainEnclave "shop" [] []) with
    partitions := ((∅ : HashMap PartitionId PartitionState).insert ⟨"api"⟩
      (.new (plainPartition "api" []))).insert ⟨"db"⟩ (.new (plainPartition "db" [])) }

def shopTables : RedbTables := { RedbTables.empty with enclaves := Store.empty.upsert shop }

theorem shop_stored : shopTables.enclaves.get? ⟨"shop"⟩ = some shop := by
  have hid : (⟨"shop"⟩ : EnclaveId) = shop.desired.id := rfl
  rw [shopTables, Store.get?_upsert, if_pos hid]

theorem shop_upserted {db : RedbTables} {s : EnclaveState} (hs : s.desired.id = ⟨"shop"⟩) :
    (db.step (.upsertEnclave s)).2.enclaves.get? ⟨"shop"⟩ = some s := by
  show Store.get? (Store.upsert _ s) _ = _
  rw [Store.get?_upsert, if_pos hs.symm]

/-- Each client writes before the other one reads. -/
theorem successive_runs : ∃ s, Pool.Runs (Machine.ofStep redbStore.step)
    (fun s i _ => WritesWhatItRead redbRecords ⟨"shop"⟩ twoDeletions s i)
    (startCalls ⟨"shop"⟩ twoDeletions redbStore shopTables) s ∧ ∀ i, s.threads i = .ret (.ok ()) := by
  have hread : (Machine.ofStep redbStore.step).adm shopTables (.getEnclave ⟨"shop"⟩)
      (some shop) := shop_stored.symm
  let shop' := RecordJob.written (.deletePartition ⟨"api"⟩) shop
  have hstored' : (shopTables.step (.upsertEnclave shop')).2.enclaves.get? ⟨"shop"⟩ = some shop' :=
    shop_upserted rfl
  have hread' : (Machine.ofStep redbStore.step).adm (shopTables.step (.upsertEnclave shop')).2
      (.getEnclave ⟨"shop"⟩) (some shop') := hstored'.symm
  have hruns := Pool.Runs.step
    (C := fun s i _ => WritesWhatItRead redbRecords ⟨"shop"⟩ twoDeletions s i) false _ _ _
    (.refl (s := startCalls ⟨"shop"⟩ twoDeletions redbStore shopTables)) rfl hread
    fun ⟨_, hheld⟩ => by cases hheld
  have hruns := Pool.Runs.step false _ _ _ hruns rfl rfl fun _ => ⟨shop, rfl, shop_stored⟩
  have hruns := Pool.Runs.step true _ _ _ hruns rfl hread' fun ⟨_, hheld⟩ => by cases hheld
  have hruns := Pool.Runs.step true _ _ _ hruns rfl rfl fun _ => ⟨shop', rfl, hstored'⟩
  refine ⟨_, hruns, ?_⟩
  rintro (_ | _) <;> rfl

/-- Then both deletions are in the record. -/
theorem updates_kept_twoDeletions : ∃ s, Pool.Runs (Machine.ofStep redbStore.step)
    (fun s i _ => WritesWhatItRead redbRecords ⟨"shop"⟩ twoDeletions s i)
    (startCalls ⟨"shop"⟩ twoDeletions redbStore shopTables) s ∧
      (∀ i, s.threads i = .ret (.ok ())) ∧ redbRecords.record s.world ⟨"shop"⟩ =
        some { shop with partitions := (shop.partitions.erase ⟨"api"⟩).erase ⟨"db"⟩ } := by
  obtain ⟨s, hruns, hreturned⟩ := successive_runs
  have hkept :=
    updates_kept .byId .byId (fun _ => "") ⟨"shop"⟩ twoDeletions twoDeletions_distinct
  have hboth := (hkept.2.1 shopTables s hruns).reflected (fun i hi => by cases i <;> cases hi)
    [false, true] (by decide) fun i => ⟨fun _ => ⟨_, hreturned i⟩, fun _ => by cases i <;> decide⟩
  have hrecord : redbRecords.record shopTables ⟨"shop"⟩ = some shop := shop_stored
  rw [sequential_after, hrecord] at hboth
  exact ⟨s, hruns, hreturned, hboth⟩

/-- Both clients read, then both write: the first deletion is lost. -/
theorem overlapping_runs : ∃ s, Pool.Runs (Machine.ofStep redbStore.step) (fun _ _ _ => True)
      (startCalls ⟨"shop"⟩ twoDeletions redbStore shopTables) s ∧
    (∀ i, s.threads i = .ret (.ok ())) ∧ redbRecords.record s.world ⟨"shop"⟩ =
      some (RecordJob.written (.deletePartition ⟨"db"⟩) shop) := by
  have hread : (Machine.ofStep redbStore.step).adm shopTables (.getEnclave ⟨"shop"⟩)
      (some shop) := shop_stored.symm
  have hruns := Pool.Runs.step (C := fun _ _ _ => True) false _ _ _
    (.refl (s := startCalls ⟨"shop"⟩ twoDeletions redbStore shopTables)) rfl hread trivial
  have hruns := Pool.Runs.step true _ _ _ hruns rfl hread trivial
  have hruns := Pool.Runs.step false _ _ _ hruns rfl rfl trivial
  have hruns := Pool.Runs.step true _ _ _ hruns rfl rfl trivial
  refine ⟨_, hruns, ?_, ?_⟩
  · rintro (_ | _) <;> rfl
  · exact shop_upserted rfl

theorem deletion_lost : ¬∀ s, Pool.Runs (Machine.ofStep redbStore.step) (fun _ _ _ => True)
    (startCalls ⟨"shop"⟩ twoDeletions redbStore shopTables) s →
    UpdatesKept redbRecords ⟨"shop"⟩ twoDeletions shopTables s := by
  intro hkept
  obtain ⟨s, hruns, hreturned, hrecord⟩ := overlapping_runs
  have hboth := (hkept s hruns).reflected (fun i hi => by cases i <;> cases hi) [false, true]
    (by decide) fun i => ⟨fun _ => ⟨_, hreturned i⟩, fun _ => by cases i <;> decide⟩
  rw [hrecord, sequential_after] at hboth
  have hrecord' : redbRecords.record shopTables ⟨"shop"⟩ = some shop := shop_stored
  rw [hrecord'] at hboth
  have hapi := congrArg (Option.map fun s => s.partitions[(⟨"api"⟩ : PartitionId)]?) hboth
  simp [recordAfter, RecordJob.written, RecordJob.onRecord, RecordJob.onPartitions, twoDeletions,
    shop] at hapi

end Nclav
