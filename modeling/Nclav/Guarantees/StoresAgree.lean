import Nclav.Store.Redb
import Nclav.Store.Postgres

/-!
# The stores agree

The redb store returns what the store in memory returns, whatever is called. The PostgreSQL store
does so as long as no partition of an enclave that is not stored is deleted, no Terraform state
under a lock, and no lock released by the text of an id that is no string.
-/

namespace Nclav

open Effect
open Serde (Value)

/-! ## Numbered rows -/

section

variable {V : Type} {m : HashMap Nat V} {last : Nat} {vs : List V}

/-- The rows of a table numbered up to `last`, in the order of their numbers. -/
structure Numbered (m : HashMap Nat V) (last : Nat) (vs : List V) : Prop where
  rows : m.toList.map (·.2) = vs
  le_last : ∀ n v, m[n]? = some v → n ≤ last

theorem numbered_empty : Numbered (∅ : HashMap Nat V) 0 [] where
  rows := rfl
  le_last n v h := by simp at h

/-- A row with a number above all others comes last. -/
theorem toList_insert_of_lt {n : Nat} {v : V} (h : ∀ k v', m[k]? = some v' → k < n) :
    (m.insert n v).toList = m.toList ++ [(n, v)] := by
  have hentry : ∀ e, e ∈ m.toList ↔ m[e.1]? = some e.2 := fun e =>
    Std.ExtTreeMap.mem_toList_iff_getElem?_eq_some
  refine HashMap.toList_eq_of_sorted ?_ fun k v' => ?_
  · refine List.pairwise_append.mpr
      ⟨Std.ExtTreeMap.ordered_keys_toList, List.pairwise_singleton .., fun a ha b hb => ?_⟩
    obtain rfl := List.mem_singleton.mp hb
    exact Nat.compare_eq_lt.mpr (h a.1 a.2 ((hentry a).mp ha))
  · rw [HashMap.get?_insert, List.mem_append, hentry, List.mem_singleton, Prod.mk.injEq]
    by_cases hk : k = n
    · rw [if_pos hk, Option.some.injEq, eq_comm (a := v)]
      exact ⟨fun hv => .inr ⟨hk, hv⟩, fun hor => hor.elim
        (fun hget => absurd (h k v' hget) (by omega)) fun hv => hv.2⟩
    · rw [if_neg hk]
      exact ⟨.inl, fun hor => hor.resolve_right fun hv => hk hv.1⟩

theorem Numbered.append (h : Numbered m last vs) (v : V) :
    Numbered (m.insert (last + 1) v) (last + 1) (vs ++ [v]) where
  rows := by
    rw [toList_insert_of_lt fun k v' hk => Nat.lt_succ_of_le (h.le_last k v' hk), List.map_append,
      h.rows]
    rfl
  le_last n v' hn := by
    rw [HashMap.get?_insert] at hn
    split at hn
    · rename_i heq
      exact heq.le
    · exact Nat.le_succ_of_le (h.le_last n v' hn)

end

/-! ## Lists -/

/-- The last events are the first of the reversed ones. -/
theorem lastEvents_eq (events : List AuditEvent) (limit : Nat) :
    (events.reverse.take limit).reverse = lastEvents events limit := by
  rw [lastEvents, List.take_reverse, List.reverse_reverse]

/-! ## The redb store -/

open StateStore (SameReturn)

/-- The tables hold what the store in memory holds. -/
structure RedbTables.Holds (inner : InMemoryStore) (db : RedbTables) : Prop where
  enclaves : db.enclaves = inner.enclaves
  events : Numbered db.events (db.eventSeq.getD 0) inner.events
  tfState : db.tfState = inner.tfState
  tfLocks : db.tfLocks = inner.tfLocks

theorem redb_step (listing : Listing) (inner : InMemoryStore) (db : RedbTables) (c : StoreCall)
    (h : db.Holds inner) :
    (inMemoryStore listing).Step redbStore (fun inner db => db.Holds inner) inner db c := by
  obtain ⟨enclaves, events, eventSeq, tfState, tfLocks⟩ := db
  obtain ⟨rfl, hevents, rfl, rfl⟩ := h
  have hsame : RedbTables.Holds inner ⟨inner.enclaves, events, eventSeq, inner.tfState,
    inner.tfLocks⟩ := ⟨rfl, hevents, rfl, rfl⟩
  cases c with
  | getEnclave id => exact ⟨.refl _, hsame⟩
  | listEnclaves => exact ⟨.listed (listing.perm _), hsame⟩
  | upsertEnclave state => exact ⟨.refl _, rfl, hevents, rfl, rfl⟩
  | deleteEnclave id => exact ⟨.refl _, rfl, hevents, rfl, rfl⟩
  | upsertPartition id state =>
    constructor <;> rw [inMemoryStore_call, redbStore_upsertPartition, InMemoryStore.step] <;>
      cases inner.enclaves.upsertPartition id state
    · exact .refl _
    · exact .refl _
    · exact hsame
    · exact ⟨rfl, hevents, rfl, rfl⟩
  | deletePartition id pid =>
    constructor <;> rw [inMemoryStore_call, redbStore_deletePartition, InMemoryStore.step]
    · exact .refl _
    · exact ⟨rfl, hevents, rfl, rfl⟩
  | appendEvent event => exact ⟨.refl _, rfl, hevents.append event, rfl, rfl⟩
  | listEvents id limit =>
    refine ⟨?_, hsame⟩
    have hlisted : (redbStore.call ⟨inner.enclaves, events, eventSeq, inner.tfState,
        inner.tfLocks⟩ (.listEvents id limit)).1 = .ok (lastEvents
          ((events.toList.map (·.2)).filter (·.listedFor id)) limit) := rfl
    rw [hlisted, hevents.rows]
    exact .refl _
  | getTfState key => exact ⟨.refl _, hsame⟩
  | putTfState key state => exact ⟨.refl _, rfl, hevents, rfl, rfl⟩
  | deleteTfState key => exact ⟨.refl _, rfl, hevents, rfl, rfl⟩
  | lockTfState key lockInfo =>
    constructor <;> rw [inMemoryStore_call, redbStore_lockTfState, InMemoryStore.step] <;>
      cases inner.tfLocks[key]?
    · exact .refl _
    · exact .refl _
    · exact ⟨rfl, hevents, rfl, rfl⟩
    · exact hsame
  | unlockTfState key lockId =>
    constructor <;> rw [inMemoryStore_call, redbStore_unlockTfState, InMemoryStore.step] <;>
      cases inner.tfLocks[key]? with
      | none => first | exact .refl _ | exact hsame
      | some existing =>
        dsimp only
        split
        · first | exact .refl _ | exact ⟨rfl, hevents, rfl, rfl⟩
        · first | exact .refl _ | exact hsame

/-! ## The PostgreSQL store -/

/-- The row of an event. -/
def auditEventRow (event : AuditEvent) : AuditEventRow := ⟨event.enclaveId.map (·.val), event⟩

structure PostgresTables.Holds (inner : InMemoryStore) (db : PostgresTables) : Prop where
  enclaves : db.enclaves = inner.enclaves
  auditEvents : Numbered db.auditEvents db.auditEventsSeq (inner.events.map auditEventRow)
  tfState : db.tfState = inner.tfState
  tfLocks : db.tfLocks = inner.tfLocks

/-- The calls with which the PostgreSQL store does what the others do. -/
def CommonCall (text : Value → String) (inner : InMemoryStore) : StoreCall → Prop
  | .deletePartition id _ => (inner.enclaves.get? id).isSome
  | .deleteTfState key => inner.tfLocks[key]? = none
  -- the id of the lock is a string, or nothing, or does not read like the one that is given
  | .unlockTfState key lockId => lockId = "" ∨ ∀ info v, inner.tfLocks[key]? = some info →
    info.get? "ID" = some v → (∃ s, v = .str s) ∨ v = .null ∨ text v ≠ lockId
  | _ => True

/-- The column of an event's enclave selects the events that are listed for it. -/
theorem selected_auditEventRow (id : Option EnclaveId) (event : AuditEvent) :
    (match id.map (·.val) with
      | some eid => decide ((auditEventRow event).enclaveId = some eid)
      | none => true) = event.listedFor id := by
  cases id with
  | none => rfl
  | some id =>
    show decide (event.enclaveId.map (·.val) = some id.val) = decide (event.enclaveId = some id)
    cases event.enclaveId with
    | none => rfl
    | some id' => simp [EnclaveId.ext_iff]

/-- What is selected and reversed are the last of the listed events. -/
theorem selectEvents_eq (events : List AuditEvent) (id : Option EnclaveId) (limit : Nat) :
    (((((events.map auditEventRow).filter fun row =>
      match id.map (·.val) with
      | some eid => row.enclaveId = some eid
      | none => true).reverse.take limit).map (·.event)).reverse) =
      lastEvents (events.filter (·.listedFor id)) limit := by
  have hfilter : (events.map auditEventRow).filter (fun row =>
      match id.map (·.val) with
      | some eid => row.enclaveId = some eid
      | none => true) = (events.filter (·.listedFor id)).map auditEventRow := by
    rw [List.filter_map]
    exact congrArg _ (List.filter_congr fun event _ => selected_auditEventRow id event)
  have hevents : ∀ listed : List AuditEvent,
      ((listed.map auditEventRow).reverse.take limit).map (·.event) =
        listed.reverse.take limit := by
    intro listed
    have hevent : (fun row : AuditEventRow => row.event) ∘ auditEventRow = fun event => event := rfl
    rw [← List.map_reverse, ← List.map_take, List.map_map, hevent, List.map_id']
  rw [hfilter, hevents, lastEvents_eq]

/-- The database compares the ids as the other stores do. -/
theorem fieldText_eq_iff {text : Value → String} {info : Value} {lockId : String}
    (hid : lockId ≠ "") (h : ∀ v, info.get? "ID" = some v →
      (∃ s, v = .str s) ∨ v = .null ∨ text v ≠ lockId) :
    fieldText text info "ID" = some lockId ↔ lockIdOf info = lockId := by
  rw [fieldText, lockIdOf, Value.idx]
  cases hget : info.get? "ID" with
  | none => simp [Value.asStr, Ne.symm hid]
  | some v =>
    cases v with
    | null => simp [Value.asStr, Ne.symm hid]
    | str s => simp [Value.asStr]
    | _ =>
      obtain ⟨s, hs⟩ | hnull | htext := h _ hget
      · cases hs
      · cases hnull
      · simp [Value.asStr, Ne.symm hid, htext]

theorem postgres_step (listing listing' : Listing) (text : Value → String) (inner : InMemoryStore)
    (db : PostgresTables) (c : StoreCall) (h : db.Holds inner) (hc : CommonCall text inner c) :
    (inMemoryStore listing).Step (postgresStore listing' text) (fun inner db => db.Holds inner)
      inner db c := by
  obtain ⟨enclaves, auditEvents, auditEventsSeq, tfState, tfLocks⟩ := db
  obtain ⟨rfl, hevents, rfl, rfl⟩ := h
  have hsame : PostgresTables.Holds inner ⟨inner.enclaves, auditEvents, auditEventsSeq,
    inner.tfState, inner.tfLocks⟩ := ⟨rfl, hevents, rfl, rfl⟩
  cases c with
  | getEnclave id => exact ⟨.refl _, hsame⟩
  | listEnclaves => exact ⟨.listed ((listing.perm _).trans (listing'.perm _).symm), hsame⟩
  | upsertEnclave state => exact ⟨.refl _, rfl, hevents, rfl, rfl⟩
  | deleteEnclave id => exact ⟨.refl _, rfl, hevents, rfl, rfl⟩
  | upsertPartition id state =>
    constructor <;> rw [inMemoryStore_call, postgresStore_upsertPartition, InMemoryStore.step] <;>
      cases inner.enclaves.upsertPartition id state
    · exact .refl _
    · exact .refl _
    · exact hsame
    · exact ⟨rfl, hevents, rfl, rfl⟩
  | deletePartition id pid =>
    constructor <;>
      rw [inMemoryStore_call, postgresStore_deletePartition, InMemoryStore.step,
        if_pos (show (inner.enclaves.get? id).isSome from hc)]
    · exact .refl _
    · exact ⟨rfl, hevents, rfl, rfl⟩
  | appendEvent event =>
    refine ⟨.refl _, rfl, ?_, rfl, rfl⟩
    show Numbered _ _ ((inner.events ++ [event]).map auditEventRow)
    rw [List.map_append]
    exact hevents.append (auditEventRow event)
  | listEvents id limit =>
    refine ⟨?_, hsame⟩
    have hlisted : ((postgresStore listing' text).call ⟨inner.enclaves, auditEvents,
        auditEventsSeq, inner.tfState, inner.tfLocks⟩ (.listEvents id limit)).1 =
        .ok ((((auditEvents.toList.map (·.2)).filter fun row =>
          match id.map (·.val) with
          | some eid => row.enclaveId = some eid
          | none => true).reverse.take limit).map (·.event)).reverse := rfl
    rw [hlisted, hevents.rows, selectEvents_eq]
    exact .refl _
  | getTfState key => exact ⟨.refl _, hsame⟩
  | putTfState key state => exact ⟨.refl _, rfl, hevents, rfl, rfl⟩
  | deleteTfState key =>
    refine ⟨.refl _, rfl, hevents, rfl, ?_⟩
    exact (HashMap.erase_of_get?_eq_none hc).symm
  | lockTfState key lockInfo =>
    constructor <;> rw [inMemoryStore_call, postgresStore_lockTfState, InMemoryStore.step] <;>
      cases inner.tfLocks[key]?
    · exact .refl _
    · exact .refl _
    · exact ⟨rfl, hevents, rfl, rfl⟩
    · exact hsame
  | unlockTfState key lockId =>
    have hreleases : ∀ info, inner.tfLocks[key]? = some info →
        ((lockId = "" ∨ fieldText text info "ID" = some lockId) ↔
          (lockId = "" ∨ lockIdOf info = lockId)) := by
      intro info hinfo
      by_cases hid : lockId = ""
      · simp [hid]
      · rw [fieldText_eq_iff hid fun v => (hc.resolve_left hid) info v hinfo]
    constructor <;> rw [inMemoryStore_call, postgresStore_unlockTfState, InMemoryStore.step] <;>
      cases hinfo : inner.tfLocks[key]? with
      | none => first | exact .refl _ | exact hsame
      | some existing =>
        simp only [hreleases existing hinfo]
        split
        · first | exact .refl _ | exact ⟨rfl, hevents, rfl, rfl⟩
        · first | exact .refl _ | exact hsame

/-! ## Runs -/

/-- **The stores agree.** The redb store returns what the store in memory returns, and so does the
PostgreSQL store where the calls are common to all. -/
theorem stores_agree (listing listing' : Listing) (text : Value → String) (cs : List StoreCall) :
    List.Forall₂ SameReturn ((inMemoryStore listing).returns .empty cs)
        (redbStore.returns .empty cs) ∧
      ((inMemoryStore listing).EachCall (CommonCall text) .empty cs →
        List.Forall₂ SameReturn ((inMemoryStore listing).returns .empty cs)
          ((postgresStore listing' text).returns .empty cs)) := by
  have htrue : ∀ (inner : InMemoryStore) (cs : List StoreCall),
      (inMemoryStore listing).EachCall (fun _ _ => True) inner cs := by
    intro inner cs
    induction cs generalizing inner with
    | nil => trivial
    | cons c cs ih => exact ⟨trivial, ih _⟩
  refine ⟨StateStore.returns_same (fun d d' c hR _ => redb_step listing d d' c hR)
    ⟨rfl, numbered_empty, rfl, rfl⟩ (htrue _ cs), fun hcommon => ?_⟩
  exact StateStore.returns_same (fun d d' c => postgres_step listing listing' text d d' c)
    ⟨rfl, numbered_empty, rfl, rfl⟩ hcommon

/-! ## A run of each kind -/

/-- The text of a number. -/
def numberText : Value → String
  | .num n => toString n
  | _ => ""

def numberedLock : Value := .object [("ID", .num 7)]

/-- A lock whose id is a number is asked for, released under another number and by force. -/
def lockCalls : List StoreCall :=
  [.lockTfState "a/p" numberedLock, .unlockTfState "a/p" "8", .unlockTfState "a/p" "",
    .deleteTfState "a/p"]

theorem stores_agree_lockCalls :
    List.Forall₂ SameReturn ((inMemoryStore .byId).returns .empty lockCalls)
      ((postgresStore .byId numberText).returns .empty lockCalls) := by
  refine (stores_agree .byId .byId numberText lockCalls).2 ⟨trivial, .inr ?_, .inl rfl, rfl, trivial⟩
  intro info v hinfo hv
  obtain rfl : numberedLock = info := Option.some.inj hinfo
  obtain rfl : Value.num 7 = v := Option.some.inj hv
  exact .inr (.inr (by decide))

theorem isOk_eq_of_sameReturn {r r' : StateStore.Return} (h : SameReturn r r') :
    r.2.isOk = r'.2.isOk := by
  cases h <;> rfl

/-- A partition of an enclave that is not stored is deleted: the store in memory has nothing to do,
the PostgreSQL store does not find the enclave. -/
theorem stores_disagree : ¬List.Forall₂ SameReturn
    ((inMemoryStore .byId).returns .empty [.deletePartition ⟨"a"⟩ ⟨"p"⟩])
    ((postgresStore .byId numberText).returns .empty [.deletePartition ⟨"a"⟩ ⟨"p"⟩]) := by
  rintro (_ | ⟨h, _⟩)
  have hok := isOk_eq_of_sameReturn h
  rw [postgresStore_deletePartition] at hok
  exact absurd hok (by decide)

end Nclav
