import Nclav.Api.TfState

/-!
# The lock protocol

A Terraform run holds the lock of its state from its lock request to its unlock request, or until an
operator steps in. An unlock request names the lock in its body, and one with an empty body is the
operator's. But a body that does not name a lock counts as empty.
-/

namespace Nclav

open Effect
open Serde (Value)

/-! ## What a store makes of the lock operations -/

/-- The state and the locks that a store holds, and what its operations make of them. -/
structure TfStore (store : StateStore) : Type where
  state : store.Data → HashMap String Bytes
  locks : store.Data → HashMap String Value
  /-- the store takes the text for the id of the lock -/
  Matches : Value → String → Prop
  matches_iff : ∀ info x lockId, info.get? "ID" = some (.str x) → (Matches info lockId ↔ x = lockId)
  get : ∀ d key, (store.call d (.getTfState key)).2 = d
  put : ∀ d key bytes, state (store.call d (.putTfState key bytes)).2 = (state d).insert key bytes ∧
    locks (store.call d (.putTfState key bytes)).2 = locks d
  delete : ∀ d key, state (store.call d (.deleteTfState key)).2 = (state d).erase key ∧
    (locks (store.call d (.deleteTfState key)).2 = locks d ∨
      locks (store.call d (.deleteTfState key)).2 = (locks d).erase key)
  lock_free : ∀ d key info, (locks d)[key]? = none →
    (store.call d (.lockTfState key info)).1 = .ok () ∧
      state (store.call d (.lockTfState key info)).2 = state d ∧
      locks (store.call d (.lockTfState key info)).2 = (locks d).insert key info
  lock_held : ∀ d key info holder, (locks d)[key]? = some holder →
    store.call d (.lockTfState key info) = (.error (.lockConflict holder), d)
  unlock_state : ∀ d key lockId, state (store.call d (.unlockTfState key lockId)).2 = state d
  unlock_free : ∀ d key lockId, (locks d)[key]? = none →
    locks (store.call d (.unlockTfState key lockId)).2 = locks d
  unlock_match : ∀ d key lockId info, (locks d)[key]? = some info →
    lockId = "" ∨ Matches info lockId →
    locks (store.call d (.unlockTfState key lockId)).2 = (locks d).erase key
  unlock_other : ∀ d key lockId info, (locks d)[key]? = some info →
    ¬(lockId = "" ∨ Matches info lockId) →
    locks (store.call d (.unlockTfState key lockId)).2 = locks d

theorem lockIdOf_of_str {info : Value} {x : String} (h : info.get? "ID" = some (.str x)) :
    lockIdOf info = x := by
  rw [lockIdOf, Value.idx, h]
  rfl

def memoryTf (listing : Listing) : TfStore (inMemoryStore listing) where
  state := InMemoryStore.tfState
  locks := InMemoryStore.tfLocks
  Matches info lockId := lockIdOf info = lockId
  matches_iff info x lockId h := by rw [lockIdOf_of_str h]
  get d key := rfl
  put d key bytes := ⟨rfl, rfl⟩
  delete d key := ⟨rfl, .inr rfl⟩
  lock_free d key info h := by
    rw [inMemoryStore_call, InMemoryStore.step, h]
    exact ⟨rfl, rfl, rfl⟩
  lock_held d key info holder h := by
    rw [inMemoryStore_call, InMemoryStore.step, h]
  unlock_state d key lockId := by
    rw [inMemoryStore_call, InMemoryStore.step]
    cases d.tfLocks[key]? with
    | none => rfl
    | some info => dsimp only; split <;> rfl
  unlock_free d key lockId h := by rw [inMemoryStore_call, InMemoryStore.step, h]
  unlock_match d key lockId info h hid := by
    rw [inMemoryStore_call, InMemoryStore.step, h]
    dsimp only
    rw [if_pos hid]
  unlock_other d key lockId info h hid := by
    rw [inMemoryStore_call, InMemoryStore.step, h]
    dsimp only
    rw [if_neg hid]

def redbTf : TfStore redbStore where
  state := RedbTables.tfState
  locks := RedbTables.tfLocks
  Matches info lockId := lockIdOf info = lockId
  matches_iff info x lockId h := by rw [lockIdOf_of_str h]
  get d key := rfl
  put d key bytes := ⟨rfl, rfl⟩
  delete d key := ⟨rfl, .inr rfl⟩
  lock_free d key info h := by
    rw [redbStore_lockTfState, h]
    exact ⟨rfl, rfl, rfl⟩
  lock_held d key info holder h := by
    rw [redbStore_lockTfState, h]
  unlock_state d key lockId := by
    rw [redbStore_unlockTfState]
    cases d.tfLocks[key]? with
    | none => rfl
    | some info => dsimp only; split <;> rfl
  unlock_free d key lockId h := by rw [redbStore_unlockTfState, h]
  unlock_match d key lockId info h hid := by
    rw [redbStore_unlockTfState, h]
    dsimp only
    rw [if_pos hid]
  unlock_other d key lockId info h hid := by
    rw [redbStore_unlockTfState, h]
    dsimp only
    rw [if_neg hid]

def postgresTf (listing : Listing) (text : Value → String) :
    TfStore (postgresStore listing text) where
  state := PostgresTables.tfState
  locks := PostgresTables.tfLocks
  Matches info lockId := fieldText text info "ID" = some lockId
  matches_iff info x lockId h := by rw [fieldText, h, Option.some.injEq]
  get d key := rfl
  put d key bytes := ⟨rfl, rfl⟩
  delete d key := ⟨rfl, .inl rfl⟩
  lock_free d key info h := by
    rw [postgresStore_lockTfState, h]
    exact ⟨rfl, rfl, rfl⟩
  lock_held d key info holder h := by
    rw [postgresStore_lockTfState, h]
  unlock_state d key lockId := by
    rw [postgresStore_unlockTfState]
    cases d.tfLocks[key]? with
    | none => rfl
    | some info => dsimp only; split <;> rfl
  unlock_free d key lockId h := by rw [postgresStore_unlockTfState, h]
  unlock_match d key lockId info h hid := by
    rw [postgresStore_unlockTfState, h]
    dsimp only
    rw [if_pos hid]
  unlock_other d key lockId info h hid := by
    rw [postgresStore_unlockTfState, h]
    dsimp only
    rw [if_neg hid]

/-! ## The protocol -/

section

variable {store : StateStore} (tf : TfStore store) (parse : Bytes → Option Value)

/-- The body names the lock `x`. -/
def NamesLock (body : Bytes) (x : String) : Prop :=
  ∃ v, parse body = some v ∧ v.get? "ID" = some (.str x)

/-- What the protocol asks of a request. -/
structure Excludes (d : store.Data) (req : TfRequest) : Prop where
  granted : ∀ enc part info, req = .lock enc part info →
    ((serve store parse d req).1.status = 200 ↔ (tf.locks d)[tfStateKey enc part]? = none)
  taken : ∀ enc part info, req = .lock enc part info →
    (serve store parse d req).1.status = 200 →
    (tf.locks (serve store parse d req).2)[tfStateKey enc part]? = some info
  refused : ∀ enc part info holder, req = .lock enc part info →
    (tf.locks d)[tfStateKey enc part]? = some holder →
    (serve store parse d req).1 = ⟨409, .json holder⟩
  released : ∀ key info x, (tf.locks d)[key]? = some info → info.get? "ID" = some (.str x) →
    x ≠ "" → (tf.locks (serve store parse d req).2)[key]? ≠ some info →
    (∃ enc part, req = .delete enc part ∧ tfStateKey enc part = key) ∨
      ∃ enc part body, req = .unlock enc part body ∧ tfStateKey enc part = key ∧
        (body = [] ∨ NamesLock parse body x)
  /-- a body that is there and names no lock releases nothing -/
  unnamed : ∀ enc part body info, req = .unlock enc part body →
    (tf.locks d)[tfStateKey enc part]? = some info → body ≠ [] →
    (∀ y, y ≠ "" → ¬NamesLock parse body y) →
    (tf.locks (serve store parse d req).2)[tfStateKey enc part]? = some info
  others : ∀ key, key ≠ req.key →
    (tf.locks (serve store parse d req).2)[key]? = (tf.locks d)[key]? ∧
      (tf.state (serve store parse d req).2)[key]? = (tf.state d)[key]?

/-- The condition on a request: an unlock request of a lock that is held has no body, or one that
names a lock. -/
def NamesOrForces (d : store.Data) (req : TfRequest) : Prop :=
  ∀ enc part body info, req = .unlock enc part body →
    (tf.locks d)[tfStateKey enc part]? = some info →
    body = [] ∨ ∃ y, y ≠ "" ∧ NamesLock parse body y

variable {tf parse}

theorem unlockId_eq_iff {body : Bytes} {x : String} (hx : x ≠ "") :
    unlockId parse body = x ↔ NamesLock parse body x := by
  rw [unlockId, NamesLock]
  cases hv : parse body with
  | none => simp [Ne.symm hx]
  | some v =>
    cases hid : v.get? "ID" with
    | none => simp [hid, Ne.symm hx]
    | some id =>
      cases id with
      | str s => simp [hid, Value.asStr]
      | _ => simp [hid, Value.asStr, Ne.symm hx]

/-! ### Data after a request -/

theorem serve_get (tf : TfStore store) (d : store.Data) (enc part : String) :
    (serve store parse d (.get enc part)).2 = d := by
  have hget := tf.get d (tfStateKey enc part)
  show (getTfState store d enc part).2 = d
  rw [getTfState]
  generalize store.call d (.getTfState (tfStateKey enc part)) = answer at hget ⊢
  obtain ⟨r, d'⟩ := answer
  obtain rfl : d' = d := hget
  rcases r with e | _ | bytes <;> rfl

theorem serve_lock_free {d : store.Data} {enc part : String} {info : Value}
    (h : (tf.locks d)[tfStateKey enc part]? = none) :
    (serve store parse d (.lock enc part info)).1.status = 200 ∧
      tf.state (serve store parse d (.lock enc part info)).2 = tf.state d ∧
      tf.locks (serve store parse d (.lock enc part info)).2 =
        (tf.locks d).insert (tfStateKey enc part) info := by
  have hlock := tf.lock_free d (tfStateKey enc part) info h
  show (lockTfState store d enc part info).1.status = 200 ∧
    tf.state (lockTfState store d enc part info).2 = _ ∧
    tf.locks (lockTfState store d enc part info).2 = _
  rw [lockTfState]
  generalize store.call d (.lockTfState (tfStateKey enc part) info) = answer at hlock ⊢
  obtain ⟨r, d'⟩ := answer
  obtain ⟨rfl, hstate, hlocks⟩ := hlock
  exact ⟨rfl, hstate, hlocks⟩

theorem serve_lock_held {d : store.Data} {enc part : String} {info holder : Value}
    (h : (tf.locks d)[tfStateKey enc part]? = some holder) :
    serve store parse d (.lock enc part info) = (⟨409, .json holder⟩, d) := by
  show lockTfState store d enc part info = _
  rw [lockTfState, tf.lock_held d _ info holder h]

theorem serve_unlock (d : store.Data) (enc part : String) (body : Bytes) :
    (serve store parse d (.unlock enc part body)).2 =
      (store.call d (.unlockTfState (tfStateKey enc part) (unlockId parse body))).2 := rfl

/-- An unlock request without an id forces the release. -/
theorem locks_serve_force {d : store.Data} {enc part : String} {body : Bytes} {info : Value}
    (h : (tf.locks d)[tfStateKey enc part]? = some info) (hempty : unlockId parse body = "") :
    (tf.locks (serve store parse d (.unlock enc part body)).2)[tfStateKey enc part]? = none := by
  rw [serve_unlock, tf.unlock_match d _ _ info h (.inl hempty), HashMap.get?_erase, if_pos rfl]

/-- What an unlock request leaves under its key. -/
theorem locks_serve_unlock {d : store.Data} {enc part : String} {body : Bytes} {info : Value}
    {x : String} (h : (tf.locks d)[tfStateKey enc part]? = some info)
    (hid : info.get? "ID" = some (.str x)) :
    (tf.locks (serve store parse d (.unlock enc part body)).2)[tfStateKey enc part]? =
      if unlockId parse body = "" ∨ x = unlockId parse body then none else some info := by
  have hmatches := tf.matches_iff info x (unlockId parse body) hid
  rw [serve_unlock]
  split
  · rename_i hid'
    rw [tf.unlock_match d _ _ info h (hid'.imp_right hmatches.mpr), HashMap.get?_erase, if_pos rfl]
  · rename_i hid'
    rw [tf.unlock_other d _ _ info h fun hor => hid' (hor.imp_right hmatches.mp), h]

/-- A request leaves the other keys alone. -/
theorem serve_others (d : store.Data) (req : TfRequest) {key : String} (h : key ≠ req.key) :
    (tf.locks (serve store parse d req).2)[key]? = (tf.locks d)[key]? ∧
      (tf.state (serve store parse d req).2)[key]? = (tf.state d)[key]? := by
  cases req with
  | get enc part =>
    rw [serve_get tf]
    exact ⟨rfl, rfl⟩
  | put enc part body =>
    have hkey : key ≠ tfStateKey enc part := h
    have hput := tf.put d (tfStateKey enc part) body
    show (tf.locks (store.call d (.putTfState _ body)).2)[key]? = _ ∧
      (tf.state (store.call d (.putTfState _ body)).2)[key]? = _
    rw [hput.1, hput.2, HashMap.get?_insert, if_neg hkey]
    exact ⟨rfl, rfl⟩
  | delete enc part =>
    have hkey : key ≠ tfStateKey enc part := h
    have hdelete := tf.delete d (tfStateKey enc part)
    show (tf.locks (store.call d (.deleteTfState _)).2)[key]? = _ ∧
      (tf.state (store.call d (.deleteTfState _)).2)[key]? = _
    rw [hdelete.1, HashMap.get?_erase, if_neg hkey]
    refine ⟨?_, rfl⟩
    rcases hdelete.2 with hlocks | hlocks
    · rw [hlocks]
    · rw [hlocks, HashMap.get?_erase, if_neg hkey]
  | lock enc part info =>
    have hkey : key ≠ tfStateKey enc part := h
    cases hheld : (tf.locks d)[tfStateKey enc part]? with
    | none =>
      rw [(serve_lock_free hheld).2.1, (serve_lock_free hheld).2.2, HashMap.get?_insert,
        if_neg hkey]
      exact ⟨rfl, rfl⟩
    | some holder =>
      rw [serve_lock_held hheld]
      exact ⟨rfl, rfl⟩
  | unlock enc part body =>
    have hkey : key ≠ tfStateKey enc part := h
    rw [serve_unlock, tf.unlock_state]
    refine ⟨?_, rfl⟩
    cases hheld : (tf.locks d)[tfStateKey enc part]? with
    | none => rw [tf.unlock_free d _ _ hheld]
    | some info =>
      by_cases hmatch : unlockId parse body = "" ∨ tf.Matches info (unlockId parse body)
      · rw [tf.unlock_match d _ _ info hheld hmatch, HashMap.get?_erase, if_neg hkey]
      · rw [tf.unlock_other d _ _ info hheld hmatch]

/-- What takes a lock with an id from its key. -/
theorem released_of_serve {d : store.Data} {req : TfRequest} {info : Value} {x : String}
    (h : (tf.locks d)[req.key]? = some info) (hid : info.get? "ID" = some (.str x))
    (hgone : (tf.locks (serve store parse d req).2)[req.key]? ≠ some info) :
    (∃ enc part, req = .delete enc part) ∨
      ∃ enc part body, req = .unlock enc part body ∧
        (unlockId parse body = "" ∨ x = unlockId parse body) := by
  cases req with
  | get enc part =>
    rw [serve_get tf] at hgone
    exact absurd h hgone
  | put enc part body =>
    have hlocks : tf.locks (serve store parse d (.put enc part body)).2 = tf.locks d :=
      (tf.put d _ body).2
    rw [hlocks] at hgone
    exact absurd h hgone
  | delete enc part => exact .inl ⟨enc, part, rfl⟩
  | lock enc part info' =>
    rw [serve_lock_held h] at hgone
    exact absurd h hgone
  | unlock enc part body =>
    rw [show TfRequest.key (.unlock enc part body) = tfStateKey enc part from rfl,
      locks_serve_unlock h hid] at hgone
    refine .inr ⟨enc, part, body, rfl, ?_⟩
    by_contra hkept
    exact hgone (if_neg hkept)

theorem excludes_of_namesOrForces {d : store.Data} {req : TfRequest}
    (h : NamesOrForces tf parse d req) : Excludes tf parse d req where
  granted := by
    rintro enc part info rfl
    cases hheld : (tf.locks d)[tfStateKey enc part]? with
    | none => exact iff_of_true (serve_lock_free hheld).1 rfl
    | some holder =>
      rw [serve_lock_held hheld]
      exact iff_of_false (by simp) nofun
  taken := by
    rintro enc part info rfl hok
    cases hheld : (tf.locks d)[tfStateKey enc part]? with
    | none => rw [(serve_lock_free hheld).2.2, HashMap.get?_insert, if_pos rfl]
    | some holder =>
      rw [serve_lock_held hheld] at hok
      simp at hok
  refused := by
    rintro enc part info holder rfl hheld
    rw [serve_lock_held hheld]
  released := by
    intro key info x hheld hid hx hgone
    obtain rfl : key = req.key := by
      by_contra hkey
      rw [(serve_others d req hkey).1] at hgone
      exact hgone hheld
    obtain ⟨enc, part, rfl⟩ | ⟨enc, part, body, rfl, hbody⟩ := released_of_serve hheld hid hgone
    · exact .inl ⟨enc, part, rfl, rfl⟩
    refine .inr ⟨enc, part, body, rfl, rfl, ?_⟩
    rcases hbody with hempty | hname
    · refine (h enc part body info rfl hheld).imp_right fun ⟨y, hy, hnames⟩ => ?_
      exact absurd (hempty.symm.trans ((unlockId_eq_iff hy).mpr hnames)).symm hy
    · exact .inr ((unlockId_eq_iff hx).mp hname.symm)
  unnamed := by
    rintro enc part body info rfl hheld hbody hunnamed
    obtain hempty | ⟨y, hy, hnames⟩ := h enc part body info rfl hheld
    · exact absurd hempty hbody
    · exact absurd hnames (hunnamed y hy)
  others key hkey := serve_others d req hkey

/-- A request keeps to the protocol exactly where it names a lock or forces the release. -/
theorem excludes_iff (d : store.Data) (req : TfRequest) :
    Excludes tf parse d req ↔ NamesOrForces tf parse d req := by
  refine ⟨fun h => ?_, excludes_of_namesOrForces⟩
  rintro enc part body info rfl hheld
  by_cases hid : unlockId parse body = ""
  · refine .inl (by_contra fun hbody => ?_)
    have hkept := h.unnamed enc part body info rfl hheld hbody fun y hy hnames =>
      hy (((unlockId_eq_iff hy).mpr hnames).symm.trans hid)
    rw [locks_serve_force hheld hid] at hkept
    cases hkept
  · exact .inr ⟨_, hid, (unlockId_eq_iff hid).mp rfl⟩

end

/-! ## Sequences of requests -/

/-- **The lock protocol.** In each store the requests of a sequence keep to the protocol exactly
where every unlock request of a lock that is held names a lock or has no body. -/
theorem locks_exclude_iff (listing listing' : Listing) (text : Value → String)
    (parse : Bytes → Option Value) (reqs : List TfRequest) :
    (∀ inner, EachRequest (inMemoryStore listing) parse (Excludes (memoryTf listing) parse) inner
        reqs ↔
      EachRequest (inMemoryStore listing) parse (NamesOrForces (memoryTf listing) parse) inner
        reqs) ∧
    (∀ db, EachRequest redbStore parse (Excludes redbTf parse) db reqs ↔
      EachRequest redbStore parse (NamesOrForces redbTf parse) db reqs) ∧
    ∀ db, EachRequest (postgresStore listing' text) parse
        (Excludes (postgresTf listing' text) parse) db reqs ↔
      EachRequest (postgresStore listing' text) parse
        (NamesOrForces (postgresTf listing' text) parse) db reqs :=
  ⟨fun inner => eachRequest_iff excludes_iff inner reqs,
    fun db => eachRequest_iff excludes_iff db reqs,
    fun db => eachRequest_iff excludes_iff db reqs⟩

/-- Two clients: the second one's body is no JSON, and takes the lock of the first. -/
theorem lock_stolen : ¬EachRequest (inMemoryStore .byId) (fun _ => none)
    (Excludes (memoryTf .byId) fun _ => none) .empty
    [.lock "a" "p" (.object [("ID", .str "first")]), .unlock "a" "p" [120]] := by
  intro h
  obtain ⟨-, h, -⟩ := h
  obtain ⟨_, _, hreq, -⟩ | ⟨_, _, _, hreq, -, hbody | ⟨v, hv, -⟩⟩ :=
    h.released "a/p" (.object [("ID", .str "first")]) "first" rfl rfl (by decide) (by nofun)
  · cases hreq
  · cases hreq
    cases hbody
  · cases hv

end Nclav
