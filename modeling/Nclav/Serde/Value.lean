import Mathlib

/-!
# Untyped documents

The document type that JSON and YAML values share (floating-point numbers left out): null,
booleans, integers, strings, sequences and string-keyed objects. An object is built with
`object`, which keeps its fields sorted by key with one field per key, as a `BTreeMap`
does; `get?` reads a field and `set` writes one.
-/

namespace Serde

/-- A JSON or YAML document. -/
inductive Value : Type where
  | null
  | bool : Bool → Value
  | num : Int → Value
  | str : String → Value
  | arr : List Value → Value
  | obj : List (String × Value) → Value
  deriving Inhabited

namespace Value

/-! ## Decidable equality

The deriving handler does not reach through the nested lists. -/

mutual

/-- Decide equality of documents. -/
def decEq : (a b : Value) → Decidable (a = b)
  | .null, .null => isTrue rfl
  | .bool a, .bool b => decidable_of_iff (a = b) (by simp)
  | .num a, .num b => decidable_of_iff (a = b) (by simp)
  | .str a, .str b => decidable_of_iff (a = b) (by simp)
  | .arr a, .arr b => @decidable_of_iff _ (a = b) (by simp) (decEqList a b)
  | .obj a, .obj b => @decidable_of_iff _ (a = b) (by simp) (decEqFields a b)
  | .null, .bool _ | .null, .num _ | .null, .str _ | .null, .arr _ | .null, .obj _
  | .bool _, .null | .bool _, .num _ | .bool _, .str _ | .bool _, .arr _ | .bool _, .obj _
  | .num _, .null | .num _, .bool _ | .num _, .str _ | .num _, .arr _ | .num _, .obj _
  | .str _, .null | .str _, .bool _ | .str _, .num _ | .str _, .arr _ | .str _, .obj _
  | .arr _, .null | .arr _, .bool _ | .arr _, .num _ | .arr _, .str _ | .arr _, .obj _
  | .obj _, .null | .obj _, .bool _ | .obj _, .num _ | .obj _, .str _ | .obj _, .arr _ =>
    isFalse (by simp)

/-- Decide equality of sequences. -/
def decEqList : (a b : List Value) → Decidable (a = b)
  | [], [] => isTrue rfl
  | a :: as, b :: bs =>
    @decidable_of_iff _ (a = b ∧ as = bs) (by simp)
      (@instDecidableAnd _ _ (decEq a b) (decEqList as bs))
  | [], _ :: _ | _ :: _, [] => isFalse (by simp)

/-- Decide equality of field lists. -/
def decEqFields : (a b : List (String × Value)) → Decidable (a = b)
  | [], [] => isTrue rfl
  | (k, a) :: as, (k', b) :: bs =>
    @decidable_of_iff _ (k = k' ∧ a = b ∧ as = bs) (by simp [and_assoc])
      (@instDecidableAnd _ _ _ (@instDecidableAnd _ _ (decEq a b) (decEqFields as bs)))
  | [], _ :: _ | _ :: _, [] => isFalse (by simp)

end

instance : DecidableEq Value := decEq

/-! ## Objects -/

/-- Insert a field into a field list sorted by key; a field of the same key is replaced. -/
def insertField (k : String) (v : Value) : List (String × Value) → List (String × Value)
  | [] => [(k, v)]
  | (k', v') :: rest =>
    if k = k' then (k, v) :: rest
    else if k < k' then (k, v) :: (k', v') :: rest
    else (k', v') :: insertField k v rest

/-- The object with the given fields. -/
def object (fields : List (String × Value)) : Value :=
  .obj (fields.foldr (fun f acc => insertField f.1 f.2 acc) [])

/-- The field `k` of an object; `none` for any other document. -/
def get? : Value → String → Option Value
  | .obj fields, k => fields.lookup k
  | _, _ => none

/-- `v[k]`: the field, or null. -/
def idx (v : Value) (k : String) : Value := (v.get? k).getD .null

def asStr : Value → Option String
  | .str s => some s
  | _ => none

def asBool : Value → Option Bool
  | .bool b => some b
  | _ => none

def asArray : Value → Option (List Value)
  | .arr vs => some vs
  | _ => none

def asObject : Value → Option (List (String × Value))
  | .obj fields => some fields
  | _ => none

/-- `v[k] = x`: null becomes an object first, and a document that is no object stays as it
is (there the indexing panics). -/
def set (v : Value) (k : String) (x : Value) : Value :=
  match v with
  | .obj fields => .obj (insertField k x fields)
  | .null => .obj [(k, x)]
  | v => v

theorem lookup_cons_eq_ite (k k₀ : String) (v₀ : Value) (rest : List (String × Value)) :
    List.lookup k ((k₀, v₀) :: rest) = if k = k₀ then some v₀ else rest.lookup k := by
  by_cases h : k = k₀
  · simp [h]
  · have hne : (k == k₀) = false := by simpa using h
    rw [if_neg h, List.lookup, hne]

theorem lookup_insertField (k k' : String) (v : Value) (fields : List (String × Value)) :
    (insertField k v fields).lookup k' = if k' = k then some v else fields.lookup k' := by
  induction fields with
  | nil => rw [insertField, lookup_cons_eq_ite]
  | cons f rest ih =>
    obtain ⟨k₀, v₀⟩ := f
    rw [insertField]
    by_cases h₁ : k = k₀
    · subst h₁
      rw [if_pos rfl, lookup_cons_eq_ite, lookup_cons_eq_ite]
      by_cases h : k' = k
      · rw [if_pos h, if_pos h]
      · rw [if_neg h, if_neg h, if_neg h]
    · rw [if_neg h₁]
      by_cases h₂ : k < k₀
      · rw [if_pos h₂, lookup_cons_eq_ite]
      · rw [if_neg h₂, lookup_cons_eq_ite, lookup_cons_eq_ite, ih]
        by_cases h : k' = k₀
        · subst h
          rw [if_pos rfl, if_neg (Ne.symm h₁), if_pos rfl]
        · rw [if_neg h, if_neg h]

@[simp] theorem get?_object (fields : List (String × Value)) (k : String) :
    (object fields).get? k = fields.lookup k := by
  change (fields.foldr (fun f acc => insertField f.1 f.2 acc) []).lookup k = fields.lookup k
  induction fields with
  | nil => rfl
  | cons f rest ih =>
    obtain ⟨k₀, v₀⟩ := f
    rw [List.foldr_cons, lookup_insertField, ih, lookup_cons_eq_ite]

theorem idx_object (fields : List (String × Value)) (k : String) :
    (object fields).idx k = (fields.lookup k).getD .null := by
  rw [idx, get?_object]

theorem get?_set (fields : List (String × Value)) (k k' : String) (x : Value) :
    ((obj fields).set k x).get? k' = if k' = k then some x else (obj fields).get? k' :=
  lookup_insertField k k' x fields

theorem idx_set_object (fields : List (String × Value)) (k k' : String) (x : Value) :
    ((object fields).set k x).idx k' = if k' = k then x else (object fields).idx k' := by
  rw [idx, show ((object fields).set k x).get? k' =
    if k' = k then some x else (object fields).get? k' from get?_set _ k k' x]
  split <;> rfl

/-! ## Sorting the keys at every level -/

mutual

/-- The document with the fields of every object in it sorted by key. -/
def sortKeys : Value → Value
  | .obj fields => object (sortKeysFields fields)
  | .arr vs => .arr (sortKeysList vs)
  | .null => .null
  | .bool b => .bool b
  | .num n => .num n
  | .str s => .str s

/-- `sortKeys` over a sequence. -/
def sortKeysList : List Value → List Value
  | [] => []
  | v :: vs => sortKeys v :: sortKeysList vs

/-- `sortKeys` over the fields of an object. -/
def sortKeysFields : List (String × Value) → List (String × Value)
  | [] => []
  | (k, v) :: fields => (k, sortKeys v) :: sortKeysFields fields

end

theorem sortKeysList_eq_map (vs : List Value) : sortKeysList vs = vs.map sortKeys := by
  induction vs with
  | nil => rfl
  | cons v vs ih => rw [sortKeysList, ih, List.map_cons]

theorem lookup_sortKeysFields (fields : List (String × Value)) (k : String) :
    (sortKeysFields fields).lookup k = (fields.lookup k).map sortKeys := by
  induction fields with
  | nil => rfl
  | cons f rest ih =>
    obtain ⟨k₀, v₀⟩ := f
    rw [sortKeysFields, lookup_cons_eq_ite, lookup_cons_eq_ite, ih]
    by_cases h : k = k₀
    · rw [if_pos h, if_pos h, Option.map_some]
    · rw [if_neg h, if_neg h]

/-- Sorting the keys sorts the field read, and moves none. -/
theorem get?_sortKeys (v : Value) (k : String) :
    (sortKeys v).get? k = (v.get? k).map sortKeys := by
  cases v with
  | obj fields =>
    rw [sortKeys, get?_object]
    exact lookup_sortKeysFields fields k
  | _ => rfl

end Value

end Serde
