import Nclav.Serde.Value

/-!
# Decoding documents

Readers as serde derives them: a struct from the fields of an object, other fields being ignored, an
option from null or from a field that is missing, an enumeration from the name of a variant or from
an object with that one key, a map from an object. (A derived reader takes a sequence of the fields
for a struct too; that form is left out.) A reader that gives back what a writer wrote does so
through an option, a sequence and a map.
-/

namespace Serde

namespace Value

/-! ## Readers -/

section

variable {α : Type}

def readString : Value → Option String := asStr

def readBool : Value → Option Bool := asBool

/-- An integer of a type with these bounds. -/
def readInt (least greatest : Int) : Value → Option Int
  | .num n => if least ≤ n ∧ n ≤ greatest then some n else none
  | _ => none

/-- `u64`, and `usize` of 64 bits. -/
def readU64 (v : Value) : Option Nat := (readInt 0 (2 ^ 64 - 1) v).map Int.toNat

/-- `i32`. -/
def readI32 : Value → Option Int := readInt (-2 ^ 31) (2 ^ 31 - 1)

def readSeq (read : Value → Option α) : Value → Option (List α)
  | .arr vs => vs.mapM read
  | _ => none

/-- A field that has to be there. -/
def field (v : Value) (k : String) (read : Value → Option α) : Option α := (v.get? k).bind read

/-- What stands in an optional field, if it is there. -/
def readOpt (read : Value → Option α) : Option Value → Option (Option α)
  | none => some none
  | some .null => some none
  | some v => (read v).map some

def optField (v : Value) (k : String) (read : Value → Option α) : Option (Option α) :=
  v.asObject.bind fun _ => readOpt read (v.get? k)

/-- A field with `#[serde(default)]`. -/
def defaultField (v : Value) (k : String) (read : Value → Option α) (dflt : α) : Option α :=
  v.asObject.bind fun _ => match v.get? k with
    | none => some dflt
    | some v => read v

/-- An enumeration without data. -/
def readUnit (variants : List (String × α)) : Value → Option α
  | .str s => variants.lookup s
  | .obj [(s, .null)] => variants.lookup s
  | _ => none

/-- A map, with what its keys are read as. -/
def readEntries {K : Type} [Ord K] [Std.TransOrd K] (key : String → K) (read : Value → Option α) :
    Value → Option (Std.ExtTreeMap K α compare)
  | .obj fields =>
    (fields.mapM fun f => (read f.2).map fun a => (key f.1, a)).map fun entries =>
      Std.ExtTreeMap.ofList entries compare
  | _ => none

end

/-! ## Writers -/

section

variable {α : Type}

/-- An option: null when absent. -/
def ofOption (write : α → Value) : Option α → Value
  | none => .null
  | some a => write a

/-- A map, with the texts of its keys. -/
def ofMap {K : Type} [Ord K] [Std.TransOrd K] (key : K → String) (write : K → α → Value)
    (m : Std.ExtTreeMap K α compare) : Value :=
  object (m.toList.map fun e => (key e.1, write e.1 e.2))

end

/-! ## What was written is read back -/

section

variable {α : Type} {read : Value → Option α} {write : α → Value} {fields : List (String × Value)}
  {k : String}

@[simp] theorem field_object : (object fields).field k read = (fields.lookup k).bind read := by
  rw [field, get?_object]

@[simp] theorem optField_object :
    (object fields).optField k read = readOpt read (fields.lookup k) := by
  rw [optField, get?_object]
  rfl

@[simp] theorem defaultField_object {dflt : α} :
    (object fields).defaultField k read dflt =
      match fields.lookup k with
      | none => some dflt
      | some v => read v := by
  rw [defaultField, get?_object]
  rfl

@[simp] theorem readString_str (s : String) : readString (.str s) = some s := rfl

@[simp] theorem readBool_bool (b : Bool) : readBool (.bool b) = some b := rfl

theorem readInt_num {least greatest n : Int} (h : least ≤ n ∧ n ≤ greatest) :
    readInt least greatest (.num n) = some n := if_pos h

theorem readU64_num {n : Nat} (h : n < 2 ^ 64) : readU64 (.num n) = some n := by
  have hbounds : (0 : Int) ≤ n ∧ (n : Int) ≤ 2 ^ 64 - 1 := by omega
  rw [readU64, readInt_num hbounds]
  rfl

theorem readI32_num {n : Int} (h : -2 ^ 31 ≤ n ∧ n ≤ 2 ^ 31 - 1) : readI32 (.num n) = some n :=
  readInt_num h

theorem readOpt_ofOption {o : Option α}
    (h : ∀ a, o = some a → write a ≠ .null ∧ read (write a) = some a) :
    readOpt read (some (ofOption write o)) = some o := by
  cases o with
  | none => rfl
  | some a =>
    obtain ⟨hnull, hread⟩ := h a rfl
    have hsome : readOpt read (some (write a)) = (read (write a)).map some := by
      rcases hwrite : write a with _ | _ | _ | _ | _ | _
      · exact absurd hwrite hnull
      all_goals rfl
    rw [ofOption, hsome, hread]
    rfl

@[simp] theorem readOpt_str (o : Option String) :
    readOpt readString (some (ofOption .str o)) = some o :=
  readOpt_ofOption fun _ _ => ⟨nofun, rfl⟩

theorem readSeq_map {as : List α} {β : Type} {write : α → Value} {read : Value → Option β}
    {f : α → β} (h : ∀ a ∈ as, read (write a) = some (f a)) :
    readSeq read (.arr (as.map write)) = some (as.map f) := by
  show (as.map write).mapM read = some (as.map f)
  induction as with
  | nil => rfl
  | cons a as ih =>
    rw [List.map_cons, List.mapM_cons, h a (List.mem_cons_self ..),
      ih fun a' ha' => h a' (List.mem_cons_of_mem _ ha')]
    rfl

theorem readSeq_self {as : List α} {write : α → Value} {read : Value → Option α}
    (h : ∀ a, read (write a) = some a) : readSeq read (.arr (as.map write)) = some as := by
  have hread : readSeq read (.arr (as.map write)) = some (as.map fun a => a) :=
    readSeq_map fun a _ => h a
  rw [List.map_id'] at hread
  exact hread

end

/-! ### Maps -/

section

variable {K α β : Type} [Ord K] [Std.TransOrd K] [Std.LawfulEqOrd K] [DecidableEq K]

/-- Fields in the order of their keys stay where they are. -/
theorem object_of_sorted {fields : List (String × Value)}
    (h : fields.Pairwise fun a b => a.1 < b.1) : object fields = .obj fields := by
  rw [object]
  congr 1
  induction fields with
  | nil => rfl
  | cons f fields ih =>
    obtain ⟨hfirst, hrest⟩ := List.pairwise_cons.mp h
    rw [List.foldr_cons, ih hrest]
    cases fields with
    | nil => rfl
    | cons f' fields =>
      have hlt : f.1 < f'.1 := hfirst f' (List.mem_cons_self ..)
      rw [insertField, if_neg fun heq => String.lt_irrefl _ (heq ▸ hlt), if_pos hlt]

/-- A map is the one of its entries. -/
theorem ofList_toList (m : Std.ExtTreeMap K α compare) :
    Std.ExtTreeMap.ofList m.toList compare = m := by
  refine Std.ExtTreeMap.ext_getElem? fun k => ?_
  rcases hv : m[k]? with _ | v
  · refine Std.ExtTreeMap.getElem?_ofList_of_contains_eq_false ?_
    rw [Bool.eq_false_iff, Ne, List.contains_iff_mem, Std.ExtTreeMap.map_fst_toList_eq_keys,
      Std.ExtTreeMap.mem_keys, Std.ExtTreeMap.mem_iff_isSome_getElem?, hv]
    exact Bool.false_ne_true
  · exact Std.ExtTreeMap.getElem?_ofList_of_mem Std.ReflCmp.compare_self
      Std.ExtTreeMap.distinct_keys_toList (Std.ExtTreeMap.mem_toList_iff_getElem?_eq_some.mpr hv)

theorem readEntries_ofMap {key : K → String} {unkey : String → K} {write : K → α → Value}
    {read : Value → Option β} {f : K → α → β} {m : Std.ExtTreeMap K α compare}
    (hkey : ∀ a b : K, compare a b = .lt → key a < key b) (hunkey : ∀ k, unkey (key k) = k)
    (hread : ∀ k a, m[k]? = some a → read (write k a) = some (f k a)) :
    readEntries unkey read (ofMap key write m) = some (m.map f) := by
  have hsorted : (m.toList.map fun e => (key e.1, write e.1 e.2)).Pairwise fun a b => a.1 < b.1 :=
    List.pairwise_map.mpr (Std.ExtTreeMap.ordered_keys_toList.imp fun h => hkey _ _ h)
  have hentries : ∀ es : List (K × α), (∀ e ∈ es, read (write e.1 e.2) = some (f e.1 e.2)) →
      (es.map fun e => (key e.1, write e.1 e.2)).mapM
        (fun g : String × Value => (read g.2).map fun a => (unkey g.1, a)) =
      some (es.map fun e => (e.1, f e.1 e.2)) := by
    intro es hes
    induction es with
    | nil => rfl
    | cons e es ih =>
      rw [List.map_cons, List.mapM_cons, hes e (List.mem_cons_self ..),
        ih fun e' he' => hes e' (List.mem_cons_of_mem _ he'), hunkey]
      rfl
  rw [ofMap, object_of_sorted hsorted, readEntries, hentries _ fun e he =>
    hread e.1 e.2 (Std.ExtTreeMap.mem_toList_iff_getElem?_eq_some.mp he), Option.map_some,
    ← Std.ExtTreeMap.toList_map, ofList_toList]

omit [DecidableEq K] in
/-- A map is what it is mapped to by nothing. -/
theorem map_id_eq (m : Std.ExtTreeMap K α compare) : m.map (fun _ a => a) = m := by
  refine Std.ExtTreeMap.ext_getElem? fun k => ?_
  rw [Std.ExtTreeMap.getElem?_map, Option.map_id']

end

end Value

end Serde
