import Nclav.Domain.Types

/-!
# Documents of the configuration files

A scalar of a YAML document keeps its text beside what it stands for without a type: a reader
that wants a string takes the text, also of `5`, `true` or `~`, and one that wants a number takes
the number. The fields of a structure are the entries of a mapping; a field that it knows may
stand there once, others are passed over. Nothing written is the empty list and mapping.
-/

namespace Nclav

/-- What a scalar stands for without a type. -/
inductive ScalarKind : Type where
  | null
  | int (n : Int)
  /-- a boolean or a fraction -/
  | other
  /-- quoted, or nothing of the above -/
  | str
  deriving DecidableEq

/-- A YAML document, its aliases replaced. -/
inductive Yaml : Type where
  | scalar (text : String) (kind : ScalarKind)
  | seq (items : List Yaml)
  | mapping (entries : List (Yaml × Yaml))

namespace Yaml

/-- A scalar that is a string. -/
def str (s : String) : Yaml := .scalar s .str

/-- A mapping with these fields. -/
def record (fields : List (String × Yaml)) : Yaml :=
  .mapping (fields.map fun f => (.str f.1, f.2))

/-- `deserialize_str`: the text of any scalar. -/
def text : Yaml → Option String
  | .scalar s _ => some s
  | _ => none

/-- The `None` of an `Option`. -/
def isNull : Yaml → Bool
  | .scalar _ .null => true
  | _ => false

/-- Nothing is written. -/
def isEmpty : Yaml → Bool
  | .scalar s .null => s.isEmpty
  | _ => false

/-- What stands under a key, in order. -/
def values (v : Yaml) (k : String) : List Yaml :=
  match v with
  | .mapping entries => (entries.filter fun e => e.1.text = some k).map (·.2)
  | _ => []

/-- A structure with these fields can be read: every key is a scalar, and no field stands twice. -/
def isStruct (fields : List String) (v : Yaml) : Bool :=
  match v with
  | .mapping entries =>
    entries.all (·.1.text.isSome) && fields.all fun k => (v.values k).length ≤ 1
  | v => v.isEmpty

end Yaml

/-! ## Readers -/

section

variable {α : Type} (read : Yaml → Option α) (v : Yaml) (k : String)

/-- A required field. -/
def field : Option α := (v.values k).head?.bind read

/-- An `Option` field. -/
def optField : Option (Option α) :=
  match (v.values k).head? with
  | none => some none
  | some x => if x.isNull then some none else (read x).map some

/-- A field with `#[serde(default)]`. -/
def defaultField (dflt : α) : Option α :=
  match (v.values k).head? with
  | none => some dflt
  | some x => read x

end

def readStr : Yaml → Option String := Yaml.text

def readList {α : Type} (read : Yaml → Option α) : Yaml → Option (List α)
  | .seq vs => vs.mapM read
  | v => if v.isEmpty then some [] else none

/-- `u16`. -/
def readPort : Yaml → Option UInt16
  | .scalar _ (.int n) => if 0 ≤ n ∧ n < 65536 then some (UInt16.ofNat n.toNat) else none
  | _ => none

/-- A string-to-string mapping. Of two entries with one key the later one counts. -/
def readMap : Yaml → Option (HashMap String String)
  | .mapping entries =>
    entries.foldlM (fun m e => do
      let k ← readStr e.1
      let s ← readStr e.2
      return m.insert k s) ∅
  | v => if v.isEmpty then some ∅ else none

/-- `#[derive(Deserialize)]` on a structure with these fields. -/
def readStruct {α : Type} (fields : List String) (read : Yaml → Option α) (v : Yaml) : Option α :=
  if v.isStruct fields then read v else none

/-! ## Without a type -/

/-- A string where the reader is not told that it wants one. -/
def readText : Yaml → Option String
  | .scalar s .str => some s
  | _ => none

/-- The key of a buffered mapping, for a structure with the one field `k`: its name, or its
position. -/
def variantKey (k : String) : Yaml → Option String
  | .scalar s .str => some s
  | .scalar s (.int n) => if n = 0 then some k else if 0 < n then some s else none
  | _ => none

/-- A variant of an untagged enumeration that has one field, a string. -/
def readVariant (k : String) : Yaml → Option String
  | .mapping entries => do
    let fields ← entries.mapM fun e => (variantKey k e.1).map (·, e.2)
    match fields.filter (·.1 = k) with
    | [(_, x)] => readText x
    | _ => none
  | _ => none

/-! ## What was read -/

section

variable {α : Type} {read : Yaml → Option α} {v : Yaml} {k : String} {fields : List String}

theorem readStruct_eq_some {a : α} (h : readStruct fields read v = some a) :
    v.isStruct fields = true ∧ read v = some a := by
  rw [readStruct] at h
  split at h
  · rename_i hstruct
    exact ⟨hstruct, h⟩
  · cases h

theorem Yaml.length_values_of_isStruct (h : v.isStruct fields = true) (hk : k ∈ fields) :
    (v.values k).length ≤ 1 := by
  cases v with
  | mapping entries =>
    rw [isStruct, Bool.and_eq_true, List.all_eq_true, List.all_eq_true] at h
    exact of_decide_eq_true (h.2 k hk)
  | scalar s kind => exact Nat.zero_le 1
  | seq items => exact Nat.zero_le 1

theorem field_eq_some {a : α} (h : field read v k = some a) :
    ∃ x ∈ v.values k, read x = some a := by
  obtain ⟨x, hx, hread⟩ := Option.bind_eq_some_iff.mp h
  exact ⟨x, List.mem_of_mem_head? hx, hread⟩

/-- A field of a structure stands there once. -/
theorem values_eq_singleton {a : α} (hstruct : v.isStruct fields = true) (hk : k ∈ fields)
    (h : field read v k = some a) : ∃ x, v.values k = [x] ∧ read x = some a := by
  obtain ⟨x, hx, hread⟩ := field_eq_some h
  have hlength := Yaml.length_values_of_isStruct hstruct hk
  cases hvalues : v.values k with
  | nil => rw [hvalues] at hx; cases hx
  | cons y ys =>
    rw [hvalues, List.length_cons] at hlength
    obtain rfl : ys = [] := List.eq_nil_of_length_eq_zero (by omega)
    rw [hvalues] at hx
    obtain rfl := List.mem_singleton.mp hx
    exact ⟨x, rfl, hread⟩

end

end Nclav
