import Mathlib

/-!
# The bytes of a text

The size of a text in UTF-8, against its number of characters; what its first bytes are, where they
end at a character.
-/

namespace Text

/-- The bytes of a text. -/
def byteSize (cs : List Char) : Nat := (cs.map Char.utf8Size).sum

@[simp] theorem byteSize_append (cs ds : List Char) :
    byteSize (cs ++ ds) = byteSize cs + byteSize ds := by
  rw [byteSize, List.map_append, List.sum_append]
  rfl

@[simp] theorem byteSize_cons (c : Char) (cs : List Char) :
    byteSize (c :: cs) = c.utf8Size + byteSize cs := by
  rw [byteSize, List.map_cons, List.sum_cons]
  rfl

theorem utf8ByteSize_ofList (cs : List Char) : (String.ofList cs).utf8ByteSize = byteSize cs := by
  induction cs with
  | nil => rfl
  | cons c cs ih =>
    have hsplit : String.ofList (c :: cs) = String.ofList [c] ++ String.ofList cs := by
      rw [← String.ofList_append]
      rfl
    have hsingle : String.ofList [c] = String.singleton c := by
      rw [← String.toList_inj]
      simp
    rw [hsplit, String.utf8ByteSize_append, ih, hsingle, String.utf8ByteSize_singleton,
      byteSize_cons]

theorem utf8ByteSize_eq (s : String) : s.utf8ByteSize = byteSize s.toList := by
  rw [← utf8ByteSize_ofList, String.ofList_toList]

/-- A character of ASCII. -/
def IsAscii (c : Char) : Prop := c.toNat < 128

instance (c : Char) : Decidable (IsAscii c) := inferInstanceAs (Decidable (c.toNat < 128))

theorem utf8Size_eq_one {c : Char} : c.utf8Size = 1 ↔ IsAscii c := by
  rw [Char.utf8Size_eq_one_iff, IsAscii, UInt32.le_iff_toNat_le]
  exact Nat.lt_succ_iff.symm

theorem length_le_byteSize (cs : List Char) : cs.length ≤ byteSize cs := by
  induction cs with
  | nil => exact Nat.le_refl _
  | cons c cs ih =>
    have hpos := c.utf8Size_pos
    rw [byteSize_cons, List.length_cons]
    omega

/-- A text has as many bytes as characters when it is ASCII. -/
theorem byteSize_eq_length {cs : List Char} : byteSize cs = cs.length ↔ ∀ c ∈ cs, IsAscii c := by
  induction cs with
  | nil => exact ⟨fun _ => List.forall_mem_nil _, fun _ => rfl⟩
  | cons c cs ih =>
    have hpos := c.utf8Size_pos
    have hle := length_le_byteSize cs
    rw [List.forall_mem_cons, ← ih, ← utf8Size_eq_one, byteSize_cons, List.length_cons]
    omega

/-- The first `n` bytes of the text are these characters. -/
def Cuts (n : Nat) (cs taken : List Char) : Prop := taken <+: cs ∧ byteSize taken = n

/-- Two beginnings with as many bytes are one. -/
theorem Cuts.unique {n : Nat} {cs taken taken' : List Char} (h : Cuts n cs taken)
    (h' : Cuts n cs taken') : taken = taken' := by
  have hshort : ∀ {a b : List Char}, a <+: b → byteSize a = byteSize b → a = b := by
    rintro a _ ⟨rest, rfl⟩ hsize
    have hle := length_le_byteSize rest
    rw [byteSize_append] at hsize
    rw [List.eq_nil_of_length_eq_zero (by omega : rest.length = 0), List.append_nil]
  rcases List.prefix_or_prefix_of_prefix h.1 h'.1 with hle | hle
  · exact hshort hle (h.2.trans h'.2.symm)
  · exact (hshort hle (h'.2.trans h.2.symm)).symm

end Text
