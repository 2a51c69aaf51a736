import Mathlib

/-!
# Form bodies

`application/x-www-form-urlencoded`: pairs with `&` between them, a key and a value with the first
`=` between them. In each `+` is a space and `%XX` a byte, and the bytes are UTF-8.

A text that escapes some bytes (`Escapes`) is read as these bytes and has no separator in it, so that
a body of such values is read back pair by pair.
-/

namespace Form

/-! ## Bytes -/

/-- The UTF-8 of a text. -/
def utf8 (cs : List Char) : List UInt8 := cs.flatMap String.utf8EncodeChar

def fromUtf8 (bs : List UInt8) : Option String := String.fromUTF8? bs.toByteArray

theorem fromUtf8_utf8 (s : String) : fromUtf8 (utf8 s.toList) = some s := by
  have hbytes : (utf8 s.toList).toByteArray = s.toByteArray := String.utf8Encode_toList
  rw [fromUtf8, hbytes, String.fromUTF8?, dif_pos s.isValidUTF8]
  rfl

theorem utf8_injective : Function.Injective fun s : String => utf8 s.toList := by
  intro s t h
  have hread := congrArg fromUtf8 h
  simp only [fromUtf8_utf8] at hread
  exact Option.some.inj hread

/-! ## Reading -/

/-- The digit of a half byte. -/
def hexDigit (n : Nat) : Char := Char.ofNat (if n < 10 then 0x30 + n else 0x41 + (n - 10))

/-- The half byte of a digit. -/
def hexValue (c : Char) : Option Nat :=
  if '0' ≤ c ∧ c ≤ '9' then some (c.toNat - 0x30)
  else if 'A' ≤ c ∧ c ≤ 'F' then some (c.toNat - 0x41 + 10)
  else if 'a' ≤ c ∧ c ≤ 'f' then some (c.toNat - 0x61 + 10)
  else none

/-- The bytes of an escaped text. A sign without two digits behind it stands for itself. -/
def unescape : List Char → List UInt8
  | [] => []
  | '%' :: hi :: lo :: rest =>
    match hexValue hi, hexValue lo with
    | some a, some b => UInt8.ofNat (16 * a + b) :: unescape rest
    | _, _ => 0x25 :: unescape (hi :: lo :: rest)
  | c :: rest => (if c = '+' then [0x20] else String.utf8EncodeChar c) ++ unescape rest

/-- A key and its value. -/
def decodePair (piece : List Char) : Option (String × String) := do
  let key ← fromUtf8 (unescape (piece.takeWhile (· ≠ '=')))
  let value ← fromUtf8 (unescape ((piece.dropWhile (· ≠ '=')).drop 1))
  return (key, value)

/-- The pairs of a body; nothing between two `&` is no pair. -/
def decode (body : String) : Option (List (String × String)) :=
  ((body.toList.splitOn '&').filter (· ≠ [])).mapM decodePair

theorem hexValue_hexDigit {n : Nat} (h : n < 16) : hexValue (hexDigit n) = some n := by
  revert n
  decide

theorem unescape_cons {c : Char} {rest : List Char} (h : c ≠ '%') :
    unescape (c :: rest) =
      (if c = '+' then [0x20] else String.utf8EncodeChar c) ++ unescape rest := by
  rw [unescape]
  rintro hi lo rest' rfl
  exact absurd rfl h

/-- A text without signs is read as its own bytes. -/
theorem unescape_of_not_mem {cs : List Char} (hplus : '+' ∉ cs) (hpercent : '%' ∉ cs) :
    unescape cs = utf8 cs := by
  induction cs with
  | nil => rfl
  | cons c rest ih =>
    have hc : c ≠ '%' := fun h => hpercent (h ▸ List.mem_cons_self)
    have hc' : c ≠ '+' := fun h => hplus (h ▸ List.mem_cons_self)
    rw [unescape_cons hc, if_neg hc', ih (fun h => hplus (List.mem_cons_of_mem _ h))
      fun h => hpercent (List.mem_cons_of_mem _ h)]
    rfl

/-! ## Escaped texts -/

/-- Letters and digits of ASCII, and four signs. -/
def isUnreserved (c : Char) : Bool :=
  c.isAlphanum || c = '-' || c = '_' || c = '.' || c = '~'

/-- The text is made of unreserved characters, `+` and escapes, and stands for the bytes. -/
inductive Escapes : List Char → List UInt8 → Prop
  | nil : Escapes [] []
  | unreserved {c : Char} {cs : List Char} {bs : List UInt8} (hc : isUnreserved c = true)
      (h : Escapes cs bs) : Escapes (c :: cs) (UInt8.ofNat c.toNat :: bs)
  | space {cs : List Char} {bs : List UInt8} (h : Escapes cs bs) :
      Escapes ('+' :: cs) (0x20 :: bs)
  | escape {cs : List Char} {bs : List UInt8} (b : UInt8) (h : Escapes cs bs) :
      Escapes ('%' :: hexDigit (b.toNat / 16) :: hexDigit (b.toNat % 16) :: cs) (b :: bs)

section

variable {cs cs' : List Char} {bs bs' : List UInt8}

theorem Escapes.append (h : Escapes cs bs) (h' : Escapes cs' bs') :
    Escapes (cs ++ cs') (bs ++ bs') := by
  induction h with
  | nil => exact h'
  | unreserved hc _ ih => exact .unreserved hc ih
  | space _ ih => exact .space ih
  | escape b _ ih => exact .escape b ih

theorem lt_of_isUnreserved {c : Char} (hc : isUnreserved c = true) : c.toNat < 128 := by
  have hval : c.val.toNat = c.toNat := rfl
  have hZ : 'Z'.val.toNat = 90 := rfl
  have hz : 'z'.val.toNat = 122 := rfl
  have h9 : '9'.val.toNat = 57 := rfl
  simp only [isUnreserved, Char.isAlphanum, Char.isAlpha, Char.isUpper, Char.isLower, Char.isDigit,
    Bool.or_eq_true, Bool.and_eq_true, decide_eq_true_iff, ge_iff_le, UInt32.le_iff_toNat_le] at hc
  rcases hc with (((hc | rfl) | rfl) | rfl) | rfl
  · omega
  all_goals decide

/-- A byte of ASCII is its character. -/
theorem utf8EncodeChar_of_lt {c : Char} (h : c.toNat < 128) :
    String.utf8EncodeChar c = [UInt8.ofNat c.toNat] := by
  have hle : c.val.toNat ≤ 0x7f := Nat.le_of_lt_succ h
  rw [String.utf8EncodeChar]
  exact if_pos hle

theorem Escapes.unescape (h : Escapes cs bs) : Form.unescape cs = bs := by
  induction h with
  | nil => rfl
  | unreserved hc _ ih =>
    rename_i c cs bs _
    have hpercent : c ≠ '%' := by
      rintro rfl
      exact absurd hc (by decide)
    have hplus : c ≠ '+' := by
      rintro rfl
      exact absurd hc (by decide)
    rw [unescape_cons hpercent, if_neg hplus, utf8EncodeChar_of_lt (lt_of_isUnreserved hc), ih]
    rfl
  | space _ ih =>
    rw [unescape_cons (by decide), if_pos rfl, ih]
    rfl
  | escape b _ ih =>
    have hhi : b.toNat / 16 < 16 := by
      have hb := b.toNat_lt
      omega
    have hlo : b.toNat % 16 < 16 := Nat.mod_lt _ (by decide)
    rw [Form.unescape, hexValue_hexDigit hhi, hexValue_hexDigit hlo]
    simp only [ih, Nat.div_add_mod, UInt8.ofNat_toNat]

theorem hexDigit_ne {n : Nat} (h : n < 16) : hexDigit n ≠ '&' ∧ hexDigit n ≠ '=' := by
  revert n
  decide

/-- No separator is in an escaped text. -/
theorem Escapes.ne_separator (h : Escapes cs bs) {c : Char} (hc : c ∈ cs) : c ≠ '&' ∧ c ≠ '=' := by
  induction h with
  | nil => cases hc
  | unreserved hd _ ih =>
    rcases List.mem_cons.mp hc with rfl | hc
    · constructor
      · rintro rfl
        exact absurd hd (by decide)
      · rintro rfl
        exact absurd hd (by decide)
    · exact ih hc
  | space _ ih =>
    rcases List.mem_cons.mp hc with rfl | hc
    · decide
    · exact ih hc
  | escape b _ ih =>
    have hhi : b.toNat / 16 < 16 := by
      have hb := b.toNat_lt
      omega
    rcases List.mem_cons.mp hc with rfl | hc
    · decide
    rcases List.mem_cons.mp hc with rfl | hc
    · exact hexDigit_ne hhi
    rcases List.mem_cons.mp hc with rfl | hc
    · exact hexDigit_ne (Nat.mod_lt _ (by decide))
    · exact ih hc

end

/-! ## Bodies -/

/-- A key that may stand in a body as it is. -/
def PlainKey (key : String) : Prop :=
  '&' ∉ key.toList ∧ '=' ∉ key.toList ∧ '+' ∉ key.toList ∧ '%' ∉ key.toList

theorem decodePair_append {key value : String} {cs : List Char} (hkey : PlainKey key)
    (h : Escapes cs (utf8 value.toList)) :
    decodePair (key.toList ++ '=' :: cs) = some (key, value) := by
  have hstop : ∀ c ∈ key.toList, decide (c ≠ '=') = true :=
    fun c hc => decide_eq_true fun heq => hkey.2.1 (heq ▸ hc)
  have hfront : (key.toList ++ '=' :: cs).takeWhile (· ≠ '=') = key.toList := by
    rw [List.takeWhile_append_of_pos hstop]
    simp
  have hback : (key.toList ++ '=' :: cs).dropWhile (· ≠ '=') = '=' :: cs := by
    rw [List.dropWhile_append_of_pos hstop]
    simp
  rw [decodePair, hfront, hback, List.drop_succ_cons, List.drop_zero,
    unescape_of_not_mem hkey.2.2.1 hkey.2.2.2, h.unescape, fromUtf8_utf8, fromUtf8_utf8]
  rfl

/-- **A body is read back**, where the keys are plain and the values are escaped. -/
theorem decode_intercalate {params : List (String × String)} {encode : String → List Char}
    (hkeys : ∀ kv ∈ params, PlainKey kv.1)
    (hencode : ∀ value, Escapes (encode value) (utf8 value.toList)) {body : String}
    (hbody : body.toList =
      ['&'].intercalate (params.map fun kv => kv.1.toList ++ '=' :: encode kv.2)) :
    decode body = some params := by
  have hpieces : ∀ piece ∈ params.map fun kv => kv.1.toList ++ '=' :: encode kv.2, '&' ∉ piece := by
    intro piece hpiece hmem
    obtain ⟨kv, hkv, rfl⟩ := List.mem_map.mp hpiece
    rcases List.mem_append.mp hmem with hmem | hmem
    · exact (hkeys kv hkv).1 hmem
    rcases List.mem_cons.mp hmem with heq | hmem
    · exact absurd heq (by decide)
    · exact ((hencode kv.2).ne_separator hmem).1 rfl
  have hfull : ∀ piece ∈ params.map fun kv => kv.1.toList ++ '=' :: encode kv.2,
      decide (piece ≠ []) = true := by
    intro piece hpiece
    obtain ⟨kv, -, rfl⟩ := List.mem_map.mp hpiece
    exact decide_eq_true (by simp)
  rw [decode, hbody]
  rcases hparams : params with _ | ⟨kv, rest⟩
  · rfl
  · rw [← hparams, List.splitOn_intercalate '&' hpieces (by simp [hparams]),
      List.filter_eq_self.mpr hfull, List.mapM_map]
    have hread : ∀ kv ∈ params, decodePair (kv.1.toList ++ '=' :: encode kv.2) = some kv :=
      fun kv hkv => decodePair_append (hkeys kv hkv) (hencode kv.2)
    clear hparams hpieces hfull hbody hkeys
    induction params with
    | nil => rfl
    | cons kv params ih =>
      rw [List.mapM_cons, Function.comp_apply, hread kv List.mem_cons_self,
        ih fun kv' hkv => hread kv' (List.mem_cons_of_mem _ hkv)]
      rfl

end Form
