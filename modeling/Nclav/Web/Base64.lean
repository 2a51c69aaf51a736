import Mathlib

/-!
# Base64

The standard alphabet, three bytes to four digits, the last group padded. The reader is strict: it
wants the padding, and zeros where a digit has more bits than its bytes need. So a text is read to
some bytes just when it is the one that these bytes are written as.
-/

namespace Base64

def alphabet : List Char :=
  "ABCDEFGHIJKLMNOPQRSTUVWXYZabcdefghijklmnopqrstuvwxyz0123456789+/".toList

/-- The digit of six bits. -/
def digit (n : Nat) : Char := alphabet.getD n '='

/-- The six bits of a digit. -/
def value? (c : Char) : Option Nat := if c ∈ alphabet then some (alphabet.idxOf c) else none

def encode : List UInt8 → List Char
  | [] => []
  | [a] => [digit (a.toNat / 4), digit (a.toNat % 4 * 16), '=', '=']
  | [a, b] => [digit (a.toNat / 4), digit (a.toNat % 4 * 16 + b.toNat / 16),
      digit (b.toNat % 16 * 4), '=']
  | a :: b :: c :: rest => digit (a.toNat / 4) :: digit (a.toNat % 4 * 16 + b.toNat / 16) ::
      digit (b.toNat % 16 * 4 + c.toNat / 64) :: digit (c.toNat % 64) :: encode rest

/-- Four digits, and no padding. -/
def quad (w x y z : Char) : Option (List UInt8) := do
  let i ← value? w
  let j ← value? x
  let k ← value? y
  let l ← value? z
  return [UInt8.ofNat (i * 4 + j / 16), UInt8.ofNat (j % 16 * 16 + k / 4),
    UInt8.ofNat (k % 4 * 64 + l)]

/-- The last group. -/
def lastQuad (w x y z : Char) : Option (List UInt8) :=
  if z ≠ '=' then quad w x y z
  else if y ≠ '=' then do
    let i ← value? w
    let j ← value? x
    let k ← value? y
    if k % 4 = 0 then return [UInt8.ofNat (i * 4 + j / 16), UInt8.ofNat (j % 16 * 16 + k / 4)]
    else none
  else do
    let i ← value? w
    let j ← value? x
    if j % 16 = 0 then return [UInt8.ofNat (i * 4 + j / 16)] else none

def decode : List Char → Option (List UInt8)
  | [] => some []
  | [w, x, y, z] => lastQuad w x y z
  | w :: x :: y :: z :: rest => do
    let bs ← quad w x y z
    let tail ← decode rest
    return bs ++ tail
  | _ => none

/-! ## Digits -/

theorem nodup_alphabet : alphabet.Nodup := by decide

theorem value?_digit {n : Nat} (h : n < 64) : value? (digit n) = some n := by
  have hn : n < alphabet.length := h
  rw [digit, List.getD_eq_getElem _ _ hn, value?, if_pos (List.getElem_mem hn),
    nodup_alphabet.idxOf_getElem]

theorem value?_eq_some {c : Char} {n : Nat} : value? c = some n ↔ n < 64 ∧ digit n = c := by
  refine ⟨fun h => ?_, fun h => ?_⟩
  · rw [value?] at h
    split at h
    · rename_i hc
      obtain rfl := Option.some.inj h
      have hlt := List.idxOf_lt_length_iff.mpr hc
      refine ⟨hlt, ?_⟩
      rw [digit, List.getD_eq_getElem _ _ hlt, List.getElem_idxOf]
    · cases h
  · rw [← h.2]
    exact value?_digit h.1

theorem digit_ne {n : Nat} (h : n < 64) : digit n ≠ '=' := by
  intro hpad
  have hvalue := value?_digit h
  rw [hpad] at hvalue
  cases hvalue

/-! ## Groups -/

theorem ofNat_eq {n : Nat} {a : UInt8} (h : n = a.toNat) : UInt8.ofNat n = a := by
  rw [h, UInt8.ofNat_toNat]

theorem toNat_ofNat {n : Nat} (h : n < 256) : (UInt8.ofNat n).toNat = n := UInt8.toNat_ofNat_of_lt' h

/-- Four digits are three bytes. -/
theorem quad_eq_some {w x y z : Char} {bs : List UInt8} : quad w x y z = some bs ↔
    ∃ a b c : UInt8, bs = [a, b, c] ∧ w = digit (a.toNat / 4) ∧
      x = digit (a.toNat % 4 * 16 + b.toNat / 16) ∧ y = digit (b.toNat % 16 * 4 + c.toNat / 64) ∧
      z = digit (c.toNat % 64) := by
  constructor
  · intro h
    rw [quad] at h
    obtain ⟨i, hi, h₁⟩ := Option.bind_eq_some_iff.mp h
    obtain ⟨j, hj, h₂⟩ := Option.bind_eq_some_iff.mp h₁
    obtain ⟨k, hk, h₃⟩ := Option.bind_eq_some_iff.mp h₂
    obtain ⟨l, hl, h₄⟩ := Option.bind_eq_some_iff.mp h₃
    obtain ⟨hi, rfl⟩ := value?_eq_some.mp hi
    obtain ⟨hj, rfl⟩ := value?_eq_some.mp hj
    obtain ⟨hk, rfl⟩ := value?_eq_some.mp hk
    obtain ⟨hl, rfl⟩ := value?_eq_some.mp hl
    refine ⟨_, _, _, (Option.some.inj h₄).symm, ?_, ?_, ?_, ?_⟩
    all_goals
      congr 1
      repeat rw [toNat_ofNat (by omega)]
      omega
  · rintro ⟨a, b, c, rfl, rfl, rfl, rfl, rfl⟩
    have ha := a.toNat_lt
    have hb := b.toNat_lt
    have hc := c.toNat_lt
    rw [quad, value?_digit (by omega), value?_digit (by omega), value?_digit (by omega),
      value?_digit (by omega)]
    refine congrArg some ?_
    rw [ofNat_eq (a := a) (by omega), ofNat_eq (a := b) (by omega), ofNat_eq (a := c) (by omega)]

theorem digit_mem (n : Nat) : digit n ∈ '=' :: alphabet := by
  rw [digit, List.getD_eq_getElem?_getD]
  rcases h : alphabet[n]? with _ | c
  · exact List.mem_cons_self ..
  · exact List.mem_cons_of_mem _ (List.mem_of_getElem? h)

/-- What is written are digits and paddings. -/
theorem mem_of_mem_encode {bs : List UInt8} {c : Char} (h : c ∈ encode bs) :
    c ∈ '=' :: alphabet := by
  induction bs using encode.induct with
  | case1 => cases h
  | case2 a | case3 a b =>
    simp only [encode, List.mem_cons, List.not_mem_nil, or_false] at h
    rcases h with rfl | rfl | rfl | rfl <;> first | exact digit_mem _ | exact List.mem_cons_self ..
  | case4 a b c' rest ih =>
    simp only [encode, List.mem_cons] at h
    rcases h with rfl | rfl | rfl | rfl | h
    · exact digit_mem _
    · exact digit_mem _
    · exact digit_mem _
    · exact digit_mem _
    · exact ih h

theorem encode_eq_nil {bs : List UInt8} : encode bs = [] ↔ bs = [] := by
  refine ⟨fun h => ?_, fun h => by rw [h]; rfl⟩
  rcases bs with _ | ⟨a, _ | ⟨b, _ | ⟨c, rest⟩⟩⟩
  · rfl
  all_goals cases h

/-- The last group is one byte, two or three. -/
theorem lastQuad_eq_some {w x y z : Char} {bs : List UInt8} :
    lastQuad w x y z = some bs ↔ [w, x, y, z] = encode bs := by
  constructor
  · intro h
    rw [lastQuad] at h
    split at h
    · obtain ⟨a, b, c, rfl, rfl, rfl, rfl, rfl⟩ := quad_eq_some.mp h
      rfl
    rename_i hz
    obtain rfl : z = '=' := not_not.mp hz
    split at h
    · obtain ⟨i, hi, h₁⟩ := Option.bind_eq_some_iff.mp h
      obtain ⟨j, hj, h₂⟩ := Option.bind_eq_some_iff.mp h₁
      obtain ⟨k, hk, h₃⟩ := Option.bind_eq_some_iff.mp h₂
      obtain ⟨hi, rfl⟩ := value?_eq_some.mp hi
      obtain ⟨hj, rfl⟩ := value?_eq_some.mp hj
      obtain ⟨hk, rfl⟩ := value?_eq_some.mp hk
      split at h₃
      · have hfst : (i * 4 + j / 16) / 4 = i := by omega
        have hsnd : (i * 4 + j / 16) % 4 * 16 + (j % 16 * 16 + k / 4) / 16 = j := by omega
        have hthd : (j % 16 * 16 + k / 4) % 16 * 4 = k := by omega
        rw [← Option.some.inj h₃, encode, toNat_ofNat (by omega), toNat_ofNat (by omega), hfst, hsnd,
          hthd]
      · cases h₃
    · rename_i hy
      obtain rfl : y = '=' := not_not.mp hy
      obtain ⟨i, hi, h₁⟩ := Option.bind_eq_some_iff.mp h
      obtain ⟨j, hj, h₂⟩ := Option.bind_eq_some_iff.mp h₁
      obtain ⟨hi, rfl⟩ := value?_eq_some.mp hi
      obtain ⟨hj, rfl⟩ := value?_eq_some.mp hj
      split at h₂
      · have hfst : (i * 4 + j / 16) / 4 = i := by omega
        have hsnd : (i * 4 + j / 16) % 4 * 16 = j := by omega
        rw [← Option.some.inj h₂, encode, toNat_ofNat (by omega), hfst, hsnd]
      · cases h₂
  · intro h
    rcases bs with _ | ⟨a, _ | ⟨b, _ | ⟨c, rest⟩⟩⟩
    · cases h
    · have ha := a.toNat_lt
      cases h
      rw [lastQuad, if_neg (not_not.mpr rfl), if_neg (not_not.mpr rfl), value?_digit (by omega),
        value?_digit (by omega)]
      refine (if_pos (by omega)).trans (congrArg some ?_)
      rw [ofNat_eq (a := a) (by omega)]
    · have ha := a.toNat_lt
      have hb := b.toNat_lt
      cases h
      rw [lastQuad, if_neg (not_not.mpr rfl), if_pos (digit_ne (by omega)), value?_digit (by omega),
        value?_digit (by omega), value?_digit (by omega)]
      refine (if_pos (by omega)).trans (congrArg some ?_)
      rw [ofNat_eq (a := a) (by omega), ofNat_eq (a := b) (by omega)]
    · have hc := c.toNat_lt
      rw [encode] at h
      obtain ⟨rfl, h₁⟩ := List.cons.inj h
      obtain ⟨rfl, h₂⟩ := List.cons.inj h₁
      obtain ⟨rfl, h₃⟩ := List.cons.inj h₂
      obtain ⟨rfl, h₄⟩ := List.cons.inj h₃
      obtain rfl := encode_eq_nil.mp h₄.symm
      rw [lastQuad, if_pos (digit_ne (by omega))]
      exact quad_eq_some.mpr ⟨a, b, c, rfl, rfl, rfl, rfl, rfl⟩

/-- **A text is read to some bytes just when these are written so.** -/
theorem decode_eq_some {cs : List Char} {bs : List UInt8} :
    decode cs = some bs ↔ cs = encode bs := by
  induction cs using decode.induct generalizing bs with
  | case1 =>
    refine ⟨fun h => ?_, fun h => ?_⟩
    · rw [← Option.some.inj h]
      rfl
    · rw [encode_eq_nil.mp h.symm]
      rfl
  | case2 w x y z => exact lastQuad_eq_some
  | case3 w x y z rest hrest ih =>
    rw [decode]
    · constructor
      · intro h
        obtain ⟨group, hgroup, h₁⟩ := Option.bind_eq_some_iff.mp h
        obtain ⟨tail, htail, h₂⟩ := Option.bind_eq_some_iff.mp h₁
        obtain ⟨a, b, c, rfl, rfl, rfl, rfl, rfl⟩ := quad_eq_some.mp hgroup
        rw [← Option.some.inj h₂, ih.mp htail]
        rfl
      · intro h
        rcases bs with _ | ⟨a, _ | ⟨b, _ | ⟨c, tail⟩⟩⟩
        · cases h
        · cases h
          exact absurd rfl hrest
        · cases h
          exact absurd rfl hrest
        · rw [encode] at h
          obtain ⟨rfl, h₁⟩ := List.cons.inj h
          obtain ⟨rfl, h₂⟩ := List.cons.inj h₁
          obtain ⟨rfl, h₃⟩ := List.cons.inj h₂
          obtain ⟨rfl, h₄⟩ := List.cons.inj h₃
          rw [quad_eq_some.mpr ⟨a, b, c, rfl, rfl, rfl, rfl, rfl⟩, ih.mpr h₄]
          rfl
    · exact hrest
  | case4 cs hnil hlast hmore =>
    refine iff_of_false (fun h => ?_) fun h => ?_
    · rw [decode.eq_def] at h
      split at h
      · exact hnil rfl
      · exact hlast _ _ _ _ rfl
      · exact hmore _ _ _ _ _ rfl
      · cases h
    · rcases bs with _ | ⟨a, _ | ⟨b, _ | ⟨c, tail⟩⟩⟩
      · exact hnil h
      · exact hlast _ _ _ _ h
      · exact hlast _ _ _ _ h
      · exact hmore _ _ _ _ _ h

example : String.ofList (encode (List.map (fun c => UInt8.ofNat c.toNat) "nclav:t".toList)) =
    "bmNsYXY6dA==" := by decide

end Base64
