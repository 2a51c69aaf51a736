import Mathlib

/-!
# Quoted strings of HCL

What stands between two quotes is read with its escapes. A raw newline is malformed there, and a
template (`$` or `%` before a brace) is no plain string unless its sign is doubled.

An escaper writes each character by itself. Some characters it may write so that they cannot be
read; then, and where the string holds the start of a template, the string is not read back.
-/

namespace Hcl

/-! ## Reading -/

/-- What the reader has just seen. -/
inductive Mode : Type where
  | text
  /-- the first of two signs: the second one stands for itself -/
  | doubled
  /-- a backslash -/
  | escape
  /-- hex digits are left to be read, after some that give this code -/
  | hex (left code : Nat)

def isSign (c : Char) : Bool := c = '$' || c = '%'

/-- A hexadecimal digit. -/
def hexDigit (c : Char) : Option Nat :=
  if '0' ≤ c ∧ c ≤ '9' then some (c.toNat - '0'.toNat)
  else if 'a' ≤ c ∧ c ≤ 'f' then some (c.toNat - 'a'.toNat + 10)
  else if 'A' ≤ c ∧ c ≤ 'F' then some (c.toNat - 'A'.toNat + 10)
  else none

/-- Put a character before what is read. -/
def emit (c : Char) (read : Option (List Char × List Char)) : Option (List Char × List Char) :=
  read.map fun r => (c :: r.1, r.2)

/-- The string before the closing quote, and what comes after the quote. -/
def readQuoted : Mode → List Char → Option (List Char × List Char)
  | _, [] => none
  | .text, c :: rest =>
    if c = '"' then some ([], rest)
    else if c = '\n' then none
    else if c = '\\' then readQuoted .escape rest
    else if isSign c = true ∧ rest.head? = some '{' then none
    else if isSign c = true ∧ [c, '{'] <+: rest then readQuoted .doubled rest
    else emit c (readQuoted .text rest)
  | .doubled, c :: rest => emit c (readQuoted .text rest)
  | .escape, c :: rest =>
    if c = 'n' then emit '\n' (readQuoted .text rest)
    else if c = 'r' then emit '\r' (readQuoted .text rest)
    else if c = 't' then emit '\t' (readQuoted .text rest)
    else if c = '"' ∨ c = '\\' then emit c (readQuoted .text rest)
    else if c = 'u' then readQuoted (.hex 4 0) rest
    else if c = 'U' then readQuoted (.hex 8 0) rest
    else none
  | .hex left code, c :: rest =>
    match hexDigit c with
    | none => none
    | some d =>
      if left ≤ 1 then emit (Char.ofNat (16 * code + d)) (readQuoted .text rest)
      else readQuoted (.hex (left - 1) (16 * code + d)) rest

theorem isSign_iff {c : Char} : isSign c = true ↔ c = '$' ∨ c = '%' := by
  rw [isSign, Bool.or_eq_true, decide_eq_true_iff, decide_eq_true_iff]

/-- A character that means nothing is read as itself. -/
theorem readQuoted_plain {c : Char} {rest : List Char} (hsign : isSign c = false) (hquote : c ≠ '"')
    (hescape : c ≠ '\\') : readQuoted .text (c :: rest) =
      if c = '\n' then none else emit c (readQuoted .text rest) := by
  rw [readQuoted, if_neg hquote, hsign]
  by_cases hnewline : c = '\n'
  · rw [if_pos hnewline, if_pos hnewline]
  · rw [if_neg hnewline, if_neg hnewline, if_neg hescape, if_neg fun h => Bool.false_ne_true h.1,
      if_neg fun h => Bool.false_ne_true h.1]

/-! ## Escaping -/

/-- An escaper. -/
structure Escaper : Type where
  escape : Char → List Char
  /-- the character cannot be read where it is written -/
  broken : Char → Bool
  /-- the characters of a template are written as they are -/
  verbatim : ∀ c, isSign c = true ∨ c = '{' → escape c = [c] ∧ broken c = false
  /-- nothing else begins with one of them -/
  head : ∀ c, ∃ d ds, escape c = d :: ds ∧ (d = c ∨ d = '\\')
  /-- and nothing else is read as something else -/
  read : ∀ c rest, isSign c = false →
    readQuoted .text (escape c ++ rest) =
      if broken c = true then none else emit c (readQuoted .text rest)

namespace Escaper

variable (E : Escaper)

def escapeAll (v : List Char) : List Char := v.flatMap E.escape

/-- The string that is read for a string that was written. -/
def value : (doubled : Bool) → List Char → Option (List Char)
  | _, [] => some []
  | true, c :: v => (value false v).map (c :: ·)
  | false, c :: v =>
    if E.broken c = true then none
    else if isSign c = true ∧ v.head? = some '{' then none
    else if isSign c = true ∧ [c, '{'] <+: v then value true v
    else (value false v).map (c :: ·)

/-- Nothing that cannot be read, and no template. -/
def Clean (v : List Char) : Prop :=
  (∀ c ∈ v, E.broken c = false) ∧ ¬ ['$', '{'] <:+: v ∧ ¬ ['%', '{'] <:+: v

variable {E} {v rest : List Char} {c : Char}

@[simp] theorem escapeAll_cons : E.escapeAll (c :: v) = E.escape c ++ E.escapeAll v :=
  List.flatMap_cons ..

/-- What is written begins with a character of a template iff the string does. -/
theorem head?_escapeAll {d : Char} (hd : isSign d = true ∨ d = '{') :
    (E.escapeAll v ++ '"' :: rest).head? = some d ↔ v.head? = some d := by
  have hne : d ≠ '\\' ∧ d ≠ '"' := by
    rw [isSign, Bool.or_eq_true, decide_eq_true_iff, decide_eq_true_iff] at hd
    rcases hd with (rfl | rfl) | rfl
    · decide
    · decide
    · decide
  cases v with
  | nil => exact iff_of_false (fun h => hne.2 (Option.some.inj h).symm) nofun
  | cons c v =>
    obtain ⟨e, es, hescape, he⟩ := E.head c
    rw [escapeAll_cons, hescape]
    show some e = some d ↔ some c = some d
    rw [Option.some.injEq, Option.some.injEq]
    constructor
    · rintro rfl
      exact (he.resolve_right hne.1).symm
    · rintro rfl
      exact List.cons.inj (hescape.symm.trans (E.verbatim c hd).1) |>.1

theorem singleton_prefix_iff {d : Char} {cs : List Char} : [d] <+: cs ↔ cs.head? = some d := by
  cases cs with
  | nil => exact iff_of_false (fun h => nomatch List.prefix_nil.mp h) nofun
  | cons c cs =>
    rw [List.cons_prefix_cons, List.head?_cons, Option.some.injEq, and_iff_left (List.nil_prefix)]
    exact eq_comm

theorem doubled_escapeAll (hc : isSign c = true) :
    [c, '{'] <+: E.escapeAll v ++ '"' :: rest ↔ [c, '{'] <+: v := by
  cases v with
  | nil =>
    refine iff_of_false (fun h => ?_) fun h => nomatch List.prefix_nil.mp h
    obtain rfl := (List.cons_prefix_cons.mp h).1
    exact absurd hc (by decide)
  | cons d v =>
    by_cases hd : d = c
    · subst hd
      rw [escapeAll_cons, (E.verbatim d (.inl hc)).1, List.singleton_append, List.cons_append,
        List.cons_prefix_cons, List.cons_prefix_cons, singleton_prefix_iff, singleton_prefix_iff,
        head?_escapeAll (.inr rfl)]
    · -- a backslash is no sign
      have hne : (E.escapeAll (d :: v) ++ '"' :: rest).head? ≠ some c := by
        rw [Ne, head?_escapeAll (.inl hc), List.head?_cons, Option.some.injEq]
        exact hd
      refine iff_of_false (fun h => hne ?_) fun h => hd (List.cons_prefix_cons.mp h).1.symm
      obtain ⟨t, ht⟩ := h
      rw [← ht]
      rfl

theorem emit_map (c : Char) (o : Option (List Char)) :
    emit c (o.map (·, rest)) = (o.map (c :: ·)).map (·, rest) := by
  cases o <;> rfl

/-- What is written is read as its value, in both modes. -/
theorem read_escapeAll_modes :
    readQuoted .text (E.escapeAll v ++ '"' :: rest) = (E.value false v).map (·, rest) ∧
    ((∃ c ∈ v.head?, isSign c = true) →
      readQuoted .doubled (E.escapeAll v ++ '"' :: rest) = (E.value true v).map (·, rest)) := by
  induction v with
  | nil => exact ⟨rfl, fun ⟨_, h, _⟩ => nomatch h⟩
  | cons c v ih =>
    constructor
    · rcases hsign : isSign c with _ | _
      · rw [escapeAll_cons, List.append_assoc, E.read c _ hsign, ih.1, emit_map, value]
        simp only [hsign, Bool.false_eq_true, false_and, if_false]
        split
        · rfl
        · rfl
      · obtain ⟨hescape, hbroken⟩ := E.verbatim c (.inl hsign)
        have hne : c ≠ '"' ∧ c ≠ '\n' ∧ c ≠ '\\' := by
          rcases isSign_iff.mp hsign with rfl | rfl
          · decide
          · decide
        rw [escapeAll_cons, hescape, List.singleton_append, List.cons_append, readQuoted,
          if_neg hne.1, if_neg hne.2.1, if_neg hne.2.2, value, hbroken]
        simp only [hsign, true_and, head?_escapeAll (Or.inr rfl), doubled_escapeAll hsign,
          Bool.false_eq_true, if_false]
        split
        · rfl
        · split
          · rename_i hdoubled
            obtain ⟨t, rfl⟩ := hdoubled
            exact ih.2 ⟨c, rfl, hsign⟩
          · rw [ih.1, emit_map]
    · rintro ⟨d, hd, hsign⟩
      obtain rfl : c = d := Option.some.inj hd
      rw [escapeAll_cons, (E.verbatim c (.inl hsign)).1, List.singleton_append, List.cons_append,
        readQuoted, ih.1, emit_map, value]

/-- What is written is read as its value. -/
theorem read_escapeAll : readQuoted .text (E.escapeAll v ++ '"' :: rest) =
    (E.value false v).map (·, rest) :=
  read_escapeAll_modes.1

theorem clean_cons : E.Clean (c :: v) ↔
    E.broken c = false ∧ ¬ (isSign c = true ∧ v.head? = some '{') ∧ E.Clean v := by
  rw [Clean, Clean, List.forall_mem_cons, List.infix_cons_iff, List.infix_cons_iff,
    List.cons_prefix_cons, List.cons_prefix_cons, singleton_prefix_iff, isSign_iff]
  constructor
  · rintro ⟨⟨hc, hv⟩, hdollar, hpercent⟩
    refine ⟨hc, ?_, hv, fun h => hdollar (.inr h), fun h => hpercent (.inr h)⟩
    rintro ⟨rfl | rfl, hhead⟩
    · exact hdollar (.inl ⟨rfl, hhead⟩)
    · exact hpercent (.inl ⟨rfl, hhead⟩)
  · rintro ⟨hc, hhead, hv, hdollar, hpercent⟩
    refine ⟨⟨hc, hv⟩, ?_, ?_⟩
    · rintro (⟨rfl, h⟩ | h)
      · exact hhead ⟨.inl rfl, h⟩
      · exact hdollar h
    · rintro (⟨rfl, h⟩ | h)
      · exact hhead ⟨.inr rfl, h⟩
      · exact hpercent h

/-- The value is the string iff the string is clean. -/
theorem value_eq_iff : E.value false v = some v ↔ E.Clean v := by
  induction v with
  | nil => exact iff_of_true rfl ⟨nofun, by decide, by decide⟩
  | cons c v ih =>
    rw [clean_cons, value]
    split
    · rename_i hbroken
      exact iff_of_false nofun fun h => Bool.false_ne_true (h.1.symm.trans hbroken)
    rename_i hbroken
    rw [and_iff_right (Bool.eq_false_iff.mpr hbroken)]
    split
    · rename_i htemplate
      exact iff_of_false nofun fun h => h.1 htemplate
    rename_i htemplate
    rw [and_iff_right htemplate]
    split
    · -- of two signs one is left
      rename_i hdoubled
      obtain ⟨hsign, t, rfl⟩ := hdoubled
      refine iff_of_false ?_ fun h => (clean_cons.mp h).2.1 ⟨hsign, rfl⟩
      show (E.value false ('{' :: t)).map (c :: ·) ≠ some (c :: c :: '{' :: t)
      rw [value, (E.verbatim '{' (.inr rfl)).2, show isSign '{' = false from rfl]
      simp only [Bool.false_eq_true, false_and, if_false, Option.map_map]
      rcases E.value false t with _ | w
      · exact nofun
      · intro h
        obtain rfl := (List.cons.inj (List.cons.inj (Option.some.inj h)).2).1
        exact absurd hsign (by decide)
    · rw [← ih]
      constructor
      · intro h
        obtain ⟨w, hw, hcons⟩ := Option.map_eq_some_iff.mp h
        rw [hw, (List.cons.inj hcons).2]
      · intro h
        rw [h]
        rfl

end Escaper

end Hcl
