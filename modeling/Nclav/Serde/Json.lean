import Nclav.Serde.Value

/-!
# JSON text

A document as compact JSON. The text can be read in one way only, whatever follows it: what stands
for a character is a prefix code, digits end where no digit follows, and the first character tells
the kind of a value (`text_append_inj`).
-/

namespace Serde.Json

/-! ## Writing -/

/-- What stands behind a backslash for a control character. -/
def control : Nat → List Char
  | 0x08 => ['b']
  | 0x09 => ['t']
  | 0x0A => ['n']
  | 0x0C => ['f']
  | 0x0D => ['r']
  | n => ['u', '0', '0', (n / 16).digitChar, (n % 16).digitChar]

def escapeChar (c : Char) : List Char :=
  if c = '"' ∨ c = '\\' then ['\\', c]
  else if c.toNat < 0x20 then '\\' :: control c.toNat
  else [c]

def quote (s : String) : List Char := '"' :: (s.toList.flatMap escapeChar ++ ['"'])

def numText : Int → List Char
  | .ofNat n => Nat.toDigits 10 n
  | .negSucc n => '-' :: Nat.toDigits 10 (n + 1)

mutual

def text : Value → List Char
  | .null => "null".toList
  | .bool true => "true".toList
  | .bool false => "false".toList
  | .num n => numText n
  | .str s => quote s
  | .arr [] => "[]".toList
  | .arr (v :: vs) => '[' :: (text v ++ elemsText vs)
  | .obj [] => "\x7b\x7d".toList
  | .obj ((k, v) :: fields) => Char.ofNat 0x7B :: (quote k ++ ':' :: (text v ++ fieldsText fields))

/-- The elements behind the first one. -/
def elemsText : List Value → List Char
  | [] => [']']
  | v :: vs => ',' :: (text v ++ elemsText vs)

/-- The fields behind the first one. -/
def fieldsText : List (String × Value) → List Char
  | [] => [Char.ofNat 0x7D]
  | (k, v) :: fields => ',' :: (quote k ++ ':' :: (text v ++ fieldsText fields))

end

/-! ## Strings -/

/-- No character is written as the beginning of another one. -/
theorem escapeChar_begins {c d : Char} (h : escapeChar c <+: escapeChar d) : c = d := by
  have hquote : ∀ n < 0x20, ¬ ['"'] <+: control n ∧ ¬ ['\\'] <+: control n ∧
      ¬ control n <+: ['"'] ∧ ¬ control n <+: ['\\'] ∧ ¬ control n <+: [] := by decide
  have hcontrol : ∀ n < 0x20, ∀ m < 0x20, control n <+: control m → n = m := by decide
  have hsingle : ∀ {a b : Char}, [a] <+: [b] → a = b := fun hab =>
    (List.cons_prefix_cons.mp hab).1
  rw [escapeChar, escapeChar] at h
  split at h
  · rename_i hc
    split at h
    · exact hsingle (List.cons_prefix_cons.mp h).2
    · split at h
      · rename_i hd
        have htail := (List.cons_prefix_cons.mp h).2
        obtain rfl | rfl := hc
        · exact absurd htail (hquote _ hd).1
        · exact absurd htail (hquote _ hd).2.1
      · have htail := (List.cons_prefix_cons.mp h).2
        exact absurd (List.prefix_nil.mp htail) (List.cons_ne_nil _ _)
  · rename_i hc
    split at h
    · rename_i hlow
      split at h
      · rename_i hd
        have htail := (List.cons_prefix_cons.mp h).2
        obtain rfl | rfl := hd
        · exact absurd htail (hquote _ hlow).2.2.1
        · exact absurd htail (hquote _ hlow).2.2.2.1
      · split at h
        · rename_i hd
          exact Char.toNat_inj.mp (hcontrol _ hlow _ hd (List.cons_prefix_cons.mp h).2)
        · exact absurd (List.cons_prefix_cons.mp h).2 (hquote _ hlow).2.2.2.2
    · split at h
      · exact absurd (.inr (List.cons_prefix_cons.mp h).1) hc
      · split at h
        · exact absurd (.inr (List.cons_prefix_cons.mp h).1) hc
        · exact hsingle h

theorem escapeChar_ne_nil (c : Char) : escapeChar c ≠ [] := by
  rw [escapeChar]
  split
  · exact List.cons_ne_nil _ _
  · split <;> exact List.cons_ne_nil _ _

/-- What is written for a character does not begin with a quote. -/
theorem head_escapeChar {c : Char} {cs : List Char} : escapeChar c ≠ '"' :: cs := by
  rw [escapeChar]
  split
  · exact fun h => absurd (List.cons.inj h).1 (by decide)
  · rename_i hc
    split
    · exact fun h => absurd (List.cons.inj h).1 (by decide)
    · exact fun h => hc (.inl (List.cons.inj h).1)

theorem escapeChar_append_inj {c d : Char} {r r' : List Char}
    (h : escapeChar c ++ r = escapeChar d ++ r') : c = d ∧ r = r' := by
  have hcd : c = d := by
    rcases List.prefix_or_prefix_of_prefix (List.prefix_append (escapeChar c) r)
      (h ▸ List.prefix_append (escapeChar d) r') with hle | hle
    · exact escapeChar_begins hle
    · exact (escapeChar_begins hle).symm
  subst hcd
  exact ⟨rfl, List.append_cancel_left h⟩

theorem quoted_append_inj {r r' : List Char} : ∀ {cs ds : List Char},
    cs.flatMap escapeChar ++ '"' :: r = ds.flatMap escapeChar ++ '"' :: r' → cs = ds ∧ r = r'
  | [], [], h => ⟨rfl, (List.cons.inj h).2⟩
  | [], d :: ds, h => by
    obtain ⟨x, xs, hx⟩ := List.exists_cons_of_ne_nil (escapeChar_ne_nil d)
    rw [List.flatMap_cons, hx, List.flatMap_nil] at h
    have hhead : '"' = x := (List.cons.inj h).1
    exact absurd (hhead ▸ hx) head_escapeChar
  | c :: cs, [], h => by
    obtain ⟨x, xs, hx⟩ := List.exists_cons_of_ne_nil (escapeChar_ne_nil c)
    rw [List.flatMap_cons, hx, List.flatMap_nil] at h
    have hhead : x = '"' := (List.cons.inj h).1
    exact absurd (hhead ▸ hx) head_escapeChar
  | c :: cs, d :: ds, h => by
    rw [List.flatMap_cons, List.flatMap_cons, List.append_assoc, List.append_assoc] at h
    obtain ⟨rfl, htail⟩ := escapeChar_append_inj h
    obtain ⟨rfl, hr⟩ := quoted_append_inj htail
    exact ⟨rfl, hr⟩

theorem quote_append_inj {s t : String} {r r' : List Char} (h : quote s ++ r = quote t ++ r') :
    s = t ∧ r = r' := by
  rw [quote, quote, List.cons_append, List.cons_append, List.append_assoc, List.append_assoc] at h
  obtain ⟨hchars, hr⟩ := quoted_append_inj (List.cons.inj h).2
  exact ⟨String.toList_inj.mp hchars, hr⟩

/-! ## Numbers -/

/-- No digit follows. -/
def Stops (r : List Char) : Prop := ∀ c ∈ r.head?, c.isDigit = false

theorem digits_append_inj {n m : Nat} {r r' : List Char} (hr : Stops r) (hr' : Stops r')
    (h : Nat.toDigits 10 n ++ r = Nat.toDigits 10 m ++ r') : n = m ∧ r = r' := by
  have hdigits : ∀ n, ∀ c ∈ Nat.toDigits 10 n, c.isDigit = true :=
    fun n c hc => Nat.isDigit_of_mem_toDigits (by decide) (by decide) hc
  have hstop : ∀ r, Stops r → r.takeWhile Char.isDigit = [] := by
    intro r hr
    cases r with
    | nil => rfl
    | cons c cs => exact List.takeWhile_cons_of_neg (by rw [hr c rfl]; decide)
  have htaken := congrArg (List.takeWhile Char.isDigit) h
  rw [List.takeWhile_append_of_pos (hdigits n), List.takeWhile_append_of_pos (hdigits m),
    hstop r hr, hstop r' hr', List.append_nil, List.append_nil] at htaken
  have hnm := congrArg (Nat.ofDigitChars 10 · 0) htaken
  simp only [Nat.ofDigitChars_ten_toDigits] at hnm
  rw [hnm] at h
  exact ⟨hnm, List.append_cancel_left h⟩

theorem numText_append_inj {n m : Int} {r r' : List Char} (hr : Stops r) (hr' : Stops r')
    (h : numText n ++ r = numText m ++ r') : n = m ∧ r = r' := by
  have hminus : ∀ (n : Nat) (cs : List Char), Nat.toDigits 10 n ++ r ≠ '-' :: cs ∧
      Nat.toDigits 10 n ++ r' ≠ '-' :: cs := by
    intro n cs
    obtain ⟨x, xs, hx⟩ := List.exists_cons_of_ne_nil (Nat.toDigits_ne_nil (n := n) (b := 10))
    have hdigit := Nat.isDigit_of_mem_toDigits (by decide) (by decide)
      (hx ▸ List.mem_cons_self : x ∈ Nat.toDigits 10 n)
    have hne : x ≠ '-' := by
      rintro rfl
      exact absurd hdigit (by decide)
    rw [hx]
    exact ⟨fun h => hne (List.cons.inj h).1, fun h => hne (List.cons.inj h).1⟩
  cases n with
  | ofNat n =>
    cases m with
    | ofNat m =>
      obtain ⟨rfl, hrest⟩ := digits_append_inj hr hr' h
      exact ⟨rfl, hrest⟩
    | negSucc m => exact absurd h (hminus n _).1
  | negSucc n =>
    cases m with
    | ofNat m => exact absurd h.symm (hminus m _).2
    | negSucc m =>
      obtain ⟨hnm, hrest⟩ := digits_append_inj hr hr' (List.cons.inj h).2
      exact ⟨congrArg Int.negSucc (Nat.succ.inj hnm), hrest⟩

/-! ## Documents -/

/-- The kind of a document, and the kind that begins with a character. -/
def kind : Value → Nat
  | .null => 0
  | .bool _ => 1
  | .num _ => 2
  | .str _ => 3
  | .arr _ => 4
  | .obj _ => 5

def kindOf (c : Char) : Nat :=
  if c = 'n' then 0
  else if c = 't' ∨ c = 'f' then 1
  else if c = '"' then 3
  else if c = '[' then 4
  else if c = Char.ofNat 0x7B then 5
  else if c = '-' ∨ c.isDigit then 2
  else 6

theorem exists_text (v : Value) : ∃ c cs, text v = c :: cs ∧ kindOf c = kind v := by
  have hdigit : ∀ c : Char, c.isDigit = true → kindOf c = 2 := by
    intro c hc
    have hne : ∀ d : Char, d.isDigit = false → c ≠ d := by
      rintro d hd rfl
      rw [hc] at hd
      cases hd
    rw [kindOf, if_neg (hne _ (by decide)), if_neg (not_or.mpr ⟨hne _ (by decide), hne _ (by decide)⟩),
      if_neg (hne _ (by decide)), if_neg (hne _ (by decide)), if_neg (hne _ (by decide)),
      if_pos (.inr hc)]
  cases v with
  | null => exact ⟨_, _, rfl, rfl⟩
  | bool b => cases b <;> exact ⟨_, _, rfl, rfl⟩
  | num n =>
    cases n with
    | ofNat n =>
      obtain ⟨x, xs, hx⟩ := List.exists_cons_of_ne_nil (Nat.toDigits_ne_nil (n := n) (b := 10))
      refine ⟨x, xs, hx, hdigit x ?_⟩
      exact Nat.isDigit_of_mem_toDigits (by decide) (by decide)
        (hx ▸ List.mem_cons_self : x ∈ Nat.toDigits 10 n)
    | negSucc n => exact ⟨_, _, rfl, rfl⟩
  | str s => exact ⟨_, _, rfl, rfl⟩
  | arr vs => cases vs <;> exact ⟨_, _, rfl, rfl⟩
  | obj fields =>
    cases fields with
    | nil => exact ⟨_, _, rfl, rfl⟩
    | cons f rest => exact ⟨_, _, rfl, rfl⟩

theorem kind_eq {v w : Value} {r r' : List Char} (h : text v ++ r = text w ++ r') :
    kind v = kind w := by
  obtain ⟨c, cs, hv, hc⟩ := exists_text v
  obtain ⟨d, ds, hw, hd⟩ := exists_text w
  rw [hv, hw] at h
  rw [← hc, ← hd, (List.cons.inj h).1]

/-- What closes an array or an object, or separates its members, does not begin a document. -/
theorem text_ne {v : Value} {c : Char} (hc : kindOf c = 6) (r cs : List Char) :
    text v ++ r ≠ c :: cs := by
  obtain ⟨d, ds, hv, hd⟩ := exists_text v
  rw [hv]
  intro h
  rw [(List.cons.inj h).1, hc] at hd
  cases v <;> cases hd

theorem stops_elemsText (vs : List Value) (r : List Char) : Stops (elemsText vs ++ r) := by
  cases vs <;> (rintro c ⟨⟩; decide)

theorem stops_fieldsText (fields : List (String × Value)) (r : List Char) :
    Stops (fieldsText fields ++ r) := by
  cases fields <;> (rintro c ⟨⟩; decide)

mutual

/-- **The text of a document can be read in one way only**. -/
theorem text_append_inj : ∀ (v w : Value) {r r' : List Char}, Stops r → Stops r' →
    text v ++ r = text w ++ r' → v = w ∧ r = r'
  | .null, w, r, r', _, _, h => by
    cases w with
    | null => exact ⟨rfl, List.append_cancel_left h⟩
    | _ => cases kind_eq h
  | .bool b, w, r, r', _, _, h => by
    cases w with
    | bool b' =>
      cases b <;> cases b'
      · exact ⟨rfl, List.append_cancel_left h⟩
      · cases (List.cons.inj h).1
      · cases (List.cons.inj h).1
      · exact ⟨rfl, List.append_cancel_left h⟩
    | _ => cases kind_eq h
  | .num n, w, r, r', hr, hr', h => by
    cases w with
    | num m =>
      obtain ⟨rfl, hrest⟩ := numText_append_inj hr hr' h
      exact ⟨rfl, hrest⟩
    | _ => cases kind_eq h
  | .str s, w, r, r', _, _, h => by
    cases w with
    | str t =>
      obtain ⟨rfl, hrest⟩ := quote_append_inj h
      exact ⟨rfl, hrest⟩
    | _ => cases kind_eq h
  | .arr [], w, r, r', _, _, h => by
    cases w with
    | arr ws =>
      cases ws with
      | nil => exact ⟨rfl, List.append_cancel_left h⟩
      | cons w ws =>
        have htail : text w ++ elemsText ws ++ r' = ']' :: r := (List.cons.inj h).2.symm
        rw [List.append_assoc] at htail
        exact absurd htail (text_ne rfl _ _)
    | _ => cases kind_eq h
  | .arr (v :: vs), w, r, r', _, _, h => by
    cases w with
    | arr ws =>
      cases ws with
      | nil =>
        have htail : text v ++ elemsText vs ++ r = ']' :: r' := (List.cons.inj h).2
        rw [List.append_assoc] at htail
        exact absurd htail (text_ne rfl _ _)
      | cons w ws =>
        have htail : text v ++ elemsText vs ++ r = text w ++ elemsText ws ++ r' :=
          (List.cons.inj h).2
        rw [List.append_assoc, List.append_assoc] at htail
        obtain ⟨rfl, hmore⟩ :=
          text_append_inj v w (stops_elemsText _ _) (stops_elemsText _ _) htail
        obtain ⟨rfl, hrest⟩ := elemsText_append_inj vs ws hmore
        exact ⟨rfl, hrest⟩
    | _ => cases kind_eq h
  | .obj [], w, r, r', _, _, h => by
    cases w with
    | obj fields =>
      cases fields with
      | nil => exact ⟨rfl, List.append_cancel_left h⟩
      | cons f fields => cases (List.cons.inj (List.cons.inj h).2).1
    | _ => cases kind_eq h
  | .obj ((k, v) :: fields), w, r, r', _, _, h => by
    cases w with
    | obj fields' =>
      cases fields' with
      | nil => cases (List.cons.inj (List.cons.inj h).2).1
      | cons f fields' =>
        obtain ⟨k', w⟩ := f
        have htail : quote k ++ ':' :: (text v ++ fieldsText fields) ++ r =
            quote k' ++ ':' :: (text w ++ fieldsText fields') ++ r' := (List.cons.inj h).2
        rw [List.append_assoc, List.append_assoc] at htail
        obtain ⟨rfl, hcolon⟩ := quote_append_inj htail
        have hvalue : text v ++ fieldsText fields ++ r = text w ++ fieldsText fields' ++ r' :=
          (List.cons.inj hcolon).2
        rw [List.append_assoc, List.append_assoc] at hvalue
        obtain ⟨rfl, hmore⟩ :=
          text_append_inj v w (stops_fieldsText _ _) (stops_fieldsText _ _) hvalue
        obtain ⟨rfl, hrest⟩ := fieldsText_append_inj fields fields' hmore
        exact ⟨rfl, hrest⟩
    | _ => cases kind_eq h

theorem elemsText_append_inj : ∀ (vs ws : List Value) {r r' : List Char},
    elemsText vs ++ r = elemsText ws ++ r' → vs = ws ∧ r = r'
  | [], [], r, r', h => ⟨rfl, List.append_cancel_left h⟩
  | [], w :: ws, r, r', h => by cases (List.cons.inj h).1
  | v :: vs, [], r, r', h => by cases (List.cons.inj h).1
  | v :: vs, w :: ws, r, r', h => by
    have htail : text v ++ elemsText vs ++ r = text w ++ elemsText ws ++ r' :=
      (List.cons.inj h).2
    rw [List.append_assoc, List.append_assoc] at htail
    obtain ⟨rfl, hmore⟩ := text_append_inj v w (stops_elemsText _ _) (stops_elemsText _ _) htail
    obtain ⟨rfl, hrest⟩ := elemsText_append_inj vs ws hmore
    exact ⟨rfl, hrest⟩

theorem fieldsText_append_inj : ∀ (fields fields' : List (String × Value)) {r r' : List Char},
    fieldsText fields ++ r = fieldsText fields' ++ r' → fields = fields' ∧ r = r'
  | [], [], r, r', h => ⟨rfl, List.append_cancel_left h⟩
  | [], f :: fields', r, r', h => by cases (List.cons.inj h).1
  | f :: fields, [], r, r', h => by cases (List.cons.inj h).1
  | (k, v) :: fields, (k', w) :: fields', r, r', h => by
    have htail : quote k ++ ':' :: (text v ++ fieldsText fields) ++ r =
        quote k' ++ ':' :: (text w ++ fieldsText fields') ++ r' := (List.cons.inj h).2
    rw [List.append_assoc, List.append_assoc] at htail
    obtain ⟨rfl, hcolon⟩ := quote_append_inj htail
    have hvalue : text v ++ fieldsText fields ++ r = text w ++ fieldsText fields' ++ r' :=
      (List.cons.inj hcolon).2
    rw [List.append_assoc, List.append_assoc] at hvalue
    obtain ⟨rfl, hmore⟩ := text_append_inj v w (stops_fieldsText _ _) (stops_fieldsText _ _) hvalue
    obtain ⟨rfl, hrest⟩ := fieldsText_append_inj fields fields' hmore
    exact ⟨rfl, hrest⟩

end

theorem text_injective : Function.Injective text := by
  intro v w h
  have hstops : Stops [] := nofun
  have happend : text v ++ [] = text w ++ [] := by rw [h]
  exact (text_append_inj v w hstops hstops happend).1

end Serde.Json
