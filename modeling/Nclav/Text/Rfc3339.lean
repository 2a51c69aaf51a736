import Mathlib

/-!
# Instants as text

RFC 3339 in UTC, as instants of nanoseconds are written: the seconds, a fraction of three, six or nine
digits where there is one, and the offset. Texts of years with four digits are in the order of time,
whatever follows them (`rfc3339_lt`): numbers have a fixed width, and `+` is before `.` and before
every digit, so that a fraction that stops is before one that goes on.
-/

namespace Text

/-! ## Digits -/

/-- The last digits of a number, `width` of them. -/
def digits : (width : Nat) → Nat → List Char
  | 0, _ => []
  | w + 1, n => (n / 10 ^ w % 10).digitChar :: digits w (n % 10 ^ w)

theorem digitChar_lt {a b : Nat} (h : a < b) (hb : b < 10) : a.digitChar < b.digitChar := by
  revert a
  revert b
  decide

theorem mem_digits {c : Char} : ∀ {w n : Nat}, c ∈ digits w n → '0' ≤ c ∧ c ≤ '9'
  | w + 1, n, h => by
    obtain rfl | h := List.mem_cons.mp h
    · have hdigit : ∀ d < 10, '0' ≤ d.digitChar ∧ d.digitChar ≤ '9' := by decide
      exact hdigit _ (Nat.mod_lt _ (by decide))
    · exact mem_digits h

/-- A smaller number is before a greater one, whatever follows. -/
theorem digits_append_lt {r r' : List Char} : ∀ {w n m : Nat}, n < m → m < 10 ^ w →
    digits w n ++ r < digits w m ++ r'
  | 0, n, m, hlt, hm => by
    rw [Nat.pow_zero] at hm
    omega
  | w + 1, n, m, hlt, hm => by
    have hpos : 0 < 10 ^ w := Nat.pow_pos (by decide)
    have hm' : m / 10 ^ w < 10 := Nat.div_lt_of_lt_mul (by rwa [Nat.pow_succ] at hm)
    have hle : n / 10 ^ w ≤ m / 10 ^ w := Nat.div_le_div_right hlt.le
    rw [digits, digits, List.cons_append, List.cons_append, List.cons_lt_cons_iff,
      Nat.mod_eq_of_lt hm', Nat.mod_eq_of_lt (hle.trans_lt hm')]
    obtain heq | hhead := hle.eq_or_lt
    · refine .inr ⟨by rw [heq], digits_append_lt ?_ (Nat.mod_lt _ hpos)⟩
      have hn := Nat.div_add_mod n (10 ^ w)
      have hm := Nat.div_add_mod m (10 ^ w)
      rw [heq] at hn
      omega
    · exact .inl (digitChar_lt hhead hm')

/-- The digits before the last `b` are those of the quotient. -/
theorem div_mod_pow (n a b : Nat) : n % 10 ^ (a + b) / 10 ^ b = n / 10 ^ b % 10 ^ a := by
  rw [Nat.pow_add, Nat.mul_comm, Nat.mod_mul_right_div_self]

theorem mod_mod_pow (n a b : Nat) : n % 10 ^ (a + b) % 10 ^ b = n % 10 ^ b :=
  Nat.mod_mod_of_dvd n (Nat.pow_dvd_pow 10 (Nat.le_add_left b a))

theorem digits_mod (w n : Nat) : digits w (n % 10 ^ w) = digits w n := by
  cases w with
  | zero => rfl
  | succ w =>
    have hhead := div_mod_pow n 1 w
    have htail := mod_mod_pow n 1 w
    rw [Nat.add_comm 1 w] at hhead htail
    rw [digits, digits, hhead, htail, Nat.pow_one, Nat.mod_mod]

theorem digits_add (a b n : Nat) :
    digits (a + b) n = digits a (n / 10 ^ b) ++ digits b (n % 10 ^ b) := by
  induction a generalizing n with
  | zero => rw [Nat.zero_add, digits, List.nil_append, digits_mod]
  | succ a ih =>
    rw [Nat.succ_add, digits, ih, digits, List.cons_append, div_mod_pow, mod_mod_pow, digits_mod,
      Nat.div_div_eq_div_mul, ← Nat.pow_add, Nat.add_comm b a]

theorem digits_zero (w : Nat) : digits w 0 = List.replicate w '0' := by
  induction w with
  | zero => rfl
  | succ w ih =>
    simp only [digits, Nat.zero_div, Nat.zero_mod, ih]
    rfl

/-! ## Fractions -/

/-- The fraction of a second, in nanoseconds. -/
def fraction (n : Nat) : List Char :=
  if n = 0 then []
  else if n % 10 ^ 6 = 0 then '.' :: digits 3 (n / 10 ^ 6)
  else if n % 10 ^ 3 = 0 then '.' :: digits 6 (n / 10 ^ 3)
  else '.' :: digits 9 n

/-- A fraction has the nine digits, without zeros at the end. -/
theorem exists_fraction {n : Nat} (h : n ≠ 0) :
    ∃ kept zeros, fraction n = '.' :: kept ∧ digits 9 n = kept ++ List.replicate zeros '0' := by
  rw [fraction, if_neg h]
  split
  · rename_i hmilli
    exact ⟨_, 6, rfl, by rw [digits_add 3 6, hmilli, digits_zero]⟩
  · split
    · rename_i hmicro
      exact ⟨_, 3, rfl, by rw [digits_add 6 3, hmicro, digits_zero]⟩
    · exact ⟨_, 0, rfl, (List.append_nil _).symm⟩

/-- No digits are before zeros. -/
theorem not_lt_zeros {cs : List Char} {zeros : Nat} (hcs : ∀ c ∈ cs, '0' ≤ c)
    (hlength : cs.length = zeros) : ¬ cs < List.replicate zeros '0' := by
  induction cs generalizing zeros with
  | nil =>
    rw [← hlength]
    exact List.not_lt_nil _
  | cons c cs ih =>
    obtain ⟨hc, hrest⟩ := List.forall_mem_cons.mp hcs
    rw [← hlength, List.length_cons, List.replicate_succ, List.cons_lt_cons_iff]
    rintro (hlt | ⟨-, hlt⟩)
    · exact absurd hlt (not_lt.mpr hc)
    · exact ih hrest rfl hlt

/-- Digits without the zeros at their end, and a plus sign behind them, are in the same order. -/
theorem trimmed_lt {r r' : List Char} : ∀ {kept kept' : List Char} {zeros zeros' : Nat},
    kept ++ List.replicate zeros '0' < kept' ++ List.replicate zeros' '0' →
    kept.length + zeros = kept'.length + zeros' → (∀ c ∈ kept, '0' ≤ c) → (∀ c ∈ kept', '0' ≤ c) →
    kept ++ '+' :: r < kept' ++ '+' :: r'
  | kept, [], zeros, zeros', hlt, hlength, hkept, _ => by
    refine absurd hlt (not_lt_zeros (List.forall_mem_append.mpr ⟨hkept, fun c hc => ?_⟩) ?_)
    · exact (List.eq_of_mem_replicate hc).ge
    · simpa using hlength
  | [], c' :: kept', _, _, _, _, _, hkept' => by
    have hplus : '+' < '0' := by decide
    rw [List.nil_append, List.cons_append, List.cons_lt_cons_iff]
    exact .inl (hplus.trans_le (hkept' c' List.mem_cons_self))
  | c :: kept, c' :: kept', zeros, zeros', hlt, hlength, hkept, hkept' => by
    rw [List.cons_append, List.cons_append, List.cons_lt_cons_iff] at hlt ⊢
    refine hlt.imp_right fun ⟨hc, hrest⟩ => ⟨hc, trimmed_lt hrest ?_
      (fun c hc => hkept c (List.mem_cons_of_mem _ hc))
      fun c hc => hkept' c (List.mem_cons_of_mem _ hc)⟩
    rw [List.length_cons, List.length_cons] at hlength
    omega

theorem length_digits (w n : Nat) : (digits w n).length = w := by
  induction w generalizing n with
  | zero => rfl
  | succ w ih => rw [digits, List.length_cons, ih]

theorem fraction_lt {n m : Nat} (h : n < m) (hm : m < 10 ^ 9) (r r' : List Char) :
    fraction n ++ '+' :: r < fraction m ++ '+' :: r' := by
  obtain ⟨kept', zeros', hfraction', hdigits'⟩ := exists_fraction (Nat.ne_zero_of_lt h)
  rw [hfraction']
  by_cases hn : n = 0
  · rw [hn, fraction, if_pos rfl, List.nil_append, List.cons_append, List.cons_lt_cons_iff]
    exact .inl (by decide)
  · obtain ⟨kept, zeros, hfraction, hdigits⟩ := exists_fraction hn
    have hlt : digits 9 n ++ [] < digits 9 m ++ [] := digits_append_lt h hm
    have hdigit : ∀ {k c} {kept : List Char} {zeros : Nat},
        digits 9 k = kept ++ List.replicate zeros '0' → c ∈ kept → '0' ≤ c :=
      fun hk hc => (mem_digits (hk ▸ List.mem_append_left _ hc)).1
    have hlength := length_digits 9 n
    have hlength' := length_digits 9 m
    rw [hdigits, List.length_append, List.length_replicate] at hlength
    rw [hdigits', List.length_append, List.length_replicate] at hlength'
    rw [List.append_nil, List.append_nil, hdigits, hdigits'] at hlt
    rw [hfraction, List.cons_append, List.cons_append, List.cons_lt_cons_iff]
    exact .inr ⟨rfl, trimmed_lt hlt (hlength.trans hlength'.symm) (fun c => hdigit hdigits)
      fun c => hdigit hdigits'⟩

/-! ## The calendar -/

structure Date : Type where
  year : Nat
  month : Nat
  day : Nat

def isLeap (year : Nat) : Prop := year % 4 = 0 ∧ (year % 100 ≠ 0 ∨ year % 400 = 0)

instance (year : Nat) : Decidable (isLeap year) :=
  inferInstanceAs (Decidable (year % 4 = 0 ∧ (year % 100 ≠ 0 ∨ year % 400 = 0)))

def daysIn (year month : Nat) : Nat :=
  if month = 2 then (if isLeap year then 29 else 28)
  else if month = 4 ∨ month = 6 ∨ month = 9 ∨ month = 11 then 30
  else 31

namespace Date

def next (d : Date) : Date :=
  if d.day < daysIn d.year d.month then { d with day := d.day + 1 }
  else if d.month < 12 then ⟨d.year, d.month + 1, 1⟩
  else ⟨d.year + 1, 1, 1⟩

/-- The date of a day, counted from the first one of the year 0. -/
def ofDay : Nat → Date
  | 0 => ⟨0, 1, 1⟩
  | n + 1 => (ofDay n).next

/-- The date is before another one. -/
def Before (d d' : Date) : Prop :=
  d.year < d'.year ∨ d.year = d'.year ∧
    (d.month < d'.month ∨ d.month = d'.month ∧ d.day < d'.day)

theorem before_next (d : Date) : d.Before d.next := by
  rw [next]
  split
  · exact .inr ⟨rfl, .inr ⟨rfl, Nat.lt_succ_self _⟩⟩
  · split
    · exact .inr ⟨rfl, .inl (Nat.lt_succ_self _)⟩
    · exact .inl (Nat.lt_succ_self _)

theorem Before.trans {d d' d'' : Date} (h : d.Before d') (h' : d'.Before d'') : d.Before d'' := by
  simp only [Before] at *
  omega

theorem ofDay_before {n m : Nat} (h : n < m) : (ofDay n).Before (ofDay m) := by
  induction m with
  | zero => omega
  | succ m ih =>
    have hnext := before_next (ofDay m)
    obtain hlt | rfl := Nat.lt_succ_iff_lt_or_eq.mp h
    · exact (ih hlt).trans hnext
    · exact hnext

theorem ofDay_le (n : Nat) : (ofDay n).month ≤ 12 ∧ (ofDay n).day ≤ 31 := by
  induction n with
  | zero => decide
  | succ n ih =>
    rw [ofDay, next]
    split
    · rename_i hday
      have hmax : daysIn (ofDay n).year (ofDay n).month ≤ 31 := by
        rw [daysIn]
        split
        · split <;> decide
        · split <;> decide
      exact ⟨ih.1, by simp only; omega⟩
    · split
      · simp only
        omega
      · exact (by decide : 1 ≤ 12 ∧ 1 ≤ 31)

/-- The days before a month in a year that is no leap year. -/
def daysBefore (month : Nat) : Nat :=
  [0, 0, 31, 59, 90, 120, 151, 181, 212, 243, 273, 304, 334].getD month 0

/-- A year has 365 days at least. -/
theorem year_le (n : Nat) : 1 ≤ (ofDay n).month ∧ 1 ≤ (ofDay n).day ∧
    365 * (ofDay n).year + daysBefore (ofDay n).month + (ofDay n).day ≤ n + 1 := by
  induction n with
  | zero => decide
  | succ n ih =>
    obtain ⟨hmonth, hday, hle⟩ := ih
    obtain ⟨hmonth', -⟩ := ofDay_le n
    have hdays : ∀ month < 12, 1 ≤ month →
        daysBefore (month + 1) ≤ daysBefore month + daysIn 1 month := by decide
    have hleap : daysIn 1 (ofDay n).month ≤ daysIn (ofDay n).year (ofDay n).month := by
      rw [daysIn, daysIn, if_neg (by decide : ¬ isLeap 1)]
      split
      · split <;> decide
      · exact le_rfl
    rw [ofDay, next]
    split
    · exact ⟨hmonth, by simp only; omega, by simp only; omega⟩
    · rename_i hlast
      split
      · rename_i hlt
        have hnext := hdays (ofDay n).month hlt hmonth
        exact ⟨by simp only; omega, le_rfl, by simp only; omega⟩
      · rename_i hdecember
        have hdec : (ofDay n).month = 12 := by omega
        have hthirty : daysIn (ofDay n).year (ofDay n).month = 31 := by
          rw [hdec]
          rfl
        rw [hdec] at hle
        have hbefore : daysBefore 12 = 334 := rfl
        have hfirst : daysBefore 1 = 0 := rfl
        exact ⟨le_rfl, le_rfl, by simp only; omega⟩

end Date

/-! ## Instants -/

def dateText (d : Date) : List Char :=
  digits 4 d.year ++ '-' :: (digits 2 d.month ++ '-' :: digits 2 d.day)

def timeText (seconds : Nat) : List Char :=
  digits 2 (seconds / 3600) ++ ':' :: (digits 2 (seconds / 60 % 60) ++ ':' :: digits 2 (seconds % 60))

/-- The day of an instant, counted from the first one of the year 0. -/
def dayOf (t : Int) : Int := t / 10 ^ 9 / 86400 + 719528

def secondOf (t : Int) : Nat := (t / 10 ^ 9 % 86400).toNat

def nanosOf (t : Int) : Nat := (t % 10 ^ 9).toNat

def rfc3339 (t : Int) : List Char :=
  dateText (.ofDay (dayOf t).toNat) ++ 'T' :: (timeText (secondOf t) ++
    (fraction (nanosOf t) ++ '+' :: "00:00".toList))

/-- The year of the instant has four digits. -/
def FourDigits (t : Int) : Prop := 0 ≤ dayOf t ∧ (Date.ofDay (dayOf t).toNat).year < 10 ^ 4

theorem dateText_lt {d d' : Date} (h : d.Before d') (hyear : d'.year < 10 ^ 4)
    (hmonth : d'.month ≤ 12) (hday : d'.day ≤ 31) (r r' : List Char) :
    dateText d ++ r < dateText d' ++ r' := by
  simp only [dateText, List.append_assoc, List.cons_append]
  obtain hlt | ⟨heq, hrest⟩ := h
  · exact digits_append_lt hlt hyear
  · rw [heq]
    refine List.append_left_lt (List.cons_lt_cons_iff.mpr (.inr ⟨rfl, ?_⟩))
    obtain hlt | ⟨heq, hlt⟩ := hrest
    · exact digits_append_lt hlt (by omega)
    · rw [heq]
      exact List.append_left_lt (List.cons_lt_cons_iff.mpr
        (.inr ⟨rfl, digits_append_lt hlt (by omega)⟩))

theorem timeText_lt {n m : Nat} (h : n < m) (hm : m < 86400) (r r' : List Char) :
    timeText n ++ r < timeText m ++ r' := by
  simp only [timeText, List.append_assoc, List.cons_append]
  obtain hlt | heq := (Nat.div_le_div_right h.le : n / 3600 ≤ m / 3600).lt_or_eq
  · exact digits_append_lt hlt (by omega)
  · rw [heq]
    refine List.append_left_lt (List.cons_lt_cons_iff.mpr (.inr ⟨rfl, ?_⟩))
    obtain hlt | heq' := (by omega : n / 60 % 60 ≤ m / 60 % 60).lt_or_eq
    · exact digits_append_lt hlt (by omega)
    · rw [heq']
      exact List.append_left_lt (List.cons_lt_cons_iff.mpr
        (.inr ⟨rfl, digits_append_lt (by omega) (by omega)⟩))

/-- **The texts of instants are in the order of time**, whatever follows them. -/
theorem rfc3339_lt {t t' : Int} (h : t < t') (ht : FourDigits t) (ht' : FourDigits t')
    (r r' : List Char) : rfc3339 t ++ r < rfc3339 t' ++ r' := by
  simp only [rfc3339, List.append_assoc, List.cons_append]
  obtain hlt | heq : dayOf t < dayOf t' ∨ dayOf t = dayOf t' := by
    simp only [dayOf]
    omega
  · have hle := Date.ofDay_le (dayOf t').toNat
    have hnonneg := ht.1
    exact dateText_lt (Date.ofDay_before (by omega)) ht'.2 hle.1 hle.2 _ _
  · rw [heq]
    refine List.append_left_lt (List.cons_lt_cons_iff.mpr (.inr ⟨rfl, ?_⟩))
    have hsecond : secondOf t ≤ secondOf t' := by
      simp only [secondOf, dayOf] at heq ⊢
      omega
    obtain hlt | heq' := hsecond.lt_or_eq
    · refine timeText_lt hlt ?_ _ _
      rw [secondOf]
      omega
    · rw [heq']
      refine List.append_left_lt (fraction_lt ?_ ?_ _ _)
      · simp only [nanosOf, secondOf, dayOf] at heq heq' ⊢
        omega
      · rw [nanosOf]
        omega

/-- A text of time has no slash. -/
theorem slash_not_mem_rfc3339 (t : Int) : '/' ∉ rfc3339 t := by
  have hdigits : ∀ w n, '/' ∉ digits w n := fun w n h => absurd (mem_digits h).1 (by decide)
  have hfraction : ∀ n, '/' ∉ fraction n := by
    intro n
    rw [fraction]
    split
    · exact List.not_mem_nil
    · split
      · simp [hdigits]
      · split <;> simp [hdigits]
  simp [rfc3339, dateText, timeText, hdigits, hfraction]

theorem fourDigits_of_le {t : Int} (h : 0 ≤ dayOf t) (hle : dayOf t < 365 * 10 ^ 4) :
    FourDigits t := by
  have hyear := (Date.year_le (dayOf t).toNat).2
  exact ⟨h, by omega⟩

end Text
