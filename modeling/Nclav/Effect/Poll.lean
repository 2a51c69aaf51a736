import Nclav.Effect.Prog

/-!
# Polling

A loop that asks until an answer is final, a bounded number of times: which answer it ends with and
how often it has asked. And programs some of whose calls are programs themselves.
-/

namespace Effect

/-! ## The loop -/

section

variable {ρ : Type} {verdict : Nat → Option ρ} {timeout r : ρ}

/-- Ask `left` times at most, for the `i`-th answer first. With the result comes how many answers
there have been. -/
def poll (verdict : Nat → Option ρ) (timeout : ρ) : (left i : Nat) → ρ × Nat
  | 0, i => (timeout, i)
  | left + 1, i =>
    match verdict i with
    | some r => (r, i + 1)
    | none => poll verdict timeout left (i + 1)

/-- The first final answer is the `j`-th. -/
def FirstFinal (verdict : Nat → Option ρ) (j : Nat) (r : ρ) : Prop :=
  verdict j = some r ∧ ∀ k < j, verdict k = none

/-- It ends with the first final answer, or with the timeout after all the time. -/
theorem poll_spec (verdict : Nat → Option ρ) (timeout : ρ) (left i : Nat)
    (hbefore : ∀ k < i, verdict k = none) :
    (∃ j < i + left, FirstFinal verdict j (poll verdict timeout left i).1 ∧
      (poll verdict timeout left i).2 = j + 1) ∨
    (poll verdict timeout left i = (timeout, i + left) ∧ ∀ k < i + left, verdict k = none) := by
  induction left generalizing i with
  | zero => exact .inr ⟨rfl, hbefore⟩
  | succ left ih =>
    rw [poll]
    split
    · rename_i r hr
      exact .inl ⟨i, by omega, ⟨hr, hbefore⟩, rfl⟩
    · rename_i hnone
      have hbefore' : ∀ k < i + 1, verdict k = none := by
        intro k hk
        rcases Nat.lt_or_eq_of_le (Nat.le_of_lt_succ hk) with hlt | rfl
        · exact hbefore k hlt
        · exact hnone
      rw [show i + (left + 1) = i + 1 + left by omega]
      exact ih (i + 1) hbefore'

/-- A result that is not the timeout is the one of the first final answer in time. -/
theorem poll_eq_iff (left : Nat) (hr : r ≠ timeout) :
    (poll verdict timeout left 0).1 = r ↔ ∃ j < left, FirstFinal verdict j r := by
  have hspec := poll_spec verdict timeout left 0 nofun
  rw [Nat.zero_add] at hspec
  constructor
  · rintro rfl
    rcases hspec with ⟨j, hj, hfirst, -⟩ | ⟨htimeout, -⟩
    · exact ⟨j, hj, hfirst⟩
    · exact absurd (congrArg Prod.fst htimeout) hr
  · rintro ⟨j, hj, hfinal, hbefore⟩
    rcases hspec with ⟨j', -, hfirst, -⟩ | ⟨-, hnone⟩
    · rcases Nat.lt_trichotomy j j' with hlt | rfl | hlt
      · rw [hfirst.2 j hlt] at hfinal
        cases hfinal
      · exact Option.some.inj (hfirst.1.symm.trans hfinal)
      · have hfirst' := hfirst.1
        rw [hbefore j' hlt] at hfirst'
        cases hfirst'
    · rw [hnone j hj] at hfinal
      cases hfinal

/-- Nothing is asked behind a final answer. -/
theorem poll_stops (left : Nat) {j : Nat} (hj : verdict j = some r) :
    (poll verdict timeout left 0).2 ≤ j + 1 := by
  rcases poll_spec verdict timeout left 0 nofun with
    ⟨j', -, hfirst, hcount⟩ | ⟨hcount, hnone⟩
  · rw [hcount]
    by_contra hlt
    rw [hfirst.2 j (by omega)] at hj
    cases hj
  · rw [hcount]
    by_contra hlt
    rw [hnone j (by omega)] at hj
    cases hj

end

/-! ## Calls that are programs -/

namespace Prog

variable {E : Type} {R : E → Type} {W α : Type} (next : W → (c : E) → R c → W)
  (o : W → (c : E) → Option (R c))

/-- The program with a program for each call. -/
def expand (h : (c : E) → Prog E R (R c)) : Prog E R α → Prog E R α
  | ret a => ret a
  | call c k => (h c).bind fun r => (k r).expand h

theorem bind_ret (p : Prog E R α) : p.bind ret = p := by
  induction p with
  | ret a => rfl
  | call c k ih =>
    rw [call_bind]
    exact congrArg (call c) (funext ih)

theorem tryRun_call {c : E} {k : R c → Prog E R α} {w : W} {r : R c} (h : o w c = some r) :
    tryRun next o (call c k) w = tryRun next o (k r) (next w c r) := by
  rw [tryRun, h]

end Prog

end Effect
