import Nclav.Effect.Prog

/-!
# Runs as steps

A relation that says which calls may be made in which world gives a transition system. A program
follows the relation if each of its calls is allowed where it is made; then what the allowed
steps keep is kept by its runs.
-/

namespace Effect

variable {E : Type} {R : E → Type} {W : Type} {next : W → (c : E) → R c → W} {L L' : W → E → Prop}
  {I : W → Prop} {w w' w'' : W}

/-- The worlds that allowed calls lead to, whatever is answered. -/
inductive Steps (next : W → (c : E) → R c → W) (L : W → E → Prop) (w : W) : W → Prop
  | refl : Steps next L w w
  | next {w' : W} (c : E) (r : R c) (h : Steps next L w w') (hc : L w' c) :
    Steps next L w (next w' c r)

namespace Steps

theorem trans (h : Steps next L w w') (h' : Steps next L w' w'') : Steps next L w w'' := by
  induction h' with
  | refl => exact h
  | next c r _ hc ih => exact .next c r ih hc

theorem mono (h : Steps next L w w') (hL : ∀ w c, L w c → L' w c) : Steps next L' w w' := by
  induction h with
  | refl => exact .refl
  | next c r _ hc ih => exact .next c r ih (hL _ c hc)

/-- How steps end. -/
theorem last (h : Steps next L w w') :
    w' = w ∨ ∃ u c r, Steps next L w u ∧ L u c ∧ w' = next u c r := by
  cases h with
  | refl => exact .inl rfl
  | next c r h hc => exact .inr ⟨_, c, r, h, hc, rfl⟩

/-- **Invariants of steps.** -/
theorem invariant (h : Steps next L w w')
    (hI : ∀ w (c : E) (r : R c), L w c → I w → I (next w c r)) (hw : I w) : I w' := by
  induction h with
  | refl => exact hw
  | next c r _ hc ih => exact hI _ c r hc ih

end Steps

end Effect
