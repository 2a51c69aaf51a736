import Nclav.Effect.Prog

/-!
# Programs side by side

A pool of programs over one world: in each step one of them makes its next call, in the world that
the others have left. A run is any interleaving of their calls, cut off anywhere. What the allowed
steps keep holds in every pool that is reached.
-/

namespace Effect

variable {ι E : Type} {R : E → Type} {W α : Type}

/-- Programs, each with what is left of it, and the world they share. -/
structure Pool (ι : Type) (E : Type) (R : E → Type) (W α : Type) : Type where
  threads : ι → Prog E R α
  world : W

namespace Pool

variable [DecidableEq ι] {M : Machine E R W} {C C' : Pool ι E R W α → ι → E → Prop}
  {s s' s'' : Pool ι E R W α}

/-- The pool after a call of one program, which goes on as `p`. -/
def after (next : W → (c : E) → R c → W) (s : Pool ι E R W α) (i : ι) (c : E) (r : R c)
    (p : Prog E R α) : Pool ι E R W α :=
  ⟨Function.update s.threads i p, next s.world c r⟩

/-- The interleavings in which each call meets the condition `C` in the pool where it is made. -/
inductive Runs (M : Machine E R W) (C : Pool ι E R W α → ι → E → Prop) (s : Pool ι E R W α) :
    Pool ι E R W α → Prop
  | refl : Runs M C s s
  | step {s' : Pool ι E R W α} (i : ι) (c : E) (k : R c → Prog E R α) (r : R c) (h : Runs M C s s')
    (hcall : s'.threads i = .call c k) (hadm : M.adm s'.world c r) (hC : C s' i c) :
    Runs M C s (s'.after M.next i c r (k r))

/-- A condition that the calls meet where they are made. -/
theorem Runs.mono (h : Runs M C s s')
    (hC : ∀ s i (c : E) (k : R c → Prog E R α), s.threads i = .call c k → C s i c → C' s i c) :
    Runs M C' s s' := by
  induction h with
  | refl => exact .refl
  | step i c k r _ hcall hadm hc ih => exact .step i c k r ih hcall hadm (hC _ i c k hcall hc)

/-- **Invariants of interleavings.** -/
theorem Runs.invariant {I : Pool ι E R W α → Prop} (h : Runs M C s s')
    (hstep : ∀ s i (c : E) (k : R c → Prog E R α) (r : R c), s.threads i = .call c k →
      M.adm s.world c r → C s i c → I s → I (s.after M.next i c r (k r)))
    (hs : I s) : I s' := by
  induction h with
  | refl => exact hs
  | step i c k r _ hcall hadm hC ih => exact hstep _ i c k r hcall hadm hC ih

@[simp] theorem after_threads_self (next : W → (c : E) → R c → W) (i : ι) (c : E) (r : R c)
    (p : Prog E R α) : (s.after next i c r p).threads i = p := Function.update_self ..

theorem after_threads_of_ne (next : W → (c : E) → R c → W) {i j : ι} (h : j ≠ i) (c : E) (r : R c)
    (p : Prog E R α) : (s.after next i c r p).threads j = s.threads j := Function.update_of_ne h ..

@[simp] theorem after_world (next : W → (c : E) → R c → W) (i : ι) (c : E) (r : R c)
    (p : Prog E R α) : (s.after next i c r p).world = next s.world c r := rfl

end Pool

end Effect
