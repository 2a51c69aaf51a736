import Nclav.Effect.Prog

/-!
# Programs alone

A step function answers each call in one way. A program that nothing else disturbs then has one run,
`alone`.
-/

namespace Effect

variable {E : Type} {R : E → Type} {W α β : Type}

/-- The machine of a step function. -/
def Machine.ofStep (step : W → (c : E) → R c × W) : Machine E R W where
  adm w c r := r = (step w c).1
  next w c _ := (step w c).2

namespace Prog

/-- The result of a program, and what it leaves behind. -/
def alone (step : W → (c : E) → R c × W) : Prog E R α → W → α × W
  | ret a, w => (a, w)
  | call c k, w => alone step (k (step w c).1) (step w c).2

variable (step : W → (c : E) → R c × W)

@[simp] theorem alone_ret (a : α) (w : W) : (ret a : Prog E R α).alone step w = (a, w) := rfl

@[simp] theorem alone_call (c : E) (k : R c → Prog E R α) (w : W) :
    (call c k).alone step w = (k (step w c).1).alone step (step w c).2 := rfl

@[simp] theorem alone_perform (c : E) (w : W) : (perform c).alone step w = step w c := rfl

@[simp] theorem alone_bind (p : Prog E R α) (f : α → Prog E R β) (w : W) :
    (p.bind f).alone step w = (f (p.alone step w).1).alone step (p.alone step w).2 := by
  induction p generalizing w with
  | ret a => rfl
  | call c k ih => exact ih _ _

end Prog

end Effect
