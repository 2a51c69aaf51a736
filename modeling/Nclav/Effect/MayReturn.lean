import Nclav.Effect.Both
import Nclav.Effect.Record

/-!
# What a program may return

`MayReturn x a`: under some answers the program succeeds with `a`.
-/

namespace Effect

variable {E : Type} {R : E → Type} {ε α β : Type}

def MayReturn (x : ExceptT ε (Prog E R) α) (a : α) : Prop :=
  ∃ log log', Prog.Exec recorder x.run log (.ok a) log'

namespace MayReturn

variable {x : ExceptT ε (Prog E R) α} {f : α → ExceptT ε (Prog E R) β} {a a' : α} {b : β}

@[simp] theorem pure_iff : MayReturn (pure a : ExceptT ε (Prog E R) α) a' ↔ a' = a := by
  constructor
  · rintro ⟨log, log', ⟨⟩⟩
    rfl
  · rintro rfl
    exact ⟨[], [], .ret _ []⟩

theorem of_throw {e : ε} (h : MayReturn (throw e : ExceptT ε (Prog E R) α) a) : False := by
  obtain ⟨log, log', ⟨⟩⟩ := h

theorem of_bind (h : MayReturn (x >>= f) b) : ∃ a, MayReturn x a ∧ MayReturn (f a) b := by
  obtain ⟨log, log', hrun⟩ := h
  obtain ⟨r, v, hx, hf⟩ := Prog.Exec.of_bind hrun
  cases r with
  | error e => cases hf
  | ok a => exact ⟨a, ⟨log, v, hx⟩, ⟨v, log', hf⟩⟩

end MayReturn

end Effect
