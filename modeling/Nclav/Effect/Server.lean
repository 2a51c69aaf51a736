import Nclav.Effect.Poll

/-!
# Programs and a server

A server answers some of the calls, each in one way, and its state changes with them. A program that
nothing else disturbs then has at most one run, `Server.run`: none where it makes a call that is not
answered. The rules below run a program step by step.
-/

namespace Effect

structure Server (E : Type) (R : E → Type) (W : Type) where
  answer : W → (c : E) → Option (R c)
  /-- the state after the call was answered -/
  after : W → E → W

namespace Server

variable {E : Type} {R : E → Type} {W ε α β : Type} (s : Server E R W)

/-- The end of a program that may fail, and what it leaves behind. -/
def run (x : ExceptT ε (Prog E R) α) (w : W) : Option (Except ε α × W) :=
  Prog.tryRun (fun w c _ => s.after w c) s.answer x.run w

theorem tryRun_bind {next : W → (c : E) → R c → W} {o : W → (c : E) → Option (R c)}
    (p : Prog E R α) (f : α → Prog E R β) (w : W) :
    Prog.tryRun next o (p.bind f) w =
      (Prog.tryRun next o p w).bind fun e => Prog.tryRun next o (f e.1) e.2 := by
  induction p generalizing w with
  | ret a => rfl
  | call c k ih =>
    rw [Prog.call_bind, Prog.tryRun, Prog.tryRun]
    cases o w c with
    | none => rfl
    | some r => exact ih r _

variable {s} {x : ExceptT ε (Prog E R) α} {f : α → ExceptT ε (Prog E R) β} {w v : W}

@[simp] theorem run_pure (a : α) :
    s.run (pure a : ExceptT ε (Prog E R) α) w = some (.ok a, w) := rfl

@[simp] theorem run_throw (e : ε) :
    s.run (throw e : ExceptT ε (Prog E R) α) w = some (.error e, w) := rfl

theorem run_bind : s.run (x >>= f) w = (s.run x w).bind fun e =>
    match e.1 with
    | .ok a => s.run (f a) e.2
    | .error err => some (.error err, e.2) := by
  refine (tryRun_bind _ _ w).trans (congrArg _ (funext fun e => ?_))
  rcases e with ⟨err | a, v⟩
  · rfl
  · rfl

theorem run_bind_ok {a : α} (h : s.run x w = some (.ok a, v)) :
    s.run (x >>= f) w = s.run (f a) v := by
  rw [run_bind, h, Option.bind_some]

theorem run_bind_error {e : ε} (h : s.run x w = some (.error e, v)) :
    s.run (x >>= f) w = some (.error e, v) := by
  rw [run_bind, h, Option.bind_some]

theorem run_tryCatch_ok {a : α} {handler : ε → ExceptT ε (Prog E R) α}
    (h : s.run x w = some (.ok a, v)) : s.run (tryCatch x handler) w = some (.ok a, v) := by
  refine (tryRun_bind _ _ w).trans ?_
  exact congrArg (Option.bind · _) h

/-- A call whose answer is looked at. -/
theorem run_send {c : E} {r : R c} (h : s.answer w c = some r) :
    s.run (monadLift (Prog.perform c) : ExceptT ε (Prog E R) (R c)) w =
      some (.ok r, s.after w c) :=
  Prog.tryRun_call _ _ h

/-- A loop whose body does not fail. -/
theorem run_forM {f : α → ExceptT ε (Prog E R) PUnit} {step : W → α → W}
    (hf : ∀ x w, s.run (f x) w = some (.ok ⟨⟩, step w x)) (xs : List α) :
    s.run (xs.forM f) w = some (.ok ⟨⟩, xs.foldl step w) := by
  induction xs generalizing w with
  | nil => rfl
  | cons x xs ih => exact (run_bind_ok (hf x w)).trans ih

end Server

end Effect
