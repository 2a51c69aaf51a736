import Nclav.Effect.Makes

/-!
# Two runs side by side

A property of two runs relates how they end. `Both` says it of two programs, whatever the machine
answers to each; where both make the same call the rule is one of the two answers, and where they
part each is described by itself. `BothE` is about programs that may fail, and says nothing where
one of them does.
-/

namespace Effect

namespace Prog

variable {E : Type} {R : E → Type} {W α β α' β' σ τ ε : Type} {M : Machine E R W}

/-- A run of both parts is a run of the first and one of the second. -/
theorem Exec.of_bind {p : Prog E R α} {f : α → Prog E R β} {w w'' : W} {b : β}
    (h : Exec M (p.bind f) w b w'') : ∃ a w', Exec M p w a w' ∧ Exec M (f a) w' b w'' := by
  induction p generalizing w with
  | ret a => exact ⟨a, w, .ret a w, h⟩
  | call c k ih =>
    rcases h with _ | ⟨r, hr, hrest⟩
    obtain ⟨a, w', hrun, hrun'⟩ := ih r hrest
    exact ⟨a, w', .call r hr hrun, hrun'⟩

/-- However `p`, started in `w`, and `q`, started in `v`, end, `P` relates their ends. -/
def Both (M : Machine E R W) (P : α → W → β → W → Prop) (p : Prog E R α) (w : W)
    (q : Prog E R β) (v : W) : Prop :=
  ∀ a w', Exec M p w a w' → ∀ b v', Exec M q v b v' → P a w' b v'

section

variable {P P' : α → W → β → W → Prop} {w v : W}

theorem Both.ret {a : α} {b : β} (h : P a w b v) : Both M P (.ret a) w (.ret b) v := by
  rintro _ _ ⟨⟩ _ _ ⟨⟩
  exact h

/-- Two calls, each answered. -/
theorem Both.perform {c d : E} {P : R c → W → R d → W → Prop}
    (h : ∀ r s, M.adm w c r → M.adm v d s → P r (M.next w c r) s (M.next v d s)) :
    Both M P (Prog.perform c) w (Prog.perform d) v := by
  rintro a w' (_ | ⟨r, hr, ⟨⟩⟩) b v' (_ | ⟨s, hs, ⟨⟩⟩)
  exact h a b hr hs

theorem Both.bind {Q : α' → W → β' → W → Prop} {p : Prog E R α} {q : Prog E R β}
    {f : α → Prog E R α'} {g : β → Prog E R β'} (hp : Both M P p w q v)
    (hf : ∀ a w' b v', P a w' b v' → Both M Q (f a) w' (g b) v') :
    Both M Q (p.bind f) w (q.bind g) v := by
  intro a w'' hrun b v'' hrun'
  obtain ⟨a', w', hp₁, hf₁⟩ := hrun.of_bind
  obtain ⟨b', v', hp₂, hf₂⟩ := hrun'.of_bind
  exact hf a' w' b' v' (hp a' w' hp₁ b' v' hp₂) a w'' hf₁ b v'' hf₂

theorem Both.mono {p : Prog E R α} {q : Prog E R β} (h : Both M P p w q v)
    (hP : ∀ a w' b v', P a w' b v' → P' a w' b v') : Both M P' p w q v :=
  fun a w' hrun b v' hrun' => hP a w' b v' (h a w' hrun b v' hrun')

end

/-! ## Programs that may fail -/

/-- Where both programs succeed, `P` relates their ends. -/
def BothE (M : Machine E R W) (P : α → W → β → W → Prop) (x : ExceptT ε (Prog E R) α) (w : W)
    (y : ExceptT ε (Prog E R) β) (v : W) : Prop :=
  ∀ a w', Exec M x.run w (.ok a) w' → ∀ b v', Exec M y.run v (.ok b) v' → P a w' b v'

section

variable {P P' : α → W → β → W → Prop} {w v : W}

theorem BothE.pure {a : α} {b : β} (h : P a w b v) :
    BothE M P (Pure.pure a : ExceptT ε (Prog E R) α) w
      (Pure.pure b : ExceptT ε (Prog E R) β) v := by
  rintro _ _ ⟨⟩ _ _ ⟨⟩
  exact h

theorem BothE.monadLift {p : Prog E R α} {q : Prog E R β} (h : Both M P p w q v) :
    BothE M P (MonadLiftT.monadLift p : ExceptT ε (Prog E R) α) w
      (MonadLiftT.monadLift q : ExceptT ε (Prog E R) β) v := by
  intro a w' hrun b v' hrun'
  obtain ⟨a', w₁, hp, ⟨⟩⟩ := Exec.of_bind (p := p) (f := fun a => .ret (Except.ok a)) hrun
  obtain ⟨b', v₁, hq, ⟨⟩⟩ := Exec.of_bind (p := q) (f := fun b => .ret (Except.ok b)) hrun'
  exact h a w' hp b v' hq

theorem BothE.bind {Q : α' → W → β' → W → Prop} {x : ExceptT ε (Prog E R) α}
    {y : ExceptT ε (Prog E R) β} {f : α → ExceptT ε (Prog E R) α'}
    {g : β → ExceptT ε (Prog E R) β'} (hx : BothE M P x w y v)
    (hf : ∀ a w' b v', P a w' b v' → BothE M Q (f a) w' (g b) v') :
    BothE M Q (x >>= f) w (y >>= g) v := by
  intro a w'' hrun b v'' hrun'
  obtain ⟨r, w', hx₁, hf₁⟩ := Exec.of_bind (p := x.run) (f := fun r => ExceptT.bindCont f r) hrun
  obtain ⟨s, v', hx₂, hf₂⟩ := Exec.of_bind (p := y.run) (f := fun r => ExceptT.bindCont g r) hrun'
  cases r with
  | error e => cases hf₁
  | ok a' =>
    cases s with
    | error e => cases hf₂
    | ok b' => exact hf a' w' b' v' (hx a' w' hx₁ b' v' hx₂) a w'' hf₁ b v'' hf₂

theorem BothE.mono {x : ExceptT ε (Prog E R) α} {y : ExceptT ε (Prog E R) β}
    (h : BothE M P x w y v) (hP : ∀ a w' b v', P a w' b v' → P' a w' b v') :
    BothE M P' x w y v :=
  fun a w' hrun b v' hrun' => hP a w' b v' (h a w' hrun b v' hrun')

/-- What each of the two ensures by itself. -/
theorem BothE.of_wpE {P : α → W → Prop} {Q : β → W → Prop} {x : ExceptT ε (Prog E R) α}
    {y : ExceptT ε (Prog E R) β} (hx : wpE M x (fun r w' => ∀ a, r = .ok a → P a w') w)
    (hy : wpE M y (fun r v' => ∀ b, r = .ok b → Q b v') v) :
    BothE M (fun a w' b v' => P a w' ∧ Q b v') x w y v :=
  fun a _ hrun b _ hrun' => ⟨hrun.wp hx a rfl, hrun'.wp hy b rfl⟩

theorem BothE.and {x : ExceptT ε (Prog E R) α} {y : ExceptT ε (Prog E R) β}
    (h : BothE M P x w y v) (h' : BothE M P' x w y v) :
    BothE M (fun a w' b v' => P a w' b v' ∧ P' a w' b v') x w y v :=
  fun a w' hrun b v' hrun' => ⟨h a w' hrun b v' hrun', h' a w' hrun b v' hrun'⟩

/-- Two loops over the same list, whatever each does in a step. -/
theorem BothE.foldlM {f : σ → α → ExceptT ε (Prog E R) σ} {g : τ → α → ExceptT ε (Prog E R) τ}
    (J : σ → W → τ → W → Prop) {xs : List α}
    (hstep : ∀ b w c v, ∀ x ∈ xs, J b w c v → BothE M J (f b x) w (g c x) v)
    {b : σ} {c : τ} (hJ : J b w c v) : BothE M J (xs.foldlM f b) w (xs.foldlM g c) v := by
  induction xs generalizing b w c v with
  | nil => exact BothE.pure hJ
  | cons x xs ih =>
    rw [List.foldlM_cons, List.foldlM_cons]
    exact BothE.bind (hstep b w c v x (List.mem_cons_self ..) hJ) fun b' w' c' v' hJ' =>
      ih (fun b w c v y hy => hstep b w c v y (List.mem_cons_of_mem _ hy)) hJ'

end

end Prog

end Effect
