import Nclav.Effect.Prog

/-!
# The calls of a run, where they are made

A run is cut off just before a call. A call of a composed program belongs to its first part, or to
the second after a run of the first; a call of a loop belongs to one of its steps, after a run of
the loop over the elements before.
-/

namespace Effect

namespace Prog

variable {E : Type} {R : E → Type} {W α β ε : Type} {M : Machine E R W}

/-- `Makes M p w c v`: started in `w`, the program may come to make the call `c` in `v`. -/
inductive Makes (M : Machine E R W) : Prog E R α → W → E → W → Prop
  | here (c : E) (k : R c → Prog E R α) (w : W) : Makes M (.call c k) w c w
  | call {c c' : E} {k : R c → Prog E R α} {w v : W} (r : R c) :
    M.adm w c r → Makes M (k r) (M.next w c r) c' v → Makes M (.call c k) w c' v

theorem Makes.bind {p : Prog E R α} {f : α → Prog E R β} {w v : W} {c : E}
    (h : Makes M (p.bind f) w c v) :
    Makes M p w c v ∨ ∃ a w', Exec M p w a w' ∧ Makes M (f a) w' c v := by
  induction p generalizing w with
  | ret a => exact .inr ⟨a, w, .ret a w, h⟩
  | call c' k ih =>
    rw [call_bind] at h
    cases h with
    | here => exact .inl (.here _ k _)
    | call r hr hrest =>
      rcases ih r hrest with hmakes | ⟨a, w', hrun, hmakes⟩
      · exact .inl (.call r hr hmakes)
      · exact .inr ⟨a, w', .call r hr hrun, hmakes⟩

/-- A single call makes itself. -/
theorem Makes.of_perform {c c' : E} {w v : W} (h : Makes M (perform c) w c' v) : c' = c ∧ v = w := by
  cases h with
  | here => exact ⟨rfl, rfl⟩
  | call r _ hrest => cases hrest

/-- A program that comes to a call has been in its world. -/
theorem Makes.visits {p : Prog E R α} {w v : W} {c : E} (h : Makes M p w c v) : Visits M p w v := by
  induction h with
  | here c k w => exact .here _ w
  | call r hr _ ih => exact .call r hr ih

theorem Makes.calls {P : E → Prop} {Q : α → Prop} {p : Prog E R α} {w v : W} {c : E}
    (h : Makes M p w c v) (hp : Calls P Q p) : P c := by
  induction h with
  | here => exact hp.1
  | call r _ _ ih => exact ih (hp.2 r)

/-- Runs one after the other are a run of both. -/
theorem Exec.bind {p : Prog E R α} {f : α → Prog E R β} {w w' w'' : W} {a : α} {b : β}
    (h : Exec M p w a w') (h' : Exec M (f a) w' b w'') : Exec M (p.bind f) w b w'' := by
  induction h with
  | ret a w => exact h'
  | call r hr _ ih => exact .call r hr (ih h')

/-! ## Programs that may fail -/

theorem Exec.bindE {x : ExceptT ε (Prog E R) α} {f : α → ExceptT ε (Prog E R) β} {w w' w'' : W}
    {a : α} {r : Except ε β} (h : Exec M x.run w (.ok a) w') (h' : Exec M (f a).run w' r w'') :
    Exec M (x >>= f).run w r w'' :=
  Exec.bind (p := x.run) (f := fun r => ExceptT.bindCont f r) h h'

/-- After a failure no call is made. -/
theorem Makes.bindE {x : ExceptT ε (Prog E R) α} {f : α → ExceptT ε (Prog E R) β} {w v : W} {c : E}
    (h : Makes M (x >>= f).run w c v) :
    Makes M x.run w c v ∨ ∃ a w', Exec M x.run w (.ok a) w' ∧ Makes M (f a).run w' c v := by
  have hbind : Makes M (x.run.bind fun r => ExceptT.bindCont f r) w c v := h
  rcases hbind.bind with
    hmakes | ⟨r, w', hrun, hmakes⟩
  · exact .inl hmakes
  · cases r with
    | ok a => exact .inr ⟨a, w', hrun, hmakes⟩
    | error e => cases hmakes

theorem Makes.callsE {P : E → Prop} {Q : α → Prop} {x : ExceptT ε (Prog E R) α} {w v : W} {c : E}
    (h : Makes M x.run w c v) (hx : CallsE P Q x) : P c :=
  Makes.calls h hx

/-- The loop of `f` over `xs`, started on `b` in `w`, comes to `x` with the accumulator `b'` in
`v`. -/
def Comes (M : Machine E R W) (f : β → α → ExceptT ε (Prog E R) β) (xs : List α) (b : β) (w : W)
    (x : α) (b' : β) (v : W) : Prop :=
  ∃ pre post, xs = pre ++ x :: post ∧ Exec M (pre.foldlM f b).run w (.ok b') v

theorem Comes.mem {f : β → α → ExceptT ε (Prog E R) β} {xs : List α} {b b' : β} {w v : W} {x : α}
    (h : Comes M f xs b w x b' v) : x ∈ xs := by
  obtain ⟨pre, post, rfl, -⟩ := h
  exact List.mem_append_right _ (List.mem_cons_self ..)

theorem Makes.foldlM {f : β → α → ExceptT ε (Prog E R) β} {xs : List α} {b : β} {w v : W} {c : E}
    (h : Makes M (xs.foldlM f b).run w c v) :
    ∃ x b' w', Comes M f xs b w x b' w' ∧ Makes M (f b' x).run w' c v := by
  induction xs generalizing b w with
  | nil => cases h
  | cons x xs ih =>
    rw [List.foldlM_cons] at h
    rcases h.bindE with hmakes | ⟨b', w', hrun, hmakes⟩
    · exact ⟨x, b, w, ⟨[], xs, rfl, .ret _ w⟩, hmakes⟩
    · obtain ⟨y, b'', w'', ⟨pre, post, hsplit, hpre⟩, hmakes⟩ := ih hmakes
      refine ⟨y, b'', w'', ⟨x :: pre, post, congrArg (x :: ·) hsplit, ?_⟩, hmakes⟩
      rw [List.foldlM_cons]
      exact hrun.bindE hpre

end Prog

end Effect
