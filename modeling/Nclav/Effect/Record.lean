import Nclav.Effect.Prog

/-!
# Recorded runs

The recorder answers anything and keeps every call with its answer. What a program records on its
way to a success is found part by part: a record made by one part stays to the end.
-/

namespace Effect

variable {E : Type} {R : E → Type} {ε α β : Type}

/-- The machine that answers anything and keeps a record, newest first. -/
def recorder : Machine E R (List ((c : E) × R c)) where
  adm _ _ _ := True
  next log c r := ⟨c, r⟩ :: log

/-- What is recorded stays. -/
theorem recorder_subset {p : Prog E R α} {log log' : List ((c : E) × R c)} {a : α}
    (h : Prog.Exec recorder p log a log') : log ⊆ log' := by
  induction h with
  | ret => exact fun _ h => h
  | call r _ _ ih => exact fun ev hev => ih (List.mem_cons_of_mem _ hev)

/-- Each success of the program has an event of this kind on record. -/
def Records (p : (c : E) × R c → Prop) (x : ExceptT ε (Prog E R) α) : Prop :=
  ∀ log, Prog.wpE recorder x (fun r log' => ∀ a, r = .ok a → ∃ ev ∈ log', p ev) log

namespace Records

variable {p : (c : E) × R c → Prop}

/-- What the first part records is on record in the end. -/
theorem bind_left {x : ExceptT ε (Prog E R) α} {f : α → ExceptT ε (Prog E R) β}
    (hx : Records p x) : Records p (x >>= f) := by
  intro log
  refine Prog.wpE_bind_ok (Q := fun _ log' => ∃ ev ∈ log', p ev)
    (Prog.wpE_mono (hx log) fun r log' h a hr => ?_)
  obtain ⟨ev, hev, hp⟩ := h a hr
  exact Prog.wp_iff.mpr fun _ _ hrest _ _ => ⟨ev, recorder_subset hrest hev, hp⟩

/-- So is what the second part records. -/
theorem bind_right {x : ExceptT ε (Prog E R) α} {f : α → ExceptT ε (Prog E R) β}
    (hf : ∀ a, Records p (f a)) : Records p (x >>= f) := fun _ =>
  Prog.wpE_bind_ok (Q := fun _ log' => ∃ ev ∈ log', p ev)
    (Prog.wp_iff.mpr fun _ log' _ a _ => hf a log')

/-- A program that fails records nothing for a success. -/
theorem throw (e : ε) : Records p (MonadExceptOf.throw e : ExceptT ε (Prog E R) α) := by
  rintro log _ ⟨⟩

/-- A handler that records as well leaves the record of the successes alone. -/
theorem tryCatch {x : ExceptT ε (Prog E R) α} {f : ε → ExceptT ε (Prog E R) α}
    (hx : Records p x) (hf : ∀ e, Records p (f e)) :
    Records p (MonadExceptOf.tryCatch x f : ExceptT ε (Prog E R) α) := by
  intro log
  refine Prog.wp_bind.mpr (Prog.wp_mono (hx log) fun r log' h => ?_)
  cases r with
  | ok a => exact fun a' hr => h a rfl
  | error e => exact hf e log'

/-- What one step of a loop records is on record after the loop. -/
theorem foldlM {f : β → α → ExceptT ε (Prog E R) β} {xs : List α} {x : α} (hx : x ∈ xs)
    (hf : ∀ b, Records p (f b x)) (b : β) : Records p (xs.foldlM f b) := by
  induction xs generalizing b with
  | nil => cases hx
  | cons y ys ih =>
    rw [List.foldlM_cons]
    rcases List.mem_cons.mp hx with rfl | hx
    · exact bind_left (hf b)
    · exact bind_right fun b' => ih hx b'

/-- A call and what is made of its answer: where the answer is no error, it is on record. -/
theorem call {c : E} {f : R c → Except ε α} (hp : ∀ r a, f r = .ok a → p ⟨c, r⟩) :
    Records p (ExceptT.mk ((Prog.perform c).bind fun r => .ret (f r))) :=
  fun _ r _ a hr => ⟨⟨c, r⟩, List.mem_cons_self .., hp r a hr⟩

/-- A request after which the program goes on only if the answer is of this kind. -/
theorem call_then {c : E} {f : R c → Except ε β} {g : β → ExceptT ε (Prog E R) α}
    (h : ∀ r b, f r = .ok b → p ⟨c, r⟩ ∨ ∃ e : ε, g b = MonadExceptOf.throw e) :
    Records p (ExceptT.mk ((Prog.perform c).bind fun r => .ret (f r)) >>= g) := by
  intro log
  rw [Prog.wpE_bind]
  intro r _
  show Prog.onOk (fun b => Prog.wpE recorder (g b) _) _ (f r) (⟨c, r⟩ :: log)
  rcases hf : f r with e | b
  · rintro _ ⟨⟩
  · rcases h r b hf with hp | ⟨e, he⟩
    · exact Prog.wp_iff.mpr fun _ _ hrest _ _ =>
        ⟨⟨c, r⟩, recorder_subset hrest (List.mem_cons_self ..), hp⟩
    · rw [Prog.onOk, he]
      rintro _ ⟨⟩

end Records

/-- Each success of the program satisfies this. -/
def Returns (Q : α → Prop) (x : ExceptT ε (Prog E R) α) : Prop :=
  ∀ log, Prog.wpE recorder x (fun r _ => ∀ a, r = .ok a → Q a) log

theorem Returns.pure {Q : α → Prop} {a : α} (h : Q a) :
    Returns Q (Pure.pure a : ExceptT ε (Prog E R) α) := by
  rintro log _ ⟨⟩
  exact h

theorem Returns.bind_right {Q : β → Prop} {x : ExceptT ε (Prog E R) α}
    {f : α → ExceptT ε (Prog E R) β} (hf : ∀ a, Returns Q (f a)) : Returns Q (x >>= f) := fun _ =>
  Prog.wpE_bind_ok (Q := fun b _ => Q b) (Prog.wp_iff.mpr fun _ log' _ a _ => hf a log')

/-- A program that fails has no success. -/
theorem Returns.throw {Q : α → Prop} {e : ε} :
    Returns Q (MonadExceptOf.throw e : ExceptT ε (Prog E R) α) := by
  rintro log _ ⟨⟩

end Effect
