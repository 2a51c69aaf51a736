import Mathlib

/-!
# Effect programs and their weakest preconditions

A program is a tree of calls: the free monad over a signature `E` of calls, the call `c`
being answered by a value of `R c`. Nothing is said in the tree about what an answer may
be. That is the part of a `Machine`, which gives for every state of the world the answers
it admits to a call and the world after the answer. Three views of a run over a machine:

* `Exec` — the run as a relation, every answer the machine admits being possible;
* `wp` — the weakest precondition, demonic in the answers, computed along the tree;
* `run` — the run under an oracle, a function, for evaluating one outcome.

`wp_iff` joins the first two, `exec_run` the first and the last. Programs that may fail
are programs with an `Except` result, composed as `ExceptT`; their loops are `foldlM`, and
`wp_foldlM` is the invariant rule for them.
-/

namespace Effect

/-- Programs over the calls `E`, the call `c` being answered in `R c`. -/
inductive Prog (E : Type) (R : E → Type) (α : Type) : Type where
  /-- finish with a result -/
  | ret : α → Prog E R α
  /-- make a call and continue with its answer -/
  | call : (c : E) → (R c → Prog E R α) → Prog E R α

namespace Prog

variable {E : Type} {R : E → Type} {α β : Type}

/-- Graft a continuation onto every `ret` leaf. -/
protected def bind : Prog E R α → (α → Prog E R β) → Prog E R β
  | ret a, f => f a
  | call c k, f => call c fun r => (k r).bind f

/-- The program that makes one call and returns its answer. -/
def perform (c : E) : Prog E R (R c) := call c ret

instance : Monad (Prog E R) where
  pure := ret
  bind := Prog.bind

@[simp] theorem pure_eq (a : α) : (pure a : Prog E R α) = ret a := rfl

@[simp] theorem bind_eq (p : Prog E R α) (f : α → Prog E R β) : p >>= f = p.bind f := rfl

@[simp] theorem ret_bind (a : α) (f : α → Prog E R β) : (ret a).bind f = f a := rfl

@[simp] theorem call_bind (c : E) (k : R c → Prog E R α) (f : α → Prog E R β) :
    (call c k).bind f = call c fun r => (k r).bind f := rfl

end Prog

/-- What runs programs: the answers admitted in a world, and the world after one. -/
structure Machine (E : Type) (R : E → Type) (W : Type) where
  /-- the answer may be given to the call in this world -/
  adm : W → (c : E) → R c → Prop
  /-- the world after the call was answered -/
  next : W → (c : E) → R c → W

namespace Prog

variable {E : Type} {R : E → Type} {W α β ε : Type} {M M' : Machine E R W}

/-! ## Runs -/

/-- `Exec M p w a w'`: started in `w`, the program may end with `a` in `w'`. -/
inductive Exec (M : Machine E R W) : Prog E R α → W → α → W → Prop
  | ret (a : α) (w : W) : Exec M (.ret a) w a w
  | call {c : E} {k : R c → Prog E R α} {w : W} (r : R c) {a : α} {w' : W} :
      M.adm w c r → Exec M (k r) (M.next w c r) a w' → Exec M (.call c k) w a w'

/-- A machine that admits fewer answers has fewer runs. -/
theorem Exec.mono (hadm : ∀ w c r, M.adm w c r → M'.adm w c r) (hnext : M.next = M'.next)
    {p : Prog E R α} {w w' : W} {a : α} (h : Exec M p w a w') : Exec M' p w a w' := by
  induction h with
  | ret a w => exact .ret a w
  | call r hr _ ih =>
    rw [hnext] at ih
    exact .call r (hadm _ _ _ hr) ih

/-- Every call is answered: a program always ends. -/
theorem exists_exec (htotal : ∀ w c, ∃ r, M.adm w c r) (p : Prog E R α) :
    ∀ w, ∃ a w', Exec M p w a w' := by
  induction p with
  | ret a => exact fun w => ⟨a, w, .ret a w⟩
  | call c k ih =>
    intro w
    obtain ⟨r, hr⟩ := htotal w c
    obtain ⟨a, w', h⟩ := ih r (M.next w c r)
    exact ⟨a, w', .call r hr h⟩

/-- The run in which the oracle `o` answers every call. -/
def run (next : W → (c : E) → R c → W) (o : W → (c : E) → R c) : Prog E R α → W → α × W
  | ret a, w => (a, w)
  | call c k, w => run next o (k (o w c)) (next w c (o w c))

/-- An oracle whose answers the machine admits yields a run of the machine. -/
theorem exec_run {o : W → (c : E) → R c} (ho : ∀ w c, M.adm w c (o w c)) (p : Prog E R α) :
    ∀ w, Exec M p w (run M.next o p w).1 (run M.next o p w).2 := by
  induction p with
  | ret a => exact fun w => .ret a w
  | call c k ih => exact fun w => .call (o w c) (ho w c) (ih (o w c) _)

/-- A run under an oracle that may have no answer. -/
def tryRun (next : W → (c : E) → R c → W) (o : W → (c : E) → Option (R c)) :
    Prog E R α → W → Option (α × W)
  | ret a, w => some (a, w)
  | call c k, w =>
    match o w c with
    | some r => tryRun next o (k r) (next w c r)
    | none => none

/-- Where it comes to an end, such an oracle yields a run as well. -/
theorem exec_tryRun {o : W → (c : E) → Option (R c)} (ho : ∀ w c r, o w c = some r → M.adm w c r)
    {p : Prog E R α} {w w' : W} {a : α} (h : tryRun M.next o p w = some (a, w')) :
    Exec M p w a w' := by
  induction p generalizing w with
  | ret a =>
    obtain ⟨rfl, rfl⟩ := Prod.mk.inj (Option.some.inj h)
    exact .ret a w
  | call c k ih =>
    rw [tryRun] at h
    split at h
    · rename_i r hr
      exact .call r (ho w c r hr) (ih r h)
    · cases h

/-- `Visits M p w v`: started in `w`, the program may come to `v`, and be cut off there. -/
inductive Visits (M : Machine E R W) : Prog E R α → W → W → Prop
  | here (p : Prog E R α) (w : W) : Visits M p w w
  | call {c : E} {k : R c → Prog E R α} {w : W} (r : R c) {v : W} :
      M.adm w c r → Visits M (k r) (M.next w c r) v → Visits M (.call c k) w v

theorem Exec.visits {p : Prog E R α} {w w' : W} {a : α} (h : Exec M p w a w') :
    Visits M p w w' := by
  induction h with
  | ret a w => exact .here _ w
  | call r hr _ ih => exact .call r hr ih

/-- What holds at the end of every run, and held before wherever it holds, holds wherever a run
is cut off. -/
theorem Visits.of_exec {J : W → Prop} (htotal : ∀ w c, ∃ r, M.adm w c r)
    (hback : ∀ w c r, J (M.next w c r) → J w) {p : Prog E R α} {w v : W} (hv : Visits M p w v)
    (h : ∀ a w', Exec M p w a w' → J w') : J v := by
  induction hv with
  | here p w =>
    obtain ⟨a, w', hrun⟩ := Prog.exists_exec htotal p w
    have hend := h a w' hrun
    clear h
    induction hrun with
    | ret => exact hend
    | call r _ _ ih => exact hback _ _ r (ih hend)
  | call r hr _ ih => exact ih fun a w' hrun => h a w' (.call r hr hrun)

/-! ## Weakest preconditions -/

/-- The weakest precondition of `Q`, whatever the machine answers. -/
def wp (M : Machine E R W) : Prog E R α → (α → W → Prop) → W → Prop
  | ret a, Q, w => Q a w
  | call c k, Q, w => ∀ r, M.adm w c r → wp M (k r) Q (M.next w c r)

@[simp] theorem wp_ret (a : α) (Q : α → W → Prop) (w : W) : wp M (ret a) Q w ↔ Q a w :=
  Iff.rfl

@[simp] theorem wp_call (c : E) (k : R c → Prog E R α) (Q : α → W → Prop) (w : W) :
    wp M (call c k) Q w ↔ ∀ r, M.adm w c r → wp M (k r) Q (M.next w c r) :=
  Iff.rfl

/-- The weakest precondition holds exactly when every run ends in the postcondition. -/
theorem wp_iff {p : Prog E R α} {Q : α → W → Prop} {w : W} :
    wp M p Q w ↔ ∀ a w', Exec M p w a w' → Q a w' := by
  induction p generalizing w with
  | ret a =>
    constructor
    · rintro h _ _ ⟨⟩
      exact h
    · exact fun h => h a w (.ret a w)
  | call c k ih =>
    constructor
    · rintro h a w' (_ | ⟨r, hr, hrest⟩)
      exact (ih r).mp (h r hr) a w' hrest
    · exact fun h r hr => (ih r).mpr fun a w' hrest => h a w' (.call r hr hrest)

theorem wp_mono {p : Prog E R α} {Q Q' : α → W → Prop} {w : W}
    (h : wp M p Q w) (hQ : ∀ a w', Q a w' → Q' a w') : wp M p Q' w :=
  wp_iff.mpr fun a w' hrun => hQ a w' (wp_iff.mp h a w' hrun)

theorem wp_bind {p : Prog E R α} {f : α → Prog E R β} {Q : β → W → Prop} {w : W} :
    wp M (p.bind f) Q w ↔ wp M p (fun a w' => wp M (f a) Q w') w := by
  induction p generalizing w with
  | ret a => exact Iff.rfl
  | call c k ih => exact forall_congr' fun r => imp_congr_right fun _ => ih r

theorem wp_and {p : Prog E R α} {Q Q' : α → W → Prop} {w : W} :
    wp M p (fun a w' => Q a w' ∧ Q' a w') w ↔ wp M p Q w ∧ wp M p Q' w := by
  rw [wp_iff, wp_iff, wp_iff]
  exact ⟨fun h => ⟨fun a w' hrun => (h a w' hrun).1, fun a w' hrun => (h a w' hrun).2⟩,
    fun h a w' hrun => ⟨h.1 a w' hrun, h.2 a w' hrun⟩⟩

@[simp] theorem wp_perform (c : E) (Q : R c → W → Prop) (w : W) :
    wp M (perform c) Q w ↔ ∀ r, M.adm w c r → Q r (M.next w c r) :=
  Iff.rfl

/-- A call of one run was answered as the machine admits. -/
theorem Exec.wp {p : Prog E R α} {Q : α → W → Prop} {w w' : W} {a : α}
    (h : Exec M p w a w') (hwp : Prog.wp M p Q w) : Q a w' :=
  wp_iff.mp hwp a w' h

/-! ## The calls of a program -/

/-- Whatever is answered, every call satisfies `P` and every result satisfies `Q`. -/
def Calls (P : E → Prop) (Q : α → Prop) : Prog E R α → Prop
  | ret a => Q a
  | call c k => P c ∧ ∀ r, Calls P Q (k r)

section

variable {P : E → Prop}

@[simp] theorem calls_ret (Q : α → Prop) (a : α) : Calls P Q (ret a : Prog E R α) ↔ Q a := Iff.rfl

@[simp] theorem calls_call (Q : α → Prop) (c : E) (k : R c → Prog E R α) :
    Calls P Q (call c k) ↔ P c ∧ ∀ r, Calls P Q (k r) := Iff.rfl

theorem Calls.perform {c : E} (hc : P c) :
    Calls P (fun _ => True) (Prog.perform c : Prog E R (R c)) :=
  ⟨hc, fun _ => trivial⟩

theorem Calls.bind {Q : α → Prop} {Q' : β → Prop} {p : Prog E R α} {f : α → Prog E R β}
    (hp : Calls P Q p) (hf : ∀ a, Q a → Calls P Q' (f a)) : Calls P Q' (p.bind f) := by
  induction p with
  | ret a => exact hf a hp
  | call c k ih => exact ⟨hp.1, fun r => ih r (hp.2 r)⟩

theorem Calls.mono {P' : E → Prop} {Q Q' : α → Prop} {p : Prog E R α} (hp : Calls P Q p)
    (hP : ∀ c, P c → P' c) (hQ : ∀ a, Q a → Q' a) : Calls P' Q' p := by
  induction p with
  | ret a => exact hQ a hp
  | call c k ih => exact ⟨hP c hp.1, fun r => ih r (hp.2 r)⟩

/-- What every call of a program preserves holds when it ends. -/
theorem Calls.wp {Q : α → Prop} {I : W → Prop}
    (hI : ∀ w c r, P c → M.adm w c r → I w → I (M.next w c r)) {p : Prog E R α}
    (hp : Calls P Q p) {w : W} (hw : I w) : Prog.wp M p (fun a w' => Q a ∧ I w') w := by
  induction p generalizing w with
  | ret a => exact ⟨hp, hw⟩
  | call c k ih => exact fun r hr => ih r (hp.2 r) (hI w c r hp.1 hr hw)

end

/-! ## Programs that may fail -/

/-- Continue with `f` after a success, leave a failure to `Q`. -/
def onOk (f : α → W → Prop) (Q : Except ε β → W → Prop) : Except ε α → W → Prop
  | .ok a, w => f a w
  | .error e, w => Q (.error e) w

@[simp] theorem onOk_ok (f : α → W → Prop) (Q : Except ε β → W → Prop) (a : α) (w : W) :
    onOk f Q (.ok a) w ↔ f a w := Iff.rfl

@[simp] theorem onOk_error (f : α → W → Prop) (Q : Except ε β → W → Prop) (e : ε) (w : W) :
    onOk f Q (.error e) w ↔ Q (.error e) w := Iff.rfl

/-- The weakest precondition of a program that may fail. -/
def wpE (M : Machine E R W) (x : ExceptT ε (Prog E R) α) (Q : Except ε α → W → Prop) (w : W) :
    Prop :=
  wp M x.run Q w

@[simp] theorem wpE_pure (a : α) (Q : Except ε α → W → Prop) (w : W) :
    wpE M (pure a : ExceptT ε (Prog E R) α) Q w ↔ Q (.ok a) w := Iff.rfl

@[simp] theorem wpE_throw (e : ε) (Q : Except ε α → W → Prop) (w : W) :
    wpE M (throw e : ExceptT ε (Prog E R) α) Q w ↔ Q (.error e) w := Iff.rfl

@[simp] theorem wpE_bind (x : ExceptT ε (Prog E R) α) (f : α → ExceptT ε (Prog E R) β)
    (Q : Except ε β → W → Prop) (w : W) :
    wpE M (x >>= f) Q w ↔ wpE M x (onOk (fun a => wpE M (f a) Q) Q) w := by
  unfold wpE
  rw [show (x >>= f).run = x.run.bind fun r => ExceptT.bindCont f r from rfl, wp_bind]
  have hpost : (fun r w' => wp M (ExceptT.bindCont f r) Q w') =
      onOk (fun a => wp M (f a).run Q) Q := by
    funext r w'
    cases r <;> rfl
  rw [hpost]

@[simp] theorem wpE_lift (p : Prog E R α) (Q : Except ε α → W → Prop) (w : W) :
    wpE M (ExceptT.lift p) Q w ↔ wp M p (fun a => Q (.ok a)) w := by
  rw [wpE, ExceptT.lift, ExceptT.run, ExceptT.mk, show Except.ok <$> p = p.bind fun a => ret (.ok a) from rfl, wp_bind]
  exact Iff.rfl

@[simp] theorem wpE_monadLift (p : Prog E R α) (Q : Except ε α → W → Prop) (w : W) :
    wpE M (monadLift p : ExceptT ε (Prog E R) α) Q w ↔ wp M p (fun a => Q (.ok a)) w :=
  wpE_lift p Q w

@[simp] theorem wpE_mk (p : Prog E R (Except ε α)) (Q : Except ε α → W → Prop) (w : W) :
    wpE M (ExceptT.mk p) Q w ↔ wp M p Q w := Iff.rfl

theorem wpE_mono {x : ExceptT ε (Prog E R) α} {Q Q' : Except ε α → W → Prop} {w : W}
    (h : wpE M x Q w) (hQ : ∀ r w', Q r w' → Q' r w') : wpE M x Q' w :=
  wp_mono h hQ

/-- `Calls` of a program that may fail; `Q` is about its success. -/
def CallsE (P : E → Prop) (Q : α → Prop) (x : ExceptT ε (Prog E R) α) : Prop :=
  Calls P (fun r => ∀ a, r = .ok a → Q a) x.run

section

variable {P : E → Prop}

theorem CallsE.pure {Q : α → Prop} {a : α} (ha : Q a) :
    CallsE P Q (Pure.pure a : ExceptT ε (Prog E R) α) := by
  rintro _ ⟨⟩
  exact ha

theorem CallsE.throw {Q : α → Prop} {e : ε} :
    CallsE P Q (MonadExcept.throw e : ExceptT ε (Prog E R) α) := by
  rintro _ ⟨⟩

theorem CallsE.bind {Q : α → Prop} {Q' : β → Prop} {x : ExceptT ε (Prog E R) α}
    {f : α → ExceptT ε (Prog E R) β} (hx : CallsE P Q x) (hf : ∀ a, Q a → CallsE P Q' (f a)) :
    CallsE P Q' (x >>= f) := by
  refine Calls.bind hx fun r hr => ?_
  cases r with
  | ok a => exact hf a (hr a rfl)
  | error e => rintro _ ⟨⟩

theorem CallsE.monadLift {Q : α → Prop} {p : Prog E R α} (hp : Calls P Q p) :
    CallsE P Q (MonadLiftT.monadLift p : ExceptT ε (Prog E R) α) := by
  refine Calls.bind hp fun a ha => ?_
  rintro _ ⟨⟩
  exact ha

theorem CallsE.mono {P' : E → Prop} {Q Q' : α → Prop} {x : ExceptT ε (Prog E R) α}
    (hx : CallsE P Q x) (hP : ∀ c, P c → P' c) (hQ : ∀ a, Q a → Q' a) : CallsE P' Q' x :=
  Calls.mono hx hP fun _ hr a ha => hQ a (hr a ha)

/-- `J` holds of the accumulator after every prefix of the loop. -/
theorem CallsE.foldlM {f : β → α → ExceptT ε (Prog E R) β} (J : β → Prop) {xs : List α}
    (hf : ∀ b, ∀ x ∈ xs, J b → CallsE P J (f b x)) {b : β} (hb : J b) :
    CallsE P J (xs.foldlM f b) := by
  induction xs generalizing b with
  | nil => exact CallsE.pure hb
  | cons x xs ih =>
    rw [List.foldlM_cons]
    exact CallsE.bind (hf b x (List.mem_cons_self ..) hb) fun b' hb' =>
      ih (fun b'' y hy => hf b'' y (List.mem_cons_of_mem _ hy)) hb'

/-- What every call preserves holds when the program ends, and `Q` of its success. -/
theorem CallsE.wpE {Q : α → Prop} {I : W → Prop}
    (hI : ∀ w c r, P c → M.adm w c r → I w → I (M.next w c r))
    {x : ExceptT ε (Prog E R) α} (hx : CallsE P Q x) {w : W} (hw : I w) :
    Prog.wpE M x (fun r w' => (∀ a, r = .ok a → Q a) ∧ I w') w :=
  Calls.wp hI hx hw

end

/-- Whatever the machine answers, what held before holds when the program ends. -/
def Keeps (M : Machine E R W) (I : W → Prop) (x : ExceptT ε (Prog E R) α) : Prop :=
  ∀ ⦃w⦄, I w → wpE M x (fun _ w' => I w') w

section

variable {I : W → Prop}

theorem Keeps.pure (a : α) : Keeps M I (Pure.pure a : ExceptT ε (Prog E R) α) :=
  fun _ hw => hw

theorem Keeps.bind {x : ExceptT ε (Prog E R) α} {f : α → ExceptT ε (Prog E R) β}
    (hx : Keeps M I x) (hf : ∀ a, Keeps M I (f a)) : Keeps M I (x >>= f) := by
  intro w hw
  rw [wpE_bind]
  refine wpE_mono (hx hw) fun r w' hw' => ?_
  cases r with
  | ok a => exact hf a hw'
  | error e => exact hw'

theorem Keeps.foldlM {f : β → α → ExceptT ε (Prog E R) β} {xs : List α}
    (hf : ∀ b, ∀ x ∈ xs, Keeps M I (f b x)) (b : β) : Keeps M I (xs.foldlM f b) := by
  induction xs generalizing b with
  | nil => exact .pure b
  | cons x xs ih =>
    rw [List.foldlM_cons]
    exact (hf b x (List.mem_cons_self ..)).bind
      fun b' => ih (fun b'' y hy => hf b'' y (List.mem_cons_of_mem _ hy)) b'

/-- What every call preserves, the program keeps. -/
theorem CallsE.keeps {P : E → Prop} {Q : α → Prop} {x : ExceptT ε (Prog E R) α}
    (hx : CallsE P Q x) (I : W → Prop)
    (hI : ∀ w c r, P c → M.adm w c r → I w → I (M.next w c r)) : Keeps M I x :=
  fun _ hw => wpE_mono (hx.wpE hI hw) fun _ _ h => h.2

end

/-! ## Loops -/

/-- The invariant rule for a loop over a list: `I` relates the elements already visited to
the accumulator and the world. -/
theorem wp_foldlM {f : β → α → ExceptT ε (Prog E R) β} {Q : Except ε β → W → Prop}
    (I : List α → β → W → Prop) {xs : List α}
    (hstep : ∀ pre x post b w, xs = pre ++ x :: post → I pre b w →
      wpE M (f b x) (onOk (I (pre ++ [x])) Q) w)
    (hend : ∀ b w, I xs b w → Q (.ok b) w) {b : β} {w : W} (hinit : I [] b w) :
    wpE M (xs.foldlM f b) Q w := by
  suffices h : ∀ post pre b w, xs = pre ++ post → I pre b w → wpE M (post.foldlM f b) Q w from
    h xs [] b w rfl hinit
  intro post
  induction post with
  | nil =>
    intro pre b w hxs hI
    rw [List.append_nil] at hxs
    subst hxs
    rw [List.foldlM_nil, wpE_pure]
    exact hend b w hI
  | cons x post ih =>
    intro pre b w hxs hI
    rw [List.foldlM_cons, wpE_bind]
    refine wpE_mono (hstep pre x post b w hxs hI) fun r w' hr => ?_
    cases r with
    | ok b' =>
      refine ih (pre ++ [x]) b' w' ?_ hr
      rw [hxs, List.append_assoc, List.singleton_append]
    | error e => exact hr

/-- A bind, where only the success of the whole matters. -/
theorem wpE_bind_ok {x : ExceptT ε (Prog E R) α} {f : α → ExceptT ε (Prog E R) β}
    {Q : β → W → Prop} {w : W}
    (h : wpE M x (fun r w' => ∀ a, r = .ok a →
      wpE M (f a) (fun r w'' => ∀ b, r = .ok b → Q b w'') w') w) :
    wpE M (x >>= f) (fun r w' => ∀ b, r = .ok b → Q b w') w := by
  rw [wpE_bind]
  refine wpE_mono h fun r w' hr => ?_
  cases r with
  | ok a => exact hr a rfl
  | error e => rintro _ ⟨⟩

/-- The invariant rule where only the success of the loop matters. -/
theorem wp_foldlM_ok {f : β → α → ExceptT ε (Prog E R) β} {Q : β → W → Prop}
    (I : List α → β → W → Prop) {xs : List α}
    (hstep : ∀ pre x post b w, xs = pre ++ x :: post → I pre b w →
      wpE M (f b x) (fun r w' => ∀ b', r = .ok b' → I (pre ++ [x]) b' w') w)
    (hend : ∀ b w, I xs b w → Q b w) {b : β} {w : W} (hinit : I [] b w) :
    wpE M (xs.foldlM f b) (fun r w' => ∀ b', r = .ok b' → Q b' w') w := by
  refine wp_foldlM I (fun pre x post b w hxs hI => ?_) (fun b w hI => ?_) hinit
  · refine wpE_mono (hstep pre x post b w hxs hI) fun r w' hr => ?_
    cases r with
    | ok b' => exact hr b' rfl
    | error e => rintro _ ⟨⟩
  · rintro _ ⟨⟩
    exact hend b w hI

/-! ## Normal and exceptional ends -/

/-- The program ends where `I` holds, and `P` holds of its success. -/
def Ensures (M : Machine E R W) (I : W → Prop) (P : α → W → Prop)
    (x : ExceptT ε (Prog E R) α) (w : W) : Prop :=
  wpE M x (fun r w' => I w' ∧ ∀ a, r = .ok a → P a w') w

section

variable {I : W → Prop} {P : α → W → Prop} {Q : β → W → Prop} {w : W}

theorem Ensures.pure {a : α} (hI : I w) (ha : P a w) :
    Ensures M I P (Pure.pure a : ExceptT ε (Prog E R) α) w := by
  refine ⟨hI, ?_⟩
  rintro _ ⟨⟩
  exact ha

theorem Ensures.monadLift {p : Prog E R α} (h : wp M p (fun a w' => I w' ∧ P a w') w) :
    Ensures M I P (MonadLiftT.monadLift p : ExceptT ε (Prog E R) α) w := by
  rw [Ensures, wpE_monadLift]
  refine wp_mono h fun a w' ha => ⟨ha.1, ?_⟩
  rintro _ ⟨⟩
  exact ha.2

theorem Ensures.bind {x : ExceptT ε (Prog E R) α} {f : α → ExceptT ε (Prog E R) β}
    (hx : Ensures M I P x w) (hf : ∀ a w', I w' → P a w' → Ensures M I Q (f a) w') :
    Ensures M I Q (x >>= f) w := by
  rw [Ensures, wpE_bind]
  refine wpE_mono hx fun r w' h => ?_
  cases r with
  | ok a => exact hf a w' h.1 (h.2 a rfl)
  | error e =>
    refine ⟨h.1, ?_⟩
    rintro _ ⟨⟩

theorem Ensures.mono {P' : α → W → Prop} {x : ExceptT ε (Prog E R) α}
    (hx : Ensures M I P x w) (hP : ∀ a w', I w' → P a w' → P' a w') : Ensures M I P' x w :=
  wpE_mono hx fun _ w' h => ⟨h.1, fun a hr => hP a w' h.1 (h.2 a hr)⟩

theorem Ensures.foldlM {f : β → α → ExceptT ε (Prog E R) β} (J : List α → β → W → Prop)
    {xs : List α}
    (hstep : ∀ pre x post b w, xs = pre ++ x :: post → I w → J pre b w →
      Ensures M I (J (pre ++ [x])) (f b x) w) {b : β} (hI : I w) (hJ : J [] b w) :
    Ensures M I (J xs) (xs.foldlM f b) w := by
  refine wp_foldlM (fun pre b w => I w ∧ J pre b w) ?_ ?_ ⟨hI, hJ⟩
  · rintro pre x post b w hxs ⟨hI, hJ⟩
    refine wpE_mono (hstep pre x post b w hxs hI hJ) fun r w' h => ?_
    cases r with
    | ok b' => exact ⟨h.1, h.2 b' rfl⟩
    | error e =>
      refine ⟨h.1, ?_⟩
      rintro _ ⟨⟩
  · rintro b w ⟨hI, hJ⟩
    refine ⟨hI, ?_⟩
    rintro _ ⟨⟩
    exact hJ

/-- What the program ensures wherever it is started in `I`, it keeps. -/
theorem Keeps.of_ensures {x : ExceptT ε (Prog E R) α} (h : ∀ w, I w → Ensures M I P x w) :
    Keeps M I x := fun w hw => wpE_mono (h w hw) fun _ _ h => h.1

theorem CallsE.ensures {C : E → Prop} {C' : α → Prop} {x : ExceptT ε (Prog E R) α}
    (hx : CallsE C C' x) (hI : ∀ w c r, C c → M.adm w c r → I w → I (M.next w c r)) (hw : I w) :
    Ensures M I (fun a _ => C' a) x w :=
  wpE_mono (hx.wpE hI hw) fun _ _ h => ⟨h.2, h.1⟩

end

/-! ## Failures in a state of their own -/

/-- The program ends where `P` holds of its success; where it fails, `I` holds. -/
def Ends (M : Machine E R W) (I : W → Prop) (P : α → W → Prop)
    (x : ExceptT ε (Prog E R) α) (w : W) : Prop :=
  wpE M x (onOk P fun (_ : Except ε α) w' => I w') w

section

variable {I : W → Prop} {P : α → W → Prop} {Q : β → W → Prop} {w : W}

theorem Ends.pure {a : α} (ha : P a w) :
    Ends M I P (Pure.pure a : ExceptT ε (Prog E R) α) w := ha

theorem Ends.monadLift {p : Prog E R α} (h : wp M p P w) :
    Ends M I P (MonadLiftT.monadLift p : ExceptT ε (Prog E R) α) w := by
  rw [Ends, wpE_monadLift]
  exact h

theorem Ends.bind {x : ExceptT ε (Prog E R) α} {f : α → ExceptT ε (Prog E R) β}
    (hx : Ends M I P x w) (hf : ∀ a w', P a w' → Ends M I Q (f a) w') :
    Ends M I Q (x >>= f) w := by
  rw [Ends, wpE_bind]
  refine wpE_mono hx fun r w' h => ?_
  cases r with
  | ok a => exact hf a w' h
  | error e => exact h

theorem Ends.mono {I' : W → Prop} {P' : α → W → Prop} {x : ExceptT ε (Prog E R) α}
    (hx : Ends M I P x w) (hI : ∀ w', I w' → I' w') (hP : ∀ a w', P a w' → P' a w') :
    Ends M I' P' x w := by
  refine wpE_mono hx fun r w' h => ?_
  cases r with
  | ok a => exact hP a w' h
  | error e => exact hI w' h

theorem Ends.foldlM {f : β → α → ExceptT ε (Prog E R) β} (J : List α → β → W → Prop)
    {xs : List α}
    (hstep : ∀ pre x post b w, xs = pre ++ x :: post → J pre b w →
      Ends M I (J (pre ++ [x])) (f b x) w) {b : β} (hJ : J [] b w) :
    Ends M I (J xs) (xs.foldlM f b) w := by
  refine wp_foldlM J (fun pre x post b w hxs hJ => ?_) (fun _ _ h => h) hJ
  refine wpE_mono (hstep pre x post b w hxs hJ) fun r w' h => ?_
  cases r with
  | ok b' => exact h
  | error e => exact h

/-- Where both ends meet, that is what the program ends in. -/
theorem Ends.wpE {x : ExceptT ε (Prog E R) α} (hx : Ends M I (fun _ => I) x w) :
    Prog.wpE M x (fun _ => I) w := by
  refine wpE_mono hx fun r w' h => ?_
  cases r with
  | ok a => exact h
  | error e => exact h

end

/-! ## Programs that never fail -/

/-- Whatever the machine answers, the program ends in a success. -/
def Succeeds (M : Machine E R W) (x : ExceptT ε (Prog E R) α) : Prop :=
  ∀ w, wpE M x (fun r _ => ∃ a, r = .ok a) w

theorem Succeeds.pure (a : α) : Succeeds M (Pure.pure a : ExceptT ε (Prog E R) α) :=
  fun _ => ⟨a, rfl⟩

theorem Succeeds.monadLift (p : Prog E R α) :
    Succeeds M (MonadLiftT.monadLift p : ExceptT ε (Prog E R) α) := by
  intro w
  rw [wpE_monadLift, wp_iff]
  exact fun a _ _ => ⟨a, rfl⟩

theorem Succeeds.bind {x : ExceptT ε (Prog E R) α} {f : α → ExceptT ε (Prog E R) β}
    (hx : Succeeds M x) (hf : ∀ a, Succeeds M (f a)) : Succeeds M (x >>= f) := by
  intro w
  rw [wpE_bind]
  refine wpE_mono (hx w) fun r w' hr => ?_
  obtain ⟨a, rfl⟩ := hr
  exact hf a w'

theorem Succeeds.foldlM {f : β → α → ExceptT ε (Prog E R) β} {xs : List α}
    (hf : ∀ b, ∀ x ∈ xs, Succeeds M (f b x)) (b : β) : Succeeds M (xs.foldlM f b) := by
  induction xs generalizing b with
  | nil => exact .pure b
  | cons x xs ih =>
    rw [List.foldlM_cons]
    exact (hf b x (List.mem_cons_self ..)).bind
      fun b' => ih (fun b'' y hy => hf b'' y (List.mem_cons_of_mem _ hy)) b'

/-- Of a program that never fails only the success need be considered. -/
theorem Succeeds.wpE {x : ExceptT ε (Prog E R) α} (hx : Succeeds M x)
    {Q : Except ε α → W → Prop} {w : W}
    (h : Prog.wpE M x (fun r w' => ∀ a, r = .ok a → Q (.ok a) w') w) : Prog.wpE M x Q w := by
  refine wp_mono (wp_and.mpr ⟨hx w, h⟩) fun r w' hr => ?_
  obtain ⟨⟨a, rfl⟩, ha⟩ := hr
  exact ha a rfl

end Prog

end Effect
