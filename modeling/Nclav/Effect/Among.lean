import Nclav.Effect.Pool

/-!
# Programs among others

Between two calls of a program the others may have moved the world on. What a program does among
others is found without looking at them: it may rely on the invariant of the world and on the order
in which the world moves, and it guarantees of each of its calls what the others rely on. In a pool
of such programs each does what it does among others (`Pool.Runs.among`).
-/

namespace Effect

variable {E : Type} {R : E → Type} {W α β ε : Type}

/-- What programs that share a world rely on. -/
structure Contract (M : Machine E R W) : Type where
  /-- what holds of the world whenever a call is made -/
  inv : W → Prop
  /-- the order in which the world moves -/
  le : W → W → Prop
  /-- what is guaranteed of a call -/
  guarantee : W → E → Prop
  le_refl : ∀ w, le w w
  le_trans : ∀ {w w' w''}, le w w' → le w' w'' → le w w''
  step : ∀ {w c r}, inv w → guarantee w c → M.adm w c r →
    le w (M.next w c r) ∧ inv (M.next w c r)

namespace Prog

variable {M : Machine E R W} {T : Contract M}

/-- From `w` on, the program makes only calls that the contract allows, and ends with `Q`. -/
def Among (T : Contract M) (Q : α → W → Prop) : Prog E R α → W → Prop
  | ret a, w => ∀ w', T.le w w' → T.inv w' → Q a w'
  | call c k, w => ∀ w', T.le w w' → T.inv w' →
    T.guarantee w' c ∧ ∀ r, M.adm w' c r → Among T Q (k r) (M.next w' c r)

theorem Among.later {Q : α → W → Prop} {p : Prog E R α} {w w' : W} (h : p.Among T Q w)
    (hle : T.le w w') : p.Among T Q w' := by
  cases p with
  | ret a => exact fun w'' hle' hinv => h w'' (T.le_trans hle hle') hinv
  | call c k => exact fun w'' hle' hinv => h w'' (T.le_trans hle hle') hinv

theorem Among.bind {Q : α → W → Prop} {Q' : β → W → Prop} {p : Prog E R α} {f : α → Prog E R β}
    {w : W} (hp : p.Among T Q w) (hinv : T.inv w)
    (hf : ∀ a w', T.le w w' → T.inv w' → Q a w' → (f a).Among T Q' w') :
    (p.bind f).Among T Q' w := by
  induction p generalizing w with
  | ret a => exact hf a w (T.le_refl w) hinv (hp w (T.le_refl w) hinv)
  | call c k ih =>
    intro w' hle hinv'
    obtain ⟨hguarantee, hrest⟩ := hp w' hle hinv'
    refine ⟨hguarantee, fun r hadm => ?_⟩
    obtain ⟨hle', hinv''⟩ := T.step hinv' hguarantee hadm
    exact ih r (hrest r hadm) hinv'' fun a w'' hle'' => hf a w'' (T.le_trans hle (T.le_trans hle' hle''))

theorem Among.mono {Q Q' : α → W → Prop} {p : Prog E R α} {w : W} (h : p.Among T Q w)
    (hQ : ∀ a w', Q a w' → Q' a w') : p.Among T Q' w := by
  induction p generalizing w with
  | ret a => exact fun w' hle hinv => hQ a w' (h w' hle hinv)
  | call c k ih =>
    intro w' hle hinv
    obtain ⟨hguarantee, hrest⟩ := h w' hle hinv
    exact ⟨hguarantee, fun r hadm => ih r (hrest r hadm)⟩

/-- When the program ends the world has moved on. -/
theorem Among.since {Q : α → W → Prop} {p : Prog E R α} {w : W} (h : p.Among T Q w) :
    p.Among T (fun a w' => T.le w w' ∧ Q a w') w := by
  induction p generalizing w with
  | ret a => exact fun w' hle hinv => ⟨hle, h w' hle hinv⟩
  | call c k ih =>
    intro w' hle hinv
    obtain ⟨hguarantee, hrest⟩ := h w' hle hinv
    refine ⟨hguarantee, fun r hadm => (ih r (hrest r hadm)).mono fun a w'' ha => ⟨?_, ha.2⟩⟩
    exact T.le_trans hle (T.le_trans (T.step hinv hguarantee hadm).1 ha.1)

theorem Among.map {f : α → β} {Q : β → W → Prop} {p : Prog E R α} {w : W}
    (h : p.Among T (fun a => Q (f a)) w) : (p.bind fun a => .ret (f a)).Among T Q w := by
  induction p generalizing w with
  | ret a => exact h
  | call c k ih =>
    intro w' hle hinv
    obtain ⟨hguarantee, hrest⟩ := h w' hle hinv
    exact ⟨hguarantee, fun r hadm => ih r (hrest r hadm)⟩

/-- A call, with what holds of its answer from then on. -/
theorem Among.perform {c : E} {Q : R c → W → Prop} {w : W}
    (hguarantee : ∀ w', T.le w w' → T.inv w' → T.guarantee w' c)
    (hQ : ∀ w' r, T.le w w' → T.inv w' → M.adm w' c r → ∀ w'', T.le (M.next w' c r) w'' →
      T.inv w'' → Q r w'') : (Prog.perform c : Prog E R (R c)).Among T Q w :=
  fun w' hle hinv => ⟨hguarantee w' hle hinv, fun r hadm => hQ w' r hle hinv hadm⟩

/-- A program whose calls are always allowed. -/
theorem Calls.among {P : E → Prop} {Q : α → Prop} {p : Prog E R α} (h : p.Calls P Q)
    (hP : ∀ w c, P c → T.guarantee w c) (w : W) : p.Among T (fun a _ => Q a) w := by
  induction p generalizing w with
  | ret a => exact fun _ _ _ => h
  | call c k ih => exact fun w' _ _ => ⟨hP w' c h.1, fun r _ => ih r (h.2 r) _⟩

/-- Among others, for programs that may fail. -/
def AmongE (T : Contract M) (Q : α → W → Prop) (x : ExceptT ε (Prog E R) α) (w : W) : Prop :=
  Among T (fun r w' => ∀ a, r = .ok a → Q a w') x.run w

theorem AmongE.pure {Q : α → W → Prop} {a : α} {w : W} (h : ∀ w', T.le w w' → T.inv w' → Q a w') :
    AmongE T Q (Pure.pure a : ExceptT ε (Prog E R) α) w := by
  rintro w' hle hinv _ ⟨⟩
  exact h w' hle hinv

theorem AmongE.throw {Q : α → W → Prop} {e : ε} {w : W} :
    AmongE T Q (MonadExceptOf.throw e : ExceptT ε (Prog E R) α) w := by
  rintro w' - - _ ⟨⟩

theorem AmongE.monadLift {Q : α → W → Prop} {p : Prog E R α} {w : W} (h : p.Among T Q w) :
    AmongE T Q (MonadLift.monadLift p : ExceptT ε (Prog E R) α) w := by
  refine Among.map (f := Except.ok) (h.mono fun a w' ha => ?_)
  rintro _ ⟨⟩
  exact ha

theorem AmongE.bind {Q : α → W → Prop} {Q' : β → W → Prop} {x : ExceptT ε (Prog E R) α}
    {f : α → ExceptT ε (Prog E R) β} {w : W} (hx : AmongE T Q x w) (hinv : T.inv w)
    (hf : ∀ a w', T.le w w' → T.inv w' → Q a w' → AmongE T Q' (f a) w') :
    AmongE T Q' (x >>= f) w := by
  refine Among.bind hx hinv fun r w' hle hinv' hr => ?_
  cases r with
  | error e =>
    rintro w'' - - _ ⟨⟩
  | ok a => exact hf a w' hle hinv' (hr a rfl)

theorem AmongE.mono {Q Q' : α → W → Prop} {x : ExceptT ε (Prog E R) α} {w : W}
    (hx : AmongE T Q x w) (hQ : ∀ a w', Q a w' → Q' a w') : AmongE T Q' x w :=
  Among.mono hx fun _ w' hr a ha => hQ a w' (hr a ha)

theorem AmongE.since {Q : α → W → Prop} {x : ExceptT ε (Prog E R) α} {w : W}
    (hx : AmongE T Q x w) : AmongE T (fun a w' => T.le w w' ∧ Q a w') x w :=
  (Among.since hx).mono fun _ _ hr a ha => ⟨hr.1, hr.2 a ha⟩

theorem CallsE.among {P : E → Prop} {Q : α → Prop} {x : ExceptT ε (Prog E R) α}
    (hx : CallsE P Q x) (hP : ∀ w c, P c → T.guarantee w c) (w : W) :
    AmongE T (fun a _ => Q a) x w :=
  Calls.among hx hP w

/-- What others leave alone and each round keeps holds after the loop. -/
theorem AmongE.foldlM {I : β → W → Prop} {f : β → α → ExceptT ε (Prog E R) β} {xs : List α}
    (hlater : ∀ b w w', T.le w w' → I b w → I b w')
    (hf : ∀ b x w, x ∈ xs → T.inv w → I b w → AmongE T I (f b x) w) {b : β} {w : W}
    (hinv : T.inv w) (hb : I b w) : AmongE T I (xs.foldlM f b) w := by
  induction xs generalizing b w with
  | nil => exact AmongE.pure fun w' hle _ => hlater b w w' hle hb
  | cons x xs ih =>
    rw [List.foldlM_cons]
    refine AmongE.bind (hf b x w (List.mem_cons_self ..) hinv hb) hinv fun b' w' _ hinv' hb' => ?_
    exact ih (fun b x w hx => hf b x w (List.mem_cons_of_mem _ hx)) hinv' hb'

/-- A call, and what follows its answer. -/
theorem AmongE.call {Q : α → W → Prop} {c : E} {f : R c → ExceptT ε (Prog E R) α} {w : W}
    (h : ∀ w', T.le w w' → T.inv w' → T.guarantee w' c ∧ ∀ r, M.adm w' c r →
      T.inv (M.next w' c r) → AmongE T Q (f r) (M.next w' c r)) :
    AmongE T Q (MonadLift.monadLift (perform c) >>= f) w := by
  intro w' hle hinv
  obtain ⟨hguarantee, hrest⟩ := h w' hle hinv
  exact ⟨hguarantee, fun r hadm => hrest r hadm (T.step hinv hguarantee hadm).2⟩

end Prog

namespace Pool

variable {ι : Type} [DecidableEq ι] {M : Machine E R W} {T : Contract M} {s s' : Pool ι E R W α}

theorem Runs.trans {C : Pool ι E R W α → ι → E → Prop} {s'' : Pool ι E R W α} (h : Runs M C s s')
    (h' : Runs M C s' s'') : Runs M C s s'' := by
  induction h' with
  | refl => exact h
  | step i c k r _ hcall hadm hC ih => exact .step i c k r ih hcall hadm hC

/-- **Programs that keep a contract among others keep it side by side.** -/
theorem Runs.among {Q : ι → α → W → Prop} (h : Runs M (fun _ _ _ => True) s s')
    (hinv : T.inv s.world) (hs : ∀ i, (s.threads i).Among T (Q i) s.world) :
    T.le s.world s'.world ∧ T.inv s'.world ∧ ∀ i, (s'.threads i).Among T (Q i) s'.world := by
  induction h with
  | refl => exact ⟨T.le_refl _, hinv, hs⟩
  | @step s' i c k r _ hcall hadm _ ih =>
    obtain ⟨hle, hinv', hthreads⟩ := ih
    have hi := hthreads i
    rw [hcall] at hi
    obtain ⟨hguarantee, hrest⟩ := hi s'.world (T.le_refl _) hinv'
    obtain ⟨hle', hinv''⟩ := T.step hinv' hguarantee hadm
    refine ⟨T.le_trans hle hle', hinv'', fun j => ?_⟩
    by_cases hj : j = i
    · subst hj
      rw [after_threads_self]
      exact hrest r hadm
    · rw [after_threads_of_ne _ hj]
      exact (hthreads j).later hle'

/-- What a program that has ended has come to. -/
theorem Runs.ended {Q : ι → α → W → Prop} (h : Runs M (fun _ _ _ => True) s s')
    (hinv : T.inv s.world) (hs : ∀ i, (s.threads i).Among T (Q i) s.world) {i : ι} {a : α}
    (hended : s'.threads i = .ret a) : Q i a s'.world := by
  obtain ⟨-, hinv', hthreads⟩ := h.among hinv hs
  have hi := hthreads i
  rw [hended] at hi
  exact hi s'.world (T.le_refl _) hinv'

/-- The interleaving in which the programs call in this order, where they still have a call to make,
and are answered by an oracle. -/
def schedule (next : W → (c : E) → R c → W) (o : W → (c : E) → R c) :
    List ι → Pool ι E R W α → Pool ι E R W α
  | [], s => s
  | i :: is, s =>
    match s.threads i with
    | .ret _ => schedule next o is s
    | .call c k => schedule next o is (s.after next i c (o s.world c) (k (o s.world c)))

theorem runs_schedule {o : W → (c : E) → R c} (ho : ∀ w c, M.adm w c (o w c)) (is : List ι) :
    Runs M (fun _ _ _ => True) s (schedule M.next o is s) := by
  induction is generalizing s with
  | nil => exact .refl
  | cons i is ih =>
    rw [schedule]
    split
    · exact ih
    · rename_i c k hcall
      exact (Runs.step i c k _ .refl hcall (ho _ c) trivial).trans ih

/-- A program may come to its end while the others wait. -/
theorem Runs.of_exec {i : ι} {p : Prog E R α} {w w' : W} {a : α} (hexec : Prog.Exec M p w a w')
    (hp : s.threads i = p) (hw : s.world = w) :
    ∃ s', Runs M (fun _ _ _ => True) s s' ∧ s'.threads i = .ret a ∧ s'.world = w' ∧
      ∀ j ≠ i, s'.threads j = s.threads j := by
  induction hexec generalizing s with
  | ret a w => exact ⟨s, .refl, hp, hw, fun _ _ => rfl⟩
  | @call c k w r _ w' hadm _ ih =>
    subst hw
    have hstep : Runs M (fun _ _ _ => True) s (s.after M.next i c r (k r)) :=
      .step i c k r .refl hp hadm trivial
    obtain ⟨s', hruns, hended, hworld, hothers⟩ := ih (s := s.after M.next i c r (k r))
      (after_threads_self ..) rfl
    refine ⟨s', hstep.trans hruns, hended, hworld, fun j hj => ?_⟩
    rw [hothers j hj, after_threads_of_ne _ hj]

end Pool

end Effect
