import Nclav.Effect.Among
import Nclav.Effect.Makes

/-!
# A cache of what is fetched

A value that is fetched is kept with the instant at which it expires, and handed out until then.
There may be many programs that look into the one cache, fetch and keep what they have fetched,
with no lock around it all. Whatever the order of their calls:

* what is kept was answered by the source, and expires its life after an instant at which the
  answer was there (`Sound`);
* what is handed out has not expired at an instant at which it was looked at (`Handed`).

What counts as an answer of the source is a parameter.
-/

namespace Effect

variable {V E : Type} {R : E → Type} {ε ι : Type}

/-! ## Programs -/

/-- The calls: those to the cache and to the clock, and those of who fetches. -/
inductive CacheCall (V E : Type) : Type where
  | read
  | write (value : V) (expiry : Nat)
  | now
  | ask (c : E)
  /-- an instant that cannot be represented: the task dies -/
  | abort

@[reducible] def CacheResp (V : Type) {E : Type} (R : E → Type) : CacheCall V E → Type
  | .read => Option (V × Nat)
  | .write _ _ => Unit
  | .now => Nat
  | .ask c => R c
  | .abort => Empty

/-- Programs that may fail, over a cache. -/
abbrev Cached (V : Type) {E : Type} (R : E → Type) (ε : Type) : Type → Type :=
  ExceptT ε (Prog (CacheCall V E) (CacheResp V R))

/-- A call of such a program. -/
abbrev Cached.call (c : CacheCall V E) : Cached V R ε (CacheResp V R c) := monadLift (Prog.perform c)

section

variable (fetch : Cached V R ε (V × Nat)) (farthest : Nat)

/-- Fetch a value, and keep it for as long as it lives. -/
def refreshed : Cached V R ε V := do
  let (value, life) ← fetch
  let stored ← Cached.call .now
  if stored + life ≤ farthest then
    Cached.call (.write value (stored + life))
    return value
  else
    let never ← Cached.call .abort
    nomatch never

/-- Hand out what is kept, unless it has expired. -/
def cached : Cached V R ε V := do
  match ← Cached.call .read with
  | some (value, expiry) =>
    let checked ← Cached.call .now
    if checked < expiry then return value
    else refreshed fetch farthest
  | none => refreshed fetch farthest

end

/-! ## The world -/

/-- An answer, and the last instant that was seen before it. -/
structure Answered (E : Type) (R : E → Type) : Type where
  time : Nat
  call : E
  answer : R call

/-- The clock, the cache and all answers, oldest first. -/
structure CacheWorld (V E : Type) (R : E → Type) : Type where
  clock : Nat
  kept : Option (V × Nat)
  record : List (Answered E R)

/-- The world after one more answer. -/
def CacheWorld.answered (w : CacheWorld V E R) (c : E) (r : R c) : CacheWorld V E R :=
  { w with record := w.record ++ [⟨w.clock, c, r⟩] }

/-- The clock does not go back. Nothing is assumed of the answers of the source. -/
def cacheMachine : Machine (CacheCall V E) (CacheResp V R) (CacheWorld V E R) where
  adm w
    | .read, r => r = w.kept
    | .now, t => w.clock ≤ t
    | _, _ => True
  next w
    | .write value expiry, _ => { w with kept := some (value, expiry) }
    | .now, t => { w with clock := t }
    | .ask c, r => w.answered c r
    | _, _ => w

/-! ## What is kept and what is handed out -/

/-- What counts as an answer of the source: a value, its life and when it was answered. -/
structure Source (V E : Type) (R : E → Type) : Type where
  gave : List (Answered E R) → V → (life time : Nat) → Prop
  /-- what has been answered stays answered -/
  later : ∀ {record record' value life time}, record <+: record' → gave record value life time →
    gave record' value life time

variable {S : Source V E R}

/-- The source has given this value by now. -/
def Fetched (S : Source V E R) (value : V) (life : Nat) (w : CacheWorld V E R) : Prop :=
  ∃ received ≤ w.clock, S.gave w.record value life received

/-- The source has given this value, which expires its life after it was there. -/
def Keeps (S : Source V E R) (w : CacheWorld V E R) (value : V) (expiry : Nat) : Prop :=
  ∃ life received stored, S.gave w.record value life received ∧ received ≤ stored ∧
    stored ≤ w.clock ∧ expiry = stored + life

/-- What is kept can be handed out. -/
def Sound (S : Source V E R) (w : CacheWorld V E R) : Prop :=
  ∀ value expiry, w.kept = some (value, expiry) → Keeps S w value expiry

/-- The source has given this value, and at an instant from `since` on it was there and has either
just been stored or not yet expired. -/
def Handed (S : Source V E R) (since : Nat) (value : V) (w : CacheWorld V E R) : Prop :=
  ∃ life received stored checked, S.gave w.record value life received ∧ received ≤ stored ∧
    stored ≤ checked ∧ since ≤ checked ∧ checked ≤ w.clock ∧
    (checked = stored ∨ checked < stored + life)

/-- The order in which the world moves. -/
structure CacheLe (w w' : CacheWorld V E R) : Prop where
  clock : w.clock ≤ w'.clock
  record : w.record <+: w'.record

theorem Keeps.later {w w' : CacheWorld V E R} {value : V} {expiry : Nat}
    (h : Keeps S w value expiry) (hle : CacheLe w w') : Keeps S w' value expiry := by
  obtain ⟨life, received, stored, hgave, hreceived, hstored, hexpiry⟩ := h
  exact ⟨life, received, stored, S.later hle.record hgave, hreceived, hstored.trans hle.clock,
    hexpiry⟩

theorem Handed.later {w w' : CacheWorld V E R} {value : V} {since : Nat}
    (h : Handed S since value w) (hle : CacheLe w w') : Handed S since value w' := by
  obtain ⟨life, received, stored, checked, hgave, hreceived, hstored, hsince, hchecked, hfresh⟩ := h
  exact ⟨life, received, stored, checked, S.later hle.record hgave, hreceived, hstored, hsince,
    hchecked.trans hle.clock, hfresh⟩

/-- What the programs rely on: each keeps only what the source has given. -/
def cacheContract (S : Source V E R) : Contract (cacheMachine (V := V) (E := E) (R := R)) where
  inv := Sound S
  le := CacheLe
  guarantee w
    | .write value expiry => Keeps S w value expiry
    | _ => True
  le_refl _ := ⟨Nat.le_refl _, List.prefix_refl _⟩
  le_trans h h' := ⟨h.clock.trans h'.clock, h.record.trans h'.record⟩
  step {w c r} hinv hguarantee hadm := by
    have same : CacheLe w w := ⟨Nat.le_refl _, List.prefix_refl _⟩
    cases c with
    | read => exact ⟨same, hinv⟩
    | write value expiry =>
      refine ⟨⟨Nat.le_refl _, List.prefix_refl _⟩, ?_⟩
      rintro _ _ ⟨⟩
      exact hguarantee
    | now =>
      have hle : CacheLe w { w with clock := r } := ⟨hadm, List.prefix_refl _⟩
      exact ⟨hle, fun value expiry hkept => (hinv value expiry hkept).later hle⟩
    | ask c =>
      have hle : CacheLe w (w.answered c r) := ⟨Nat.le_refl _, List.prefix_append _ _⟩
      exact ⟨hle, fun value expiry hkept => (hinv value expiry hkept).later hle⟩
    | abort => exact nomatch r

/-! ## What the programs do among others -/

section

open Prog

variable {fetch : Cached V R ε (V × Nat)} {farthest since : Nat} {w : CacheWorld V E R}

/-- What has been fetched is kept, and handed out at the instant from which it is kept. -/
theorem refreshed_among (hsince : since ≤ w.clock) (hw : Sound S w)
    (hfetch : AmongE (cacheContract S) (fun r => Fetched S r.1 r.2) fetch w) :
    AmongE (cacheContract S) (Handed S since) (refreshed fetch farthest) w := by
  refine AmongE.bind hfetch hw ?_
  rintro ⟨value, life⟩ w₁ hle₁ - ⟨received, hreceived, hgave⟩
  refine AmongE.call fun w₂ hle₂ _ => ⟨trivial, fun stored hstored hw₃ => ?_⟩
  have hle₃ : CacheLe w₁ { w₂ with clock := stored } := ⟨hle₂.clock.trans hstored, hle₂.record⟩
  have hthere : received ≤ stored := hreceived.trans hle₃.clock
  split
  · refine AmongE.call fun w₃ hle₄ _ => ⟨?_, fun _ _ _ => AmongE.pure fun w₅ hle₅ _ => ?_⟩
    · exact ⟨life, received, stored, S.later (hle₃.record.trans hle₄.record) hgave, hthere,
        hle₄.clock, rfl⟩
    · have hrecord : w₁.record <+: w₅.record :=
        hle₃.record.trans (hle₄.record.trans hle₅.record)
      exact ⟨life, received, stored, stored, S.later hrecord hgave, hthere, Nat.le_refl _,
        hsince.trans (hle₁.clock.trans hle₃.clock), hle₄.clock.trans hle₅.clock, .inl rfl⟩
  · exact AmongE.call fun _ _ _ => ⟨trivial, fun never => nomatch never⟩

/-- **Nothing that has expired is handed out.** -/
theorem cached_among (hsince : since ≤ w.clock)
    (hfetch : ∀ w, Sound S w →
      AmongE (cacheContract S) (fun r => Fetched S r.1 r.2) fetch w) :
    AmongE (cacheContract S) (Handed S since) (cached fetch farthest) w := by
  refine AmongE.call fun w₁ hle₁ hw₁ => ⟨trivial, fun kept hkept _ => ?_⟩
  have hsince₁ : since ≤ w₁.clock := hsince.trans hle₁.clock
  rcases kept with _ | ⟨value, expiry⟩
  · exact refreshed_among hsince₁ hw₁ (hfetch w₁ hw₁)
  obtain ⟨life, received, stored, hgave, hreceived, hstored, rfl⟩ := hw₁ value expiry hkept.symm
  refine AmongE.call fun w₂ hle₂ hw₂ => ⟨trivial, fun checked hchecked hw₃ => ?_⟩
  have hle₃ : CacheLe w₁ { w₂ with clock := checked } := ⟨hle₂.clock.trans hchecked, hle₂.record⟩
  split
  · rename_i hfresh
    refine AmongE.pure fun w₄ hle₄ _ => ?_
    exact ⟨life, received, stored, checked, S.later (hle₃.record.trans hle₄.record) hgave,
      hreceived, hstored.trans hle₃.clock, hsince₁.trans hle₃.clock, hle₄.clock, .inr hfresh⟩
  · exact refreshed_among (hsince₁.trans hle₃.clock) hw₃ (hfetch _ hw₃)

/-- **Nothing that has expired is handed out in any interleaving**, to none of those who look into
the cache, whenever they begin. -/
theorem Pool.Runs.handed [DecidableEq ι]
    {s s' s'' : Pool ι (CacheCall V E) (CacheResp V R) (CacheWorld V E R) (Except ε V)}
    (hfetch : ∀ w, Sound S w →
      AmongE (cacheContract S) (fun r => Fetched S r.1 r.2) fetch w)
    (hsound : Sound S s.world) (hthreads : ∀ i, s.threads i = (cached fetch farthest).run)
    (h : Pool.Runs cacheMachine (fun _ _ _ => True) s s')
    (h' : Pool.Runs cacheMachine (fun _ _ _ => True) s' s'') {i : ι} {value : V}
    (hbegins : s'.threads i = (cached fetch farthest).run)
    (hends : s''.threads i = .ret (.ok value)) : Handed S s'.world.clock value s''.world := by
  have hall (w : CacheWorld V E R) :
      AmongE (cacheContract S) (Handed S w.clock) (cached fetch farthest) w :=
    cached_among (Nat.le_refl _) hfetch
  let handed (since : Nat) (r : Except ε V) (w : CacheWorld V E R) : Prop :=
    ∀ value, r = .ok value → Handed S since value w
  have hstart (j : ι) : (s.threads j).Among (cacheContract S) (handed s.world.clock) s.world := by
    rw [hthreads j]
    exact hall s.world
  obtain ⟨-, hsound', hthreads'⟩ := h.among hsound hstart
  let mine (j : ι) (r : Except ε V) (w : CacheWorld V E R) : Prop :=
    ∀ value, r = .ok value → j = i → Handed S s'.world.clock value w
  have hmine (j : ι) : (s'.threads j).Among (cacheContract S) (mine j) s'.world := by
    by_cases hj : j = i
    · rw [hj, hbegins]
      exact Among.mono (hall s'.world) fun _ _ hr value hvalue _ => hr value hvalue
    · exact (hthreads' j).mono fun _ _ _ _ _ h => absurd h hj
  exact h'.ended hsound' hmine hends value rfl rfl

end

/-! ## The programs alone -/

section

open Prog

variable {fetch : Cached V R ε (V × Nat)} {farthest expiry life checked stored : Nat} {value : V}
  {w w₁ : CacheWorld V E R}

/-- What has not expired is handed out with no question to the source. -/
theorem exec_hit (hkept : w.kept = some (value, expiry)) (hclock : w.clock ≤ checked)
    (hfresh : checked < expiry) :
    Exec cacheMachine (cached fetch farthest).run w (.ok value) { w with clock := checked } := by
  have hread : (cacheMachine (R := R)).adm w .read (some (value, expiry)) := hkept.symm
  have hnow : (cacheMachine (R := R)).adm w .now checked := hclock
  refine .call _ hread (.call _ hnow ?_)
  show Exec cacheMachine (ExceptT.run (if checked < expiry then _ else _)) _ _ _
  rw [if_pos hfresh]
  exact .ret _ _

/-- With nothing in the cache a value is fetched and kept. -/
theorem exec_miss (hkept : w.kept = none)
    (hfetch : Exec cacheMachine fetch.run w (.ok (value, life)) w₁) (hclock : w₁.clock ≤ stored)
    (hlimit : stored + life ≤ farthest) :
    Exec cacheMachine (cached fetch farthest).run w (.ok value)
      { w₁ with clock := stored, kept := some (value, stored + life) } := by
  have hread : (cacheMachine (R := R)).adm w .read none := hkept.symm
  have hnow : (cacheMachine (R := R)).adm w₁ .now stored := hclock
  refine .call _ hread (Exec.bindE (a := (value, life)) hfetch (.call _ hnow ?_))
  show Exec cacheMachine (ExceptT.run (if stored + life ≤ farthest then _ else _)) _ _ _
  rw [if_pos hlimit]
  exact .call () trivial (.ret _ _)

end

end Effect
