import Mathlib

/-!
# A command and its deadline

`run_tf` starts a subprocess and two tasks that read its streams into a channel. It collects what
arrives until both tasks have ended or 30 minutes are over. Then it waits for the tasks, kills the
process if the time was over, or else waits for its exit. A stream ends when the process, and every
process that it has handed the stream to, has closed it.
-/

namespace Nclav

/-! ## States -/

inductive Child : Type where
  | running
  | exited
  | killed
  deriving DecidableEq

/-- A stream of the subprocess and the task that reads it. -/
structure Pipe : Type where
  /-- some process can still write into it -/
  isOpen : Bool
  /-- lines that were written and not read -/
  unread : Nat
  /-- the task has seen its end and dropped its sender -/
  ended : Bool
  deriving DecidableEq

/-- Where `run_tf` stands. -/
inductive Stage : Type where
  | collect
  | awaitStdout (timedOut : Bool)
  | awaitStderr (timedOut : Bool)
  | kill
  | wait
  | returned (ok : Bool)
  deriving DecidableEq

structure RunTf : Type where
  child : Child
  stdout : Pipe
  stderr : Pipe
  /-- lines in the channel -/
  queued : Nat
  /-- the 30 minutes are over -/
  expired : Bool
  stage : Stage
  deriving DecidableEq

/-- The subprocess has been spawned. -/
def RunTf.start : RunTf := ⟨.running, ⟨true, 0, false⟩, ⟨true, 0, false⟩, 0, false, .collect⟩

/-! ## Steps -/

/-- What the subprocess, and the processes that hold its streams, may do. -/
inductive ProcessStep : RunTf → RunTf → Prop
  | exit (s : RunTf) (h : s.child = .running) : ProcessStep s { s with child := .exited }
  | printOut (s : RunTf) (h : s.stdout.isOpen = true) :
    ProcessStep s { s with stdout := { s.stdout with unread := s.stdout.unread + 1 } }
  | printErr (s : RunTf) (h : s.stderr.isOpen = true) :
    ProcessStep s { s with stderr := { s.stderr with unread := s.stderr.unread + 1 } }
  | closeOut (s : RunTf) (h : s.stdout.isOpen = true) :
    ProcessStep s { s with stdout := { s.stdout with isOpen := false } }
  | closeErr (s : RunTf) (h : s.stderr.isOpen = true) :
    ProcessStep s { s with stderr := { s.stderr with isOpen := false } }

/-- What `run_tf` and its tasks may do. -/
inductive OwnStep : RunTf → RunTf → Prop
  -- the reader tasks: a line, a line that is no UTF-8, the end of the stream
  | readOut (s : RunTf) (n : Nat) (h : s.stdout.unread = n + 1) (hended : s.stdout.ended = false) :
    OwnStep s { s with stdout := { s.stdout with unread := n }, queued := s.queued + 1 }
  | readErr (s : RunTf) (n : Nat) (h : s.stderr.unread = n + 1) (hended : s.stderr.ended = false) :
    OwnStep s { s with stderr := { s.stderr with unread := n }, queued := s.queued + 1 }
  | failOut (s : RunTf) (n : Nat) (h : s.stdout.unread = n + 1) (hended : s.stdout.ended = false) :
    OwnStep s { s with stdout := { s.stdout with unread := n, ended := true } }
  | failErr (s : RunTf) (n : Nat) (h : s.stderr.unread = n + 1) (hended : s.stderr.ended = false) :
    OwnStep s { s with stderr := { s.stderr with unread := n, ended := true } }
  | endOut (s : RunTf) (h : s.stdout.isOpen = false) (hread : s.stdout.unread = 0)
    (hended : s.stdout.ended = false) :
    OwnStep s { s with stdout := { s.stdout with ended := true } }
  | endErr (s : RunTf) (h : s.stderr.isOpen = false) (hread : s.stderr.unread = 0)
    (hended : s.stderr.ended = false) :
    OwnStep s { s with stderr := { s.stderr with ended := true } }
  -- the collector: a line, the end of the channel, or the end of the time
  | collect (s : RunTf) (n : Nat) (h : s.stage = .collect) (hqueued : s.queued = n + 1) :
    OwnStep s { s with queued := n }
  | finish (s : RunTf) (h : s.stage = .collect) (hqueued : s.queued = 0)
    (hout : s.stdout.ended = true) (herr : s.stderr.ended = true) :
    OwnStep s { s with stage := .awaitStdout false }
  | timeOut (s : RunTf) (h : s.stage = .collect) (hexpired : s.expired = true) :
    OwnStep s { s with stage := .awaitStdout true }
  -- `stdout_task.await`, `stderr_task.await`
  | joinOut (s : RunTf) (timedOut : Bool) (h : s.stage = .awaitStdout timedOut)
    (hended : s.stdout.ended = true) : OwnStep s { s with stage := .awaitStderr timedOut }
  | joinErr (s : RunTf) (timedOut : Bool) (h : s.stage = .awaitStderr timedOut)
    (hended : s.stderr.ended = true) :
    OwnStep s { s with stage := if timedOut then .kill else .wait }
  -- `child.kill()`, then an error
  | kill (s : RunTf) (h : s.stage = .kill) :
    OwnStep s { s with
      child := if s.child = .running then .killed else s.child
      stage := .returned false }
  -- `child.wait()`
  | wait (s : RunTf) (h : s.stage = .wait) (hchild : s.child ≠ .running) :
    OwnStep s { s with stage := .returned true }

/-- A step of any of them, or the time passes. -/
inductive RunTfStep : RunTf → RunTf → Prop
  | process {s s' : RunTf} (h : ProcessStep s s') : RunTfStep s s'
  | own {s s' : RunTf} (h : OwnStep s s') : RunTfStep s s'
  | expire (s : RunTf) : RunTfStep s { s with expired := true }

/-! ## Waiting for the subprocess -/

/-- `run_tf` waits for something that only the subprocess, or one that holds its streams, can do. -/
def RunTf.WaitsForProcess (s : RunTf) : Prop :=
  match s.stage with
  | .awaitStdout _ => s.stdout.ended = false ∧ s.stdout.isOpen = true
  | .awaitStderr _ => s.stderr.ended = false ∧ s.stderr.isOpen = true
  | .wait => s.child = .running
  | _ => False

/-- The time is over, the subprocess runs, and nothing but it can end the wait. -/
def RunTf.Blocked (s : RunTf) : Prop :=
  s.expired = true ∧ s.child = .running ∧ s.WaitsForProcess

/-! ## The way to the kill -/

/-- The steps lead to a state like this: each state on the way has a step, and every step does. -/
inductive LeadsTo {σ : Type} (step : σ → σ → Prop) (P : σ → Prop) : σ → Prop
  | here {s : σ} (h : P s) : LeadsTo step P s
  | steps {s : σ} (hnext : ∃ s', step s s') (h : ∀ s', step s s' → LeadsTo step P s') :
    LeadsTo step P s

/-- Where each step has a smaller measure and keeps an invariant, and each state of it has a step or
is there, the steps lead there. -/
theorem LeadsTo.of_measure {σ : Type} {step : σ → σ → Prop} {P I : σ → Prop} (m : σ → Nat)
    (hless : ∀ s s', step s s' → m s' < m s)
    (hstep : ∀ s, I s → P s ∨ (∃ s', step s s') ∧ ∀ s', step s s' → I s' ∨ P s') {s : σ} (hs : I s) :
    LeadsTo step P s := by
  induction hm : m s using Nat.strongRecOn generalizing s with
  | ind k ih =>
    rcases hstep s hs with hthere | ⟨hnext, hall⟩
    · exact .here hthere
    · refine .steps hnext fun s' hs' => ?_
      rcases hall s' hs' with hI | hP
      · exact ih (m s') (hm ▸ hless s s' hs') hI rfl
      · exact .here hP

/-- Where no state of an invariant is there, and each that has a step has one that keeps it, the steps
do not lead there. -/
theorem LeadsTo.not_of_invariant {σ : Type} {step : σ → σ → Prop} {P J : σ → Prop}
    (hP : ∀ s, J s → ¬ P s) (hstep : ∀ s s', J s → step s s' → ∃ s'', step s s'' ∧ J s'') {s : σ}
    (hs : J s) : ¬ LeadsTo step P s := by
  intro h
  induction h with
  | here h => exact hP _ hs h
  | steps hnext _ ih =>
    obtain ⟨s', hs'⟩ := hnext
    obtain ⟨s'', hs'', hJ⟩ := hstep _ s' hs hs'
    exact ih s'' hs'' hJ

namespace RunTf

/-- How many steps are left at most. -/
def stepsLeft (s : RunTf) : Nat :=
  2 * s.stdout.unread + 2 * s.stderr.unread + s.queued + (if s.stdout.ended then 0 else 1) +
    (if s.stderr.ended then 0 else 1) +
    match s.stage with
    | .collect => 5
    | .awaitStdout _ => 4
    | .awaitStderr _ => 3
    | .kill => 2
    | .wait => 2
    | .returned _ => 1

theorem stepsLeft_lt {s s' : RunTf} (h : OwnStep s s') : s'.stepsLeft < s.stepsLeft := by
  cases h with
  | readOut _ h => simp only [stepsLeft, h]; omega
  | readErr _ h => simp only [stepsLeft, h]; omega
  | failOut _ h hended => simp only [stepsLeft, h, hended, Bool.false_eq_true, if_true, if_false]; omega
  | failErr _ h hended => simp only [stepsLeft, h, hended, Bool.false_eq_true, if_true, if_false]; omega
  | endOut _ _ hended => simp only [stepsLeft, hended, Bool.false_eq_true, if_true, if_false]; omega
  | endErr _ _ hended => simp only [stepsLeft, hended, Bool.false_eq_true, if_true, if_false]; omega
  | collect _ _ hqueued => simp only [stepsLeft, hqueued]; omega
  | finish h => simp only [stepsLeft, h]; omega
  | timeOut h => simp only [stepsLeft, h]; omega
  | joinOut _ h => simp only [stepsLeft, h]; omega
  | joinErr timedOut h => cases timedOut <;> simp only [stepsLeft, h] <;> simp
  | kill h => simp only [stepsLeft, h]; omega
  | wait h => simp only [stepsLeft, h]; omega

/-- Killed, and an error. -/
def Killed (s : RunTf) : Prop := s.child = .killed ∧ s.stage = .returned false

/-- The timeout does what it is for: the state is not blocked, and if the time is over while the
subprocess runs, the own steps of `run_tf` lead to the kill and an error. -/
def Timely (s : RunTf) : Prop :=
  ¬ s.Blocked ∧ (s.expired = true → s.child = .running → LeadsTo OwnStep Killed s)

end RunTf

/-! ## When it is killed -/

/-- Nothing holds up the task that reads the stream: it is closed, or no longer read. -/
def Pipe.Ends (p : Pipe) : Prop := p.isOpen = false ∨ p.ended = true

/-- A task whose stream ends comes to its end. -/
theorem Pipe.Ends.cases {p : Pipe} (h : p.Ends) :
    p.ended = true ∨ p.ended = false ∧ (p.isOpen = false ∧ p.unread = 0 ∨ ∃ n, p.unread = n + 1) := by
  cases hended : p.ended with
  | true => exact .inl rfl
  | false =>
    refine .inr ⟨rfl, ?_⟩
    rcases hread : p.unread with _ | n
    · exact .inl ⟨h.resolve_right (by rw [hended]; exact Bool.false_ne_true), rfl⟩
    · exact .inr ⟨n, rfl⟩

/-- It was the timer that ended the collection. -/
def Stage.timedOut : Stage → Bool
  | .awaitStdout timedOut => timedOut
  | .awaitStderr timedOut => timedOut
  | .kill => true
  | _ => false

namespace RunTf

/-- The timer has ended the collection, and each task that is still to be waited for comes to its
end. -/
def Released (s : RunTf) : Prop :=
  match s.stage with
  | .awaitStdout timedOut => timedOut = true ∧ s.stdout.Ends ∧ s.stderr.Ends
  | .awaitStderr timedOut => timedOut = true ∧ s.stderr.Ends
  | .kill => True
  | _ => False

variable {s s' : RunTf}

theorem Released.timedOut (h : s.Released) : s.stage.timedOut = true := by
  rw [Released] at h
  split at h
  · rename_i hs
    rw [hs]
    exact h.1
  · rename_i hs
    rw [hs]
    exact h.1
  · rename_i hs
    rw [hs]
    rfl
  · exact h.elim

/-- The timer ends no collection before the time is over. -/
theorem expired_of_timedOut (h : Relation.ReflTransGen RunTfStep start s)
    (htimed : s.stage.timedOut = true) : s.expired = true := by
  induction h with
  | refl => cases htimed
  | tail _ hstep ih =>
    cases hstep with
    | process hstep => cases hstep <;> exact ih htimed
    | expire => rfl
    | own hstep =>
      cases hstep with
      | finish | wait | kill => cases htimed
      | timeOut _ hexpired => exact hexpired
      | joinOut timedOut hs => exact ih (hs ▸ htimed)
      | joinErr timedOut hs =>
        cases timedOut with
        | false => cases htimed
        | true => exact ih (hs ▸ rfl)
      | _ => exact ih htimed

/-- It stays so where the stage does and no task falls back. -/
theorem Released.mono (h : s.Released) (hstage : s'.stage = s.stage)
    (hout : s.stdout.Ends → s'.stdout.Ends) (herr : s.stderr.Ends → s'.stderr.Ends) :
    s'.Released := by
  rw [Released] at h ⊢
  rw [hstage]
  cases hs : s.stage with
  | awaitStdout =>
    rw [hs] at h
    exact ⟨h.1, hout h.2.1, herr h.2.2⟩
  | awaitStderr =>
    rw [hs] at h
    exact ⟨h.1, herr h.2⟩
  | kill => trivial
  | collect | wait | returned =>
    rw [hs] at h
    exact h

/-! ## The kill -/

theorem Released.own (h : s.Released) (hchild : s.child = .running) (hstep : OwnStep s s') :
    s'.Released ∨ s'.Killed := by
  cases hstep with
  | readOut | readErr => exact .inl (h.mono rfl id id)
  | failOut | endOut => exact .inl (h.mono rfl (fun _ => .inr rfl) id)
  | failErr | endErr => exact .inl (h.mono rfl id fun _ => .inr rfl)
  | collect => exact .inl (h.mono rfl id id)
  | finish hs | timeOut hs | wait hs =>
    rw [Released, hs] at h
    exact h.elim
  | joinOut timedOut hs =>
    rw [Released, hs] at h
    exact .inl ⟨h.1, h.2.2⟩
  | joinErr timedOut hs =>
    rw [Released, hs] at h
    rw [h.1]
    exact .inl trivial
  | kill => exact .inr ⟨if_pos hchild, rfl⟩

/-- Where the stream of the output ends, its task has a step or has ended. -/
theorem exists_own_stdout (h : s.stdout.Ends) :
    s.stdout.ended = true ∨ ∃ s', OwnStep s s' ∧ s'.stage = s.stage := by
  rcases h.cases with hended | ⟨hended, ⟨hopen, hread⟩ | ⟨n, hread⟩⟩
  · exact .inl hended
  · exact .inr ⟨_, .endOut s hopen hread hended, rfl⟩
  · exact .inr ⟨_, .readOut s n hread hended, rfl⟩

theorem exists_own_stderr (h : s.stderr.Ends) :
    s.stderr.ended = true ∨ ∃ s', OwnStep s s' ∧ s'.stage = s.stage := by
  rcases h.cases with hended | ⟨hended, ⟨hopen, hread⟩ | ⟨n, hread⟩⟩
  · exact .inl hended
  · exact .inr ⟨_, .endErr s hopen hread hended, rfl⟩
  · exact .inr ⟨_, .readErr s n hread hended, rfl⟩

theorem Released.exists_own (h : s.Released) : ∃ s', OwnStep s s' := by
  rw [Released] at h
  cases hs : s.stage with
  | awaitStdout timedOut =>
    rw [hs] at h
    rcases exists_own_stdout h.2.1 with hended | ⟨s', hstep, -⟩
    · exact ⟨_, .joinOut s timedOut hs hended⟩
    · exact ⟨s', hstep⟩
  | awaitStderr timedOut =>
    rw [hs] at h
    rcases exists_own_stderr h.2 with hended | ⟨s', hstep, -⟩
    · exact ⟨_, .joinErr s timedOut hs hended⟩
    · exact ⟨s', hstep⟩
  | kill => exact ⟨_, .kill s hs⟩
  | collect | wait | returned =>
    rw [hs] at h
    exact h.elim

theorem own_expired (h : OwnStep s s') : s'.expired = s.expired := by
  cases h <;> rfl

/-- Its own steps leave the subprocess alone until the kill. -/
theorem own_running (h : OwnStep s s') (hchild : s.child = .running) :
    s'.child = .running ∨ s'.Killed := by
  cases h with
  | kill => exact .inr ⟨if_pos hchild, rfl⟩
  | _ => exact .inl hchild

/-- The own steps of a released `run_tf` lead to the kill. -/
theorem Released.leadsTo (h : s.Released) (hchild : s.child = .running) :
    LeadsTo OwnStep Killed s := by
  refine LeadsTo.of_measure (I := fun s => s.Released ∧ s.child = .running) stepsLeft
    (fun _ _ => stepsLeft_lt) ?_ ⟨h, hchild⟩
  rintro s ⟨h, hchild⟩
  refine .inr ⟨h.exists_own, fun s' hstep => ?_⟩
  rcases h.own hchild hstep with h' | hkilled
  · rcases own_running hstep hchild with hchild' | hkilled
    · exact .inl ⟨h', hchild'⟩
    · exact .inr hkilled
  · exact .inr hkilled

/-! ## No kill -/

/-- The time is over, the subprocess runs, and `run_tf` is not released. -/
structure Held (s : RunTf) : Prop where
  expired : s.expired = true
  running : s.child = .running
  not_released : ¬ s.Released

theorem Held.not_killed (h : s.Held) : ¬ s.Killed := by
  rintro ⟨hkilled, -⟩
  rw [h.running] at hkilled
  cases hkilled

/-- A step that leaves the stage and the ends of the streams alone. -/
theorem Held.same (h : s.Held) (hexpired : s'.expired = s.expired) (hchild : s'.child = s.child)
    (hstage : s'.stage = s.stage) (hout : s'.stdout.Ends → s.stdout.Ends)
    (herr : s'.stderr.Ends → s.stderr.Ends) : s'.Held where
  expired := hexpired.trans h.expired
  running := hchild.trans h.running
  not_released := fun h' => h.not_released (h'.mono hstage.symm hout herr)

/-- While it collects, it is held. -/
theorem Held.collect (h : s.Held) (hs : s.stage = .collect) (hstep : OwnStep s s')
    (hstage : s'.stage = s.stage) : s'.Held where
  expired := (own_expired hstep).trans h.expired
  running := by
    refine (own_running hstep h.running).resolve_right fun hkilled => ?_
    rw [hs, hkilled.2] at hstage
    cases hstage
  not_released := by
    rw [Released, hstage, hs]
    exact id

/-- If a stream does not end, the timer may end the collection before it; and if both do, they may
end it before the timer. -/
theorem Held.collecting (h : s.Held) (hs : s.stage = .collect) : ∃ s', OwnStep s s' ∧ s'.Held := by
  by_cases hends : s.stdout.Ends ∧ s.stderr.Ends
  · rcases exists_own_stdout hends.1 with hout | ⟨s', hstep, hstage⟩
    · rcases exists_own_stderr hends.2 with herr | ⟨s', hstep, hstage⟩
      · rcases hqueued : s.queued with _ | n
        · refine ⟨_, .finish s hs hqueued hout herr, h.expired, h.running, ?_⟩
          rintro ⟨⟨⟩, -⟩
        · exact ⟨_, .collect s n hs hqueued, h.same rfl rfl rfl id id⟩
      · exact ⟨s', hstep, h.collect hs hstep hstage⟩
    · exact ⟨s', hstep, h.collect hs hstep hstage⟩
  · refine ⟨_, .timeOut s hs h.expired, h.expired, h.running, ?_⟩
    rintro ⟨-, hout, herr⟩
    exact hends ⟨hout, herr⟩

/-- Where it has a step, it has one after which it is still held. -/
theorem Held.own (h : s.Held) (hstep : OwnStep s s') : ∃ s'', OwnStep s s'' ∧ s''.Held := by
  cases hstep with
  | readOut n hread hended => exact ⟨_, .readOut s n hread hended, h.same rfl rfl rfl id id⟩
  | readErr n hread hended => exact ⟨_, .readErr s n hread hended, h.same rfl rfl rfl id id⟩
  -- a line that can be read may be UTF-8
  | failOut n hread hended => exact ⟨_, .readOut s n hread hended, h.same rfl rfl rfl id id⟩
  | failErr n hread hended => exact ⟨_, .readErr s n hread hended, h.same rfl rfl rfl id id⟩
  | endOut hopen hread hended =>
    exact ⟨_, .endOut s hopen hread hended, h.same rfl rfl rfl (fun _ => .inl hopen) id⟩
  | endErr hopen hread hended =>
    exact ⟨_, .endErr s hopen hread hended, h.same rfl rfl rfl id fun _ => .inl hopen⟩
  | collect _ hs | finish hs | timeOut hs => exact h.collecting hs
  | joinOut timedOut hs hended =>
    refine ⟨_, .joinOut s timedOut hs hended, h.expired, h.running, fun hreleased => ?_⟩
    refine h.not_released ?_
    rw [Released, hs]
    exact ⟨hreleased.1, .inr hended, hreleased.2⟩
  | joinErr timedOut hs hended =>
    refine ⟨_, .joinErr s timedOut hs hended, h.expired, h.running, ?_⟩
    cases timedOut with
    | false => exact id
    | true =>
      refine absurd ?_ h.not_released
      rw [Released, hs]
      exact ⟨rfl, .inr hended⟩
  | kill hs =>
    refine absurd ?_ h.not_released
    rw [Released, hs]
    trivial
  | wait _ hchild => exact absurd h.running hchild

/-- A released `run_tf` waits for nothing that only the subprocess can do. -/
theorem Released.not_waits (h : s.Released) : ¬ s.WaitsForProcess := by
  have hends : ∀ {p : Pipe}, p.Ends → ¬ (p.ended = false ∧ p.isOpen = true) := by
    rintro p (hopen | hended) ⟨hended', hopen'⟩
    · rw [hopen] at hopen'
      cases hopen'
    · rw [hended] at hended'
      cases hended'
  intro hwaits
  rw [Released] at h
  rw [WaitsForProcess] at hwaits
  cases hs : s.stage with
  | awaitStdout =>
    rw [hs] at h hwaits
    exact hends h.2.1 hwaits
  | awaitStderr =>
    rw [hs] at h hwaits
    exact hends h.2 hwaits
  | kill | collect | returned =>
    rw [hs] at hwaits
    exact hwaits
  | wait =>
    rw [hs] at h
    exact h

/-- What the timeout is for holds of a state exactly where `run_tf` is released. -/
theorem timely_iff (hexpired : s.expired = true) (hchild : s.child = .running) :
    s.Timely ↔ s.Released := by
  constructor
  · rintro ⟨-, hleads⟩
    by_contra hreleased
    refine LeadsTo.not_of_invariant (J := Held) (fun _ h => h.not_killed) (fun _ _ h => h.own)
      ⟨hexpired, hchild, hreleased⟩ (hleads hexpired hchild)
  · exact fun h => ⟨fun hblocked => h.not_waits hblocked.2.2, fun _ _ => h.leadsTo hchild⟩

/-! ## Runs -/

/-- When the time runs out over a running subprocess, `run_tf` is not released yet. -/
theorem not_released_of_expire (hreach : Relation.ReflTransGen RunTfStep start s)
    (hstep : RunTfStep s s') (hbefore : s.expired = true → s.child ≠ .running)
    (hexpired : s'.expired = true) (hchild : s'.child = .running) : ¬ s'.Released := by
  intro hreleased
  cases hstep with
  | process hstep =>
    cases hstep with
    | exit => cases hchild
    | _ => exact hbefore hexpired hchild
  | own hstep =>
    refine hbefore ((own_expired hstep).symm.trans hexpired) ?_
    cases hstep with
    | kill =>
      by_contra hrunning
      rw [if_neg hrunning] at hchild
      exact hrunning hchild
    | _ => exact hchild
  | expire => exact hbefore (expired_of_timedOut hreach hreleased.timedOut) hchild

theorem not_running_of_timely {states : List RunTf} (hreach : Relation.ReflTransGen RunTfStep start s)
    (hrun : List.IsChain RunTfStep (s :: states)) (hs : s.expired = true → s.child ≠ .running)
    (htimely : ∀ s' ∈ states, s'.Timely) :
    ∀ s' ∈ states, s'.expired = true → s'.child ≠ .running := by
  induction states generalizing s with
  | nil => exact List.forall_mem_nil _
  | cons s' states ih =>
    obtain ⟨hstep, hrest⟩ := List.isChain_cons_cons.mp hrun
    obtain ⟨hs', hall⟩ := List.forall_mem_cons.mp htimely
    have hnext : s'.expired = true → s'.child ≠ .running := fun hexpired hchild =>
      not_released_of_expire hreach hstep hs hexpired hchild ((timely_iff hexpired hchild).mp hs')
    exact List.forall_mem_cons.mpr ⟨hnext, ih (hreach.tail hstep) hrest hnext hall⟩

end RunTf

/-- **The timeout and a process that runs.** In a run the timeout does what it is for in every state
iff the time is never over while the subprocess runs. Where it is, the timeout does so in exactly
those states in which the timer has ended the collection and every stream that is still waited for
is closed or no longer read. -/
theorem timeout_kills {states : List RunTf} (hrun : List.IsChain RunTfStep (.start :: states)) :
    ((∀ s ∈ RunTf.start :: states, s.Timely) ↔
      ∀ s ∈ RunTf.start :: states, s.expired = true → s.child ≠ .running) ∧
    ∀ s ∈ RunTf.start :: states, s.expired = true → s.child = .running →
      (s.Timely ↔ s.Released) := by
  refine ⟨⟨fun htimely => ?_, fun hover s hs => ?_⟩, fun s _ => RunTf.timely_iff⟩
  · exact List.forall_mem_cons.mpr ⟨nofun, RunTf.not_running_of_timely .refl hrun nofun
      (List.forall_mem_cons.mp htimely).2⟩
  · exact ⟨fun hblocked => hover s hs hblocked.1 hblocked.2.1,
      fun hexpired hchild => absurd hchild (hover s hs hexpired)⟩

/-- A subprocess that has closed its streams is killed once the timer has ended the collection; one
that exits in time holds nothing up. -/
theorem timeout_kills_closed :
    LeadsTo OwnStep RunTf.Killed
      ⟨.running, ⟨false, 0, false⟩, ⟨false, 0, false⟩, 0, true, .awaitStdout true⟩ ∧
    ∀ s ∈ [RunTf.start, { RunTf.start with child := .exited },
      { RunTf.start with child := .exited, expired := true }], s.Timely := by
  constructor
  · have hrun : List.IsChain RunTfStep (.start ::
        [⟨.running, ⟨false, 0, false⟩, ⟨true, 0, false⟩, 0, false, .collect⟩,
          ⟨.running, ⟨false, 0, false⟩, ⟨false, 0, false⟩, 0, false, .collect⟩,
          ⟨.running, ⟨false, 0, false⟩, ⟨false, 0, false⟩, 0, true, .collect⟩,
          ⟨.running, ⟨false, 0, false⟩, ⟨false, 0, false⟩, 0, true, .awaitStdout true⟩]) :=
      .cons_cons (.process (.closeOut _ rfl)) <| .cons_cons (.process (.closeErr _ rfl)) <|
        .cons_cons (.expire _) <| .cons_cons (.own (.timeOut _ rfl rfl)) (.singleton _)
    have htimely := (timeout_kills hrun).2 _ (List.mem_of_getElem? (i := 4) rfl) rfl rfl
    exact (htimely.mpr ⟨rfl, .inl rfl, .inl rfl⟩).2 rfl rfl
  · have hrun : List.IsChain RunTfStep (.start :: [{ RunTf.start with child := .exited },
        { RunTf.start with child := .exited, expired := true }]) :=
      .cons_cons (.process (.exit _ rfl)) <| .cons_cons (.expire _) (.singleton _)
    refine (timeout_kills hrun).1.mpr (List.forall_mem_cons.mpr ⟨nofun, ?_⟩)
    exact List.forall_mem_cons.mpr ⟨nofun, List.forall_mem_singleton.mpr nofun⟩

/-! ### A process that hangs -/

/-- The time is over, and `run_tf` waits for the end of the output. -/
def hung : RunTf := ⟨.running, ⟨true, 0, false⟩, ⟨true, 0, false⟩, 0, true, .awaitStdout true⟩

/-- **A subprocess that prints nothing and does not exit** is not killed: the time runs out, the
task that reads its output is waited for, and `run_tf` has no step left. -/
theorem hung_not_killed : Relation.ReflTransGen RunTfStep RunTf.start hung ∧ hung.Blocked ∧
    ∀ s, ¬ OwnStep hung s := by
  refine ⟨?_, ⟨rfl, rfl, rfl, rfl⟩, ?_⟩
  · refine .tail (.tail .refl (.expire _)) (.own ?_)
    exact .timeOut { RunTf.start with expired := true } rfl rfl
  · rintro s hstep
    cases hstep with
    | readOut _ h | readErr _ h | failOut _ h | failErr _ h => cases h
    | endOut h | endErr h => cases h
    | collect _ h | finish h | timeOut h | kill h | wait h => cases h
    | joinOut _ _ hended => cases hended
    | joinErr _ h => cases h


end Nclav
