import Nclav.Driver.Polling

/-!
# Long-running operations

An operation has ended well when the first final answer to a poll says so. GCP's loop takes some
errors for no error, and a DELETE that is answered with 202 is not waited for at all.
-/

namespace Nclav

open Effect Serde

/-! ## The end of an operation -/

/-- The body of an answer, where there is one. -/
def decoded : Except String JsonResponse → Option Value
  | .ok (_, .ok v) => some v
  | _ => none

namespace Answers

variable (s : Answers)

/-- A token is there and the first final answer within 120 polls is good, none of the polls before it
having failed. -/
def FirstAnswer (final good : Value → Prop) : Prop :=
  (∃ token, s.bearer = .ok token) ∧
  ∃ j < 120, (∃ v, decoded (s.get j) = some v ∧ final v ∧ good v) ∧
    ∀ k < j, ∃ v, decoded (s.get k) = some v ∧ ¬ final v

/-- The first answer within 120 polls that says how the creation ended names the account. -/
def FirstAccount (id : String) : Prop :=
  ∃ j < 120, (∃ v, s.jsonApi j = .ok v ∧
      ((v.idx "CreateAccountStatus").idx "State").asStr = some "SUCCEEDED" ∧
      ((v.idx "CreateAccountStatus").idx "AccountId").asStr = some id) ∧
    ∀ k < j, ∃ v, s.jsonApi k = .ok v ∧
      ((v.idx "CreateAccountStatus").idx "State").asStr ≠ some "SUCCEEDED" ∧
      ((v.idx "CreateAccountStatus").idx "State").asStr ≠ some "FAILED"

end Answers

/-- A run comes to its end, with `Ok` exactly where it should, and polls no more after a final answer. -/
def Awaits {α : Type} (run : Option (Except DriverError α × Nat)) (ok : Prop) (final : Nat → Prop) :
    Prop :=
  ∃ r n, run = some (r, n) ∧ ((∃ a, r = .ok a) ↔ ok) ∧ ∀ j, final j → n ≤ j + 1

/-! ## What the drivers look at -/

/-- The operation is done, in one of the two formats. -/
def GcpDone (resp : Value) : Prop :=
  (resp.idx "done").asBool = some true ∨ (resp.idx "status").asStr = some "DONE"

/-- There is no `error`. -/
def NoError (resp : Value) : Prop := resp.idx "error" = .null

/-- There is an `error` that is taken for none: its `errors` are an empty array, or it is no object. -/
def Misread (resp : Value) : Prop :=
  resp.idx "error" ≠ .null ∧
    (((resp.idx "error").idx "errors").asArray = some [] ∨ (resp.idx "error").asObject = none)

def ArmTerminal (body : Value) : Prop :=
  (body.idx "status").asStr = some "Succeeded" ∨ (body.idx "status").asStr = some "Failed" ∨
    (body.idx "status").asStr = some "Canceled"

def ArmSucceeded (body : Value) : Prop := (body.idx "status").asStr = some "Succeeded"

def Answers.Final (s : Answers) (final : Value → Prop) (j : Nat) : Prop :=
  ∃ v, decoded (s.get j) = some v ∧ final v

section

variable {α : Type} {s : Answers} {final good good' : Value → Prop} {P P' : Prop} {fin : Nat → Prop}
  {run : Option (Except DriverError α × Nat)}

theorem strOr_eq_iff {v : Value} {k dflt x : String} (h : x ≠ dflt) :
    strOr v k dflt = x ↔ (v.idx k).asStr = some x := by
  rw [strOr]
  rcases (v.idx k).asStr with _ | y
  · exact iff_of_false (Ne.symm h) nofun
  · exact Option.some_inj.symm

theorem Awaits.iff_iff (h : Awaits run P' fin) : Awaits run P fin ↔ (P' ↔ P) := by
  obtain ⟨r, n, hrun, hok, hstop⟩ := h
  constructor
  · rintro ⟨r', n', hrun', hok', -⟩
    rw [hrun] at hrun'
    obtain ⟨rfl, -⟩ := Prod.mk.inj (Option.some.inj hrun')
    exact hok.symm.trans hok'
  · intro hiff
    exact ⟨r, n, hrun, hok.trans hiff, hstop⟩

theorem Answers.FirstAnswer.mono (h : s.FirstAnswer final good) (hgood : ∀ v, good v → good' v) :
    s.FirstAnswer final good' := by
  obtain ⟨htoken, j, hj, ⟨v, hv, hfinal, hv'⟩, hbefore⟩ := h
  exact ⟨htoken, j, hj, ⟨v, hv, hfinal, hgood v hv'⟩, hbefore⟩

/-- There is one first answer. -/
theorem Answers.FirstAnswer.both (h : s.FirstAnswer final good) (h' : s.FirstAnswer final good') :
    ∃ v, good v ∧ good' v := by
  obtain ⟨-, j, -, ⟨v, hv, hfinal, hgood⟩, hbefore⟩ := h
  obtain ⟨-, j', -, ⟨v', hv', hfinal', hgood'⟩, hbefore'⟩ := h'
  -- a final answer before the first one
  have hno : ∀ {i k : Nat} {w : Value}, (∀ k < i, ∃ v, decoded (s.get k) = some v ∧ ¬ final v) →
      decoded (s.get k) = some w → final w → ¬ k < i := by
    intro i k w hpending hw hfin hlt
    obtain ⟨u, hu, hnot⟩ := hpending k hlt
    rw [hw] at hu
    exact hnot (Option.some.inj hu ▸ hfin)
  obtain rfl : j = j' :=
    Nat.le_antisymm (Nat.le_of_not_lt (hno hbefore hv' hfinal'))
      (Nat.le_of_not_lt (hno hbefore' hv hfinal))
  rw [hv] at hv'
  exact ⟨v, hgood, Option.some.inj hv' ▸ hgood'⟩

/-- The loop, where what ends it is what is final, and ends it well what is good. -/
theorem awaits_poll {endOf : Except String JsonResponse → Option (Except DriverError Value)}
    {timeout : DriverError} {run : Option (Except DriverError Value × Nat)}
    (hpending : ∀ a, endOf a = none ↔ ∃ v, decoded a = some v ∧ ¬ final v)
    (hgood : ∀ a, (∃ r, endOf a = some (.ok r)) ↔ ∃ v, decoded a = some v ∧ final v ∧ good v)
    (hrun : run = match s.bearer with
      | .ok _ => some (poll (fun i => endOf (s.get i)) (.error timeout) 120 0)
      | .error e => some (.error e, 0)) :
    Awaits run (s.FirstAnswer final good) (s.Final final) := by
  rcases hbearer : s.bearer with e | token
  · rw [hbearer] at hrun
    refine ⟨_, _, hrun, iff_of_false nofun ?_, fun _ _ => Nat.zero_le _⟩
    rintro ⟨⟨token, htoken⟩, -⟩
    rw [hbearer] at htoken
    cases htoken
  · rw [hbearer] at hrun
    have hne : ∀ r : Value, (.ok r : Except DriverError Value) ≠ .error timeout := fun _ => nofun
    refine ⟨(poll (fun i => endOf (s.get i)) (.error timeout) 120 0).1,
      (poll (fun i => endOf (s.get i)) (.error timeout) 120 0).2, hrun, ?_, ?_⟩
    · constructor
      · rintro ⟨r, hr⟩
        obtain ⟨j, hj, hfirst, hbefore⟩ := (poll_eq_iff 120 (hne r)).mp hr
        exact ⟨⟨token, hbearer⟩, j, hj, (hgood _).mp ⟨r, hfirst⟩,
          fun k hk => (hpending _).mp (hbefore k hk)⟩
      · rintro ⟨-, j, hj, hfirst, hbefore⟩
        obtain ⟨r, hr⟩ := (hgood _).mpr hfirst
        exact ⟨r, (poll_eq_iff 120 (hne r)).mpr
          ⟨j, hj, hr, fun k hk => (hpending _).mpr (hbefore k hk)⟩⟩
    · rintro j ⟨v, hv, hfinal⟩
      rcases hend : endOf (s.get j) with _ | r
      · obtain ⟨v', hv', hnot⟩ := (hpending _).mp hend
        rw [hv] at hv'
        exact absurd (Option.some.inj hv' ▸ hfinal) hnot
      · have hfinished : (fun i => endOf (s.get i)) j = some r := hend
        exact poll_stops 120 hfinished

end

/-! ## Google Cloud -/

namespace GcpDriver

theorem isDone_iff {resp : Value} : isDone resp = true ↔ GcpDone resp := by
  rw [isDone, Bool.or_eq_true, decide_eq_true_iff, GcpDone]
  rcases (resp.idx "done").asBool with _ | b
  · exact or_congr_left (iff_of_false nofun nofun)
  · exact or_congr_left Option.some_inj.symm

/-- What ends the loop without an error. -/
def Accepted (resp : Value) : Prop :=
  ((resp.idx "error").idx "errors").asArray = some [] ∨
    (((resp.idx "error").idx "errors").asArray = none ∧ (resp.idx "error").asObject = none)

theorem operationEnd_eq_none_iff {opUrl : String} (a : Except String JsonResponse) :
    operationEnd opUrl a = none ↔ ∃ v, decoded a = some v ∧ ¬ GcpDone v := by
  rcases a with e | ⟨status, e | resp⟩
  · exact iff_of_false nofun fun ⟨_, h, _⟩ => nomatch h
  · exact iff_of_false nofun fun ⟨_, h, _⟩ => nomatch h
  · rw [operationEnd]
    simp only [decoded, Option.some.injEq, exists_eq_left', ← isDone_iff]
    split
    · rename_i hdone
      refine iff_of_false ?_ fun h => h hdone
      split
      · exact nofun
      · exact nofun
      · split <;> exact nofun
    · rename_i hpending
      exact iff_of_true rfl hpending

theorem operationEnd_ok_iff {opUrl : String} (a : Except String JsonResponse) :
    (∃ r, operationEnd opUrl a = some (.ok r)) ↔
      ∃ v, decoded a = some v ∧ GcpDone v ∧ Accepted v := by
  rcases a with e | ⟨status, e | resp⟩
  · exact iff_of_false nofun fun ⟨_, h, _⟩ => nomatch h
  · exact iff_of_false nofun fun ⟨_, h, _⟩ => nomatch h
  · rw [operationEnd]
    simp only [decoded, Option.some.injEq, exists_eq_left', ← isDone_iff]
    split
    · rename_i hdone
      rw [and_iff_right hdone, Accepted]
      rcases ((resp.idx "error").idx "errors").asArray with _ | _ | ⟨first, rest⟩
      · rcases (resp.idx "error").asObject with _ | fields
        · exact iff_of_true ⟨_, rfl⟩ (.inr ⟨rfl, rfl⟩)
        · refine iff_of_false nofun ?_
          rintro (h | ⟨-, h⟩)
          · cases h
          · cases h
      · exact iff_of_true ⟨_, rfl⟩ (.inl rfl)
      · refine iff_of_false nofun ?_
        rintro (h | ⟨h, -⟩)
        · cases h
        · cases h
    · rename_i hpending
      exact iff_of_false nofun fun h => hpending h.1

/-- What has no `error` is accepted, and what is accepted with one is misread. -/
theorem accepted_iff {resp : Value} : Accepted resp ↔ NoError resp ∨ Misread resp := by
  rw [Accepted, NoError, Misread]
  rcases hobject : (resp.idx "error").asObject with _ | fields
  · -- an index into what is no object gives null
    have hnone : ((resp.idx "error").idx "errors").asArray = none := by
      rcases herror : resp.idx "error" with _ | _ | _ | _ | _ | fields
      · rfl
      · rfl
      · rfl
      · rfl
      · rfl
      · rw [herror] at hobject
        cases hobject
    rw [hnone]
    exact iff_of_true (.inr ⟨rfl, rfl⟩) (by
      by_cases hnull : resp.idx "error" = .null
      · exact .inl hnull
      · exact .inr ⟨hnull, .inr rfl⟩)
  · have hne : resp.idx "error" ≠ .null := by
      intro hnull
      rw [hnull] at hobject
      cases hobject
    simp only [hne, ne_eq, not_false_iff, true_and, false_or, reduceCtorEq, and_false, or_false]

/-- The loop. -/
theorem awaits_accepted (s : Answers) (opUrl : String) :
    Awaits (s.run (waitForOperation opUrl)) (s.FirstAnswer GcpDone Accepted) (s.Final GcpDone) :=
  awaits_poll operationEnd_eq_none_iff operationEnd_ok_iff (Answers.run_waiting opUrl _ _ 0)

/-- GCP's loop is right iff its end is not misread. -/
theorem awaits_iff (s : Answers) (opUrl : String) :
    Awaits (s.run (waitForOperation opUrl)) (s.FirstAnswer GcpDone NoError) (s.Final GcpDone) ↔
      ¬ s.FirstAnswer GcpDone Misread := by
  rw [(awaits_accepted s opUrl).iff_iff]
  constructor
  · intro hiff hmisread
    have hno := hiff.mp (hmisread.mono fun _ h => accepted_iff.mpr (.inr h))
    obtain ⟨v, hnull, hnot, -⟩ := hno.both hmisread
    exact hnot hnull
  · intro hnot
    constructor
    · rintro ⟨htoken, j, hj, ⟨v, hv, hdone, haccepted⟩, hbefore⟩
      rcases accepted_iff.mp haccepted with hno | hmisread
      · exact ⟨htoken, j, hj, ⟨v, hv, hdone, hno⟩, hbefore⟩
      · exact absurd ⟨htoken, j, hj, ⟨v, hv, hdone, hmisread⟩, hbefore⟩ hnot
    · exact fun hno => hno.mono fun _ h => accepted_iff.mpr (.inl h)

end GcpDriver

/-! ## Azure -/

namespace AzureDriver

theorem operationEnd_eq_none_iff {opUrl : String} (a : Except String JsonResponse) :
    operationEnd opUrl a = none ↔ ∃ v, decoded a = some v ∧ ¬ ArmTerminal v := by
  rcases a with e | ⟨status, e | body⟩
  · exact iff_of_false nofun fun ⟨_, h, _⟩ => nomatch h
  · exact iff_of_false nofun fun ⟨_, h, _⟩ => nomatch h
  · rw [operationEnd]
    simp only [decoded, Option.some.injEq, exists_eq_left', ArmTerminal,
      ← strOr_eq_iff (show "Succeeded" ≠ "Unknown" by decide),
      ← strOr_eq_iff (show "Failed" ≠ "Unknown" by decide),
      ← strOr_eq_iff (show "Canceled" ≠ "Unknown" by decide)]
    split
    · rename_i h
      exact iff_of_false nofun fun hnot => hnot (.inl h)
    · rename_i hsucceeded
      split
      · rename_i h
        exact iff_of_false nofun fun hnot => hnot (.inr h)
      · rename_i hfailed
        exact iff_of_true rfl fun h => h.elim hsucceeded hfailed

theorem operationEnd_ok_iff {opUrl : String} (a : Except String JsonResponse) :
    (∃ r, operationEnd opUrl a = some (.ok r)) ↔
      ∃ v, decoded a = some v ∧ ArmTerminal v ∧ ArmSucceeded v := by
  rcases a with e | ⟨status, e | body⟩
  · exact iff_of_false nofun fun ⟨_, h, _⟩ => nomatch h
  · exact iff_of_false nofun fun ⟨_, h, _⟩ => nomatch h
  · rw [operationEnd]
    simp only [decoded, Option.some.injEq, exists_eq_left', ArmTerminal, ArmSucceeded,
      ← strOr_eq_iff (show "Succeeded" ≠ "Unknown" by decide),
      ← strOr_eq_iff (show "Failed" ≠ "Unknown" by decide),
      ← strOr_eq_iff (show "Canceled" ≠ "Unknown" by decide)]
    split
    · rename_i h
      exact iff_of_true ⟨_, rfl⟩ ⟨.inl h, h⟩
    · rename_i hsucceeded
      refine iff_of_false ?_ fun h => hsucceeded h.2
      split
      · exact nofun
      · exact nofun

/-- The loop. -/
theorem awaits_succeeded (s : Answers) (opUrl : String) :
    Awaits (s.run (waitForOperation opUrl)) (s.FirstAnswer ArmTerminal ArmSucceeded)
      (s.Final ArmTerminal) :=
  awaits_poll operationEnd_eq_none_iff operationEnd_ok_iff (Answers.run_waiting opUrl _ _ 0)

/-- A PUT that is answered with 202 is the loop. -/
theorem run_armPutAndWait {s : Answers} {url opUrl : String} {body answer : Value}
    (h : s.put = .ok (202, answer, some opUrl)) :
    s.run (ExceptT.mk ((armPutAndWait url body).run.expand polled)) =
      s.run (waitForOperation opUrl) := by
  refine (Prog.tryRun_call Answers.count s.oracle (c := .armPut url body)
    (r := s.put) rfl).trans ?_
  rw [h]
  exact congrArg (fun p => Prog.tryRun Answers.count s.oracle p 0) (Prog.bind_ret _)

/-- A DELETE that is answered with 202 ends there. -/
theorem run_armDelete (s : Answers) (url opUrl : String) (body : Value) :
    s.run (armDelete url (.ok ⟨202, some opUrl, body⟩)) =
      match s.bearer with
      | .ok _ => some (.ok (), 0)
      | .error e => some (.error e, 0) := by
  refine (Prog.tryRun_call Answers.count s.oracle (c := .bearer)
    (r := s.bearer) rfl).trans ?_
  rcases s.bearer with e | token
  · rfl
  · rfl

end AzureDriver

/-! ## Amazon -/

namespace AwsDriver

theorem accountEnd_eq_none_iff (a : Except DriverError Value) :
    accountEnd a = none ↔ ∃ v, a = .ok v ∧
      ((v.idx "CreateAccountStatus").idx "State").asStr ≠ some "SUCCEEDED" ∧
      ((v.idx "CreateAccountStatus").idx "State").asStr ≠ some "FAILED" := by
  rcases a with e | resp
  · exact iff_of_false (by rintro ⟨⟩) (by rintro ⟨_, ⟨⟩, _⟩)
  · rw [accountEnd]
    simp only [Except.ok.injEq, exists_eq_left', ne_eq,
      ← strOr_eq_iff (show "SUCCEEDED" ≠ "UNKNOWN" by decide),
      ← strOr_eq_iff (show "FAILED" ≠ "UNKNOWN" by decide)]
    split
    · rename_i h
      refine iff_of_false ?_ fun hnot => hnot.1 h
      split
      · rintro ⟨⟩
      · rintro ⟨⟩
    · rename_i hsucceeded
      split
      · rename_i h
        exact iff_of_false (by rintro ⟨⟩) fun hnot => hnot.2 h
      · rename_i hfailed
        exact iff_of_true rfl ⟨hsucceeded, hfailed⟩

theorem accountEnd_ok_iff {id : String} (a : Except DriverError Value) :
    accountEnd a = some (.ok id) ↔ ∃ v, a = .ok v ∧
      ((v.idx "CreateAccountStatus").idx "State").asStr = some "SUCCEEDED" ∧
      ((v.idx "CreateAccountStatus").idx "AccountId").asStr = some id := by
  rcases a with e | resp
  · exact iff_of_false (by rintro ⟨⟩) (by rintro ⟨_, ⟨⟩, _⟩)
  · rw [accountEnd]
    simp only [Except.ok.injEq, exists_eq_left',
      ← strOr_eq_iff (show "SUCCEEDED" ≠ "UNKNOWN" by decide)]
    split
    · rename_i h
      rw [and_iff_right h]
      rcases ((resp.idx "CreateAccountStatus").idx "AccountId").asStr with _ | id'
      · exact iff_of_false (by rintro ⟨⟩) (by rintro ⟨⟩)
      · simp only [Option.some.injEq, Except.ok.injEq]
    · rename_i hsucceeded
      refine iff_of_false ?_ fun h => hsucceeded h.1
      split
      · rintro ⟨⟩
      · rintro ⟨⟩

end AwsDriver

/-- The polls for an account: `Ok` with an id exactly where the first final answer names it, and no
poll after an answer that is final. -/
def AwaitsAccount (s : Answers) (run : Option (Except DriverError String × Nat)) : Prop :=
  ∃ r n, run = some (r, n) ∧ (∀ id, r = .ok id ↔ s.FirstAccount id) ∧
    ∀ j, AwsDriver.accountEnd (s.jsonApi j) ≠ none → n ≤ j + 1

theorem AwsDriver.awaitsAccount (s : Answers) (d : AwsDriver) (creds : AwsCredentials)
    (reqId : String) : AwaitsAccount s (s.run (d.orgWaitForAccount creds reqId 120)) := by
  obtain ⟨timeout, hrun⟩ : ∃ timeout, s.run (d.orgWaitForAccount creds reqId 120) =
      some (poll (fun i => accountEnd (s.jsonApi i)) (.error timeout) 120 0) :=
    ⟨_, Answers.tryRun_orgWaitForAccount d creds reqId 120 0⟩
  refine ⟨(poll (fun i => accountEnd (s.jsonApi i)) (.error timeout) 120 0).1,
    (poll (fun i => accountEnd (s.jsonApi i)) (.error timeout) 120 0).2, hrun, fun id => ?_,
    fun j hj => ?_⟩
  · have hne : (.ok id : Except DriverError String) ≠ .error timeout := nofun
    rw [poll_eq_iff 120 hne, Answers.FirstAccount]
    simp only [FirstFinal, accountEnd_ok_iff, accountEnd_eq_none_iff]
  · obtain ⟨r, hr⟩ := Option.ne_none_iff_exists'.mp hj
    have hfinished : (fun i => accountEnd (s.jsonApi i)) j = some r := hr
    exact poll_stops 120 hfinished

/-! ## All of them -/

/-- **Operations are awaited to their end.** GCP's loop is right iff the first answer that is done has
no `error` that is taken for none; Azure's PUT is, and Amazon's loop; a DELETE that is answered with
202 is awaited iff there is no token for it or the operation happens to succeed. -/
theorem awaited_iff (s : Answers) (opUrl url : String) (body answer : Value) (d : AwsDriver)
    (creds : AwsCredentials) (reqId : String) :
    (Awaits (s.run (GcpDriver.waitForOperation opUrl)) (s.FirstAnswer GcpDone NoError)
      (s.Final GcpDone) ↔ ¬ s.FirstAnswer GcpDone Misread) ∧
    (s.put = .ok (202, answer, some opUrl) →
      Awaits (s.run (ExceptT.mk ((AzureDriver.armPutAndWait url body).run.expand AzureDriver.polled)))
        (s.FirstAnswer ArmTerminal ArmSucceeded) (s.Final ArmTerminal)) ∧
    (Awaits (s.run (AzureDriver.armDelete url (.ok ⟨202, some opUrl, body⟩)))
      (s.FirstAnswer ArmTerminal ArmSucceeded) (s.Final ArmTerminal) ↔
        (∀ token, s.bearer ≠ .ok token) ∨ s.FirstAnswer ArmTerminal ArmSucceeded) ∧
    AwaitsAccount s (s.run (d.orgWaitForAccount creds reqId 120)) := by
  refine ⟨GcpDriver.awaits_iff s opUrl, fun hput => ?_, ?_, AwsDriver.awaitsAccount s d creds reqId⟩
  · rw [AzureDriver.run_armPutAndWait hput]
    exact AzureDriver.awaits_succeeded s opUrl
  · rw [AzureDriver.run_armDelete]
    rcases hbearer : s.bearer with e | token
    · refine iff_of_true ⟨_, _, rfl, iff_of_false nofun ?_, fun _ _ => Nat.zero_le _⟩
        (.inl fun _ => nofun)
      rintro ⟨⟨token, htoken⟩, -⟩
      rw [hbearer] at htoken
      cases htoken
    · constructor
      · rintro ⟨r, n, hrun, hok, -⟩
        obtain ⟨rfl, -⟩ := Prod.mk.inj (Option.some.inj hrun)
        exact .inr (hok.mp ⟨(), rfl⟩)
      · rintro (hnone | hfirst)
        · exact absurd rfl (hnone token)
        · exact ⟨_, _, rfl, iff_of_true ⟨(), rfl⟩ hfirst, fun _ _ => Nat.zero_le _⟩

/-! ### Failures that are taken for success -/

/-- Every poll is answered with this. -/
def always (v : Value) : Answers :=
  ⟨.ok "t", .error (.internal "no route"), fun _ => .ok (200, .ok v), fun _ => .ok v⟩

/-- An operation of the service usage API that has failed, and an ARM operation that has. -/
def deniedOperation : Value :=
  .object [("done", .bool true), ("error", .object [("code", .num 403), ("errors", .arr [])])]

def failedOperation : Value := .object [("status", .str "Failed")]

/-- **Failures that end with `Ok`.** -/
theorem failures_taken_for_success :
    ¬ Awaits ((always deniedOperation).run (GcpDriver.waitForOperation "op"))
      ((always deniedOperation).FirstAnswer GcpDone NoError)
      ((always deniedOperation).Final GcpDone) ∧
    ¬ Awaits ((always failedOperation).run
        (AzureDriver.armDelete "mi" (.ok ⟨202, some "op", .null⟩)))
      ((always failedOperation).FirstAnswer ArmTerminal ArmSucceeded)
      ((always failedOperation).Final ArmTerminal) := by
  constructor
  · rw [GcpDriver.awaits_iff, not_not]
    refine ⟨⟨"t", rfl⟩, 0, by decide, ⟨deniedOperation, rfl, .inl rfl, by decide, .inl rfl⟩, nofun⟩
  · rintro ⟨r, n, hrun, hok, -⟩
    obtain ⟨rfl, -⟩ := Prod.mk.inj (Option.some.inj (hrun.symm.trans (AzureDriver.run_armDelete ..)))
    obtain ⟨-, j, -, ⟨v, hv, -, hsucceeded⟩, -⟩ := hok.mp ⟨(), rfl⟩
    obtain rfl : failedOperation = v := Option.some.inj hv
    rw [ArmSucceeded] at hsucceeded
    exact absurd hsucceeded (by decide)

end Nclav
