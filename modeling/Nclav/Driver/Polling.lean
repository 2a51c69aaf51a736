import Nclav.Effect.Poll
import Nclav.Driver.Aws
import Nclav.Driver.Azure
import Nclav.Driver.Gcp

/-!
# Waiting for operations

The drivers poll a long-running operation 120 times at most. What the other modules take as one call
is such a loop over GET requests, with a delay between them.
-/

namespace Nclav

open Effect Serde

/-! ## The loops -/

/-- Poll until an answer is an end, `polls` times at most. -/
def pollOperation (opUrl token : String)
    (endOf : Except String JsonResponse → Option (Except DriverError Value))
    (timeout : DriverError) : (polls : Nat) → Cloud Value
  | 0 => throw timeout
  | polls + 1 => do
    match endOf (← send (.get opUrl token)) with
    | some r => ask (pure r)
    | none => pollOperation opUrl token endOf timeout polls

namespace GcpDriver

/-- The two formats of operations. -/
def isDone (resp : Value) : Bool :=
  ((resp.idx "done").asBool).getD false || (resp.idx "status").asStr = some "DONE"

/-- The end of the loop, if an answer is one. -/
def operationEnd (opUrl : String) :
    Except String JsonResponse → Option (Except DriverError Value)
  | .error e => some (.error (.internal s!"poll {opUrl}: {e}"))
  | .ok (_, .error e) => some (.error (.internal s!"poll decode: {e}"))
  | .ok (_, .ok resp) =>
    if isDone resp then
      match ((resp.idx "error").idx "errors").asArray with
      | some (first :: _) =>
        let msg := strOr first "message" "operation failed"
        some (.error (.provisionFailed s!"operation failed: {msg}"))
      | some [] => some (.ok (resp.idx "response"))
      | none =>
        if (resp.idx "error").asObject.isSome then
          let msg := extractGcpError (.object [("error", resp.idx "error")])
          some (.error (.provisionFailed s!"operation failed: {msg}"))
        else some (.ok (resp.idx "response"))
    else none

def waitForOperation (opUrl : String) : Cloud Value := do
  let token ← ask (request .bearer)
  pollOperation opUrl token (operationEnd opUrl)
    (.provisionFailed s!"GCP operation timed out after 120 polls: {opUrl}") 120

end GcpDriver

namespace AzureDriver

/-- The end of the loop, if an answer is one. -/
def operationEnd (opUrl : String) :
    Except String JsonResponse → Option (Except DriverError Value)
  | .error e => some (.error (.internal s!"poll {opUrl}: {e}"))
  | .ok (_, .error e) => some (.error (.internal s!"poll decode {opUrl}: {e}"))
  | .ok (_, .ok body) =>
    let status := strOr body "status" "Unknown"
    if status = "Succeeded" then some (.ok body)
    else if status = "Failed" ∨ status = "Canceled" then
      some (.error (.provisionFailed s!"ARM operation failed ({status}): {parseArmError body}"))
    else none

def waitForOperation (opUrl : String) : Cloud Value := do
  let token ← ask (request .bearer)
  pollOperation opUrl token (operationEnd opUrl)
    (.provisionFailed s!"Azure ARM operation timed out after 120 polls: {opUrl}") 120

/-- The waiting as the loop that it is. -/
def polled : (c : CloudCall) → Prog CloudCall CloudResp (CloudResp c)
  | .waitForOperation opUrl => (waitForOperation opUrl).run
  | c => request c

/-- The response to a DELETE, with its `Azure-AsyncOperation` or `Location` header. -/
structure ArmResponse : Type where
  status : Nat
  asyncOp : Option String
  body : Value

/-- A DELETE, with what it is answered with. -/
def armDelete (url : String) (sent : Except String ArmResponse) : Cloud Unit := do
  let _ ← ask (request .bearer)
  match sent with
  | .error e => throw (.teardownFailed s!"DELETE {url}: {e}")
  | .ok resp =>
    if resp.status = 404 ∨ resp.status = 204 ∨ success resp.status = true then return
    else if resp.status = 202 then
      match resp.asyncOp with
      | some opUrl => do
        let _ ← waitForOperation opUrl
        return
      | none => return
    else throw (.teardownFailed
      s!"DELETE {url}: status {resp.status} — {parseArmError resp.body}")

end AzureDriver

namespace AwsDriver

/-- The end of the loop, if an answer is one. -/
def accountEnd : Except DriverError Value → Option (Except DriverError String)
  | .error e => some (.error e)
  | .ok resp =>
    let status := resp.idx "CreateAccountStatus"
    if strOr status "State" "UNKNOWN" = "SUCCEEDED" then
      match (status.idx "AccountId").asStr with
      | some id => some (.ok id)
      | none => some (.error
          (.provisionFailed "DescribeCreateAccountStatus: no AccountId in Succeeded response"))
    else if strOr status "State" "UNKNOWN" = "FAILED" then
      let reason := strOr status "FailureReason" "unknown"
      some (.error (.provisionFailed s!"CreateAccount failed: {reason}"))
    else none

/-- What the loop does with a response, `again` being the rest of it. -/
def afterPoll (resp : Value) (again : Cloud String) : Cloud String :=
  match strOr (resp.idx "CreateAccountStatus") "State" "UNKNOWN" with
  | "SUCCEEDED" => orThrow
    (.provisionFailed "DescribeCreateAccountStatus: no AccountId in Succeeded response")
    ((resp.idx "CreateAccountStatus").idx "AccountId").asStr
  | "FAILED" =>
    let reason := strOr (resp.idx "CreateAccountStatus") "FailureReason" "unknown"
    throw (.provisionFailed s!"CreateAccount failed: {reason}")
  | _ => again

end AwsDriver

/-! ## Runs -/

/-- What is answered: to the request for a token, to a PUT, and to the polls in their order. -/
structure Answers : Type where
  bearer : Except DriverError String
  put : Except DriverError (Nat × Value × Option String)
  get : Nat → Except String JsonResponse
  jsonApi : Nat → Except DriverError Value

namespace Answers

variable (s : Answers)

def oracle : Nat → (c : CloudCall) → Option (CloudResp c)
  | _, .bearer => some s.bearer
  | _, .armPut _ _ => some s.put
  | i, .get _ _ => some (s.get i)
  | i, .jsonApi _ _ _ _ _ _ => some (s.jsonApi i)
  | _, _ => none

/-- The number of polls. -/
def count : Nat → (c : CloudCall) → CloudResp c → Nat
  | n, .get _ _, _ => n + 1
  | n, .jsonApi _ _ _ _ _ _, _ => n + 1
  | n, _, _ => n

/-- The result of a program and the number of its polls. -/
def run {α : Type} (p : Cloud α) : Option (Except DriverError α × Nat) :=
  Prog.tryRun count s.oracle p.run 0

variable {s}

theorem tryRun_pollOperation (opUrl token : String)
    (endOf : Except String JsonResponse → Option (Except DriverError Value)) (timeout : DriverError)
    (polls i : Nat) :
    Prog.tryRun count s.oracle (pollOperation opUrl token endOf timeout polls).run i =
      some (poll (fun i => endOf (s.get i)) (.error timeout) polls i) := by
  induction polls generalizing i with
  | zero => rfl
  | succ polls ih =>
    rw [poll]
    refine (Prog.tryRun_call count s.oracle (c := .get opUrl token)
      (r := s.get i) rfl).trans ?_
    rcases hend : endOf (s.get i) with _ | r
    · refine Eq.trans ?_ (ih (i + 1))
      show Prog.tryRun count s.oracle (match endOf (s.get i) with
        | some r => ask (pure r)
        | none => pollOperation opUrl token endOf timeout polls).run (i + 1) = _
      rw [hend]
    · show Prog.tryRun count s.oracle (match endOf (s.get i) with
        | some r => ask (pure r)
        | none => pollOperation opUrl token endOf timeout polls).run (i + 1) = _
      rw [hend]
      rfl

/-- A token, and then the loop. -/
theorem run_waiting (opUrl : String)
    (endOf : Except String JsonResponse → Option (Except DriverError Value)) (timeout : DriverError)
    (i : Nat) :
    Prog.tryRun count s.oracle (do
      let token ← ask (request .bearer)
      pollOperation opUrl token endOf timeout 120 : Cloud Value).run i =
    match s.bearer with
    | .ok _ => some (poll (fun i => endOf (s.get i)) (.error timeout) 120 i)
    | .error e => some (.error e, i) := by
  refine (Prog.tryRun_call count s.oracle (c := .bearer) (r := s.bearer) rfl).trans ?_
  rcases hbearer : s.bearer with e | token
  · rfl
  · exact tryRun_pollOperation opUrl token endOf timeout 120 i

/-- The loop for an account. -/
theorem tryRun_orgWaitForAccount (d : AwsDriver) (creds : AwsCredentials) (reqId : String)
    (polls i : Nat) :
    Prog.tryRun count s.oracle (d.orgWaitForAccount creds reqId polls).run i =
      some (poll (fun i => AwsDriver.accountEnd (s.jsonApi i)) (.error (.provisionFailed
        s!"AWS account creation timed out after 120 polls (request: {reqId})")) polls i) := by
  induction polls generalizing i with
  | zero => rfl
  | succ polls ih =>
    rw [poll]
    refine (Prog.tryRun_call count s.oracle
      (c := d.organizations creds "DescribeCreateAccountStatus"
        (.object [("CreateAccountRequestId", .str reqId)])) (r := s.jsonApi i) rfl).trans ?_
    rcases hanswer : s.jsonApi i with e | resp
    · rfl
    · show Prog.tryRun count s.oracle
        (AwsDriver.afterPoll resp (d.orgWaitForAccount creds reqId polls)).run (i + 1) = _
      rw [AwsDriver.accountEnd, AwsDriver.afterPoll]
      split
      · rename_i hstate
        rw [if_pos hstate]
        rcases ((resp.idx "CreateAccountStatus").idx "AccountId").asStr with _ | id
        · rfl
        · rfl
      · rename_i hstate
        rw [if_neg (by rw [hstate]; decide), if_pos hstate]
        rfl
      · rename_i hsucceeded hfailed
        rw [if_neg hsucceeded, if_neg hfailed]
        exact ih (i + 1)

end Answers

end Nclav
