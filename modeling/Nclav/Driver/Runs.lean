import Nclav.Driver.Workspace
import Nclav.Reconciler.Template

/-!
# The subprocesses of a partition

`TerraformBackend::provision` runs `init`, `apply` and `output` in the workspace, `teardown` runs
`destroy`. `run_tf` reads each of the two streams of a command up to a line that is no UTF-8 and puts
the lines of both into one text, in the order in which they arrive. Of a command that is killed for
its time it returns no text. Each exit of the two functions writes its record of the run by hand.
-/

namespace Nclav

open Effect Serde

/-! ## Records of runs -/

inductive IacRunStatus : Type where
  | running
  | succeeded
  | failed
  deriving DecidableEq

deriving instance DecidableEq for IacOperation

structure IacRun : Type where
  id : Uuid
  enclaveId : EnclaveId
  partitionId : PartitionId
  operation : IacOperation
  startedAt : DateTime
  finishedAt : Option DateTime
  status : IacRunStatus
  /-- none while still running -/
  exitCode : Option Int
  log : String
  reconcileRunId : Option Uuid
  deriving DecidableEq

/-! ## Commands -/

/-- A line that a command printed, its end taken away: a text, or bytes that are no UTF-8. -/
inductive PrintedLine : Type where
  | text (s : String)
  | bytes (bs : List UInt8)
  deriving DecidableEq

/-- The lines of two streams in an order in which they may arrive. -/
inductive Arrives : List String → List String → List String → Prop
  | nil : Arrives [] [] []
  | out {line : String} {outs errs lines : List String} (h : Arrives outs errs lines) :
      Arrives (line :: outs) errs (line :: lines)
  | err {line : String} {outs errs lines : List String} (h : Arrives outs errs lines) :
      Arrives outs (line :: errs) (line :: lines)

/-- What the task that reads a stream sends: `while let Ok(Some(line))`. -/
def readable : List PrintedLine → List String
  | .text s :: rest => s :: readable rest
  | _ => []

/-- How `run_tf` leaves a command that it started. -/
inductive CommandEnd (stdout stderr : List PrintedLine) : Type where
  /-- it exited, without a code if a signal killed it; the lines arrived in this order -/
  | exited (code : Option Int) (lines : List String)
    (arrives : Arrives (readable stdout) (readable stderr) lines)
  /-- it is killed for its time -/
  | timedOut
  /-- its exit is not learned -/
  | wait (e : String)

/-- A command: what it printed on its two streams and how it ended, or why it was not started. -/
inductive Command : Type where
  | notStarted (e : String)
  | started (stdout stderr : List PrintedLine) (end_ : CommandEnd stdout stderr)

/-- The text of the lines that arrived. -/
def mergedLog (lines : List String) : String :=
  lines.foldl (fun log line => (log ++ line).push '\n') ""

/-- Why a command left no text and no exit code. -/
inductive RunError : Type where
  | spawn (e : String)
  | timedOut
  | wait (e : String)
  deriving DecidableEq

/-- The exit code and the text of a command, for `run_tf`. -/
def Command.ended : Command → Except RunError (Option Int × String)
  | .notStarted e => .error (.spawn e)
  | .started _ _ (.exited code lines _) => .ok (code, mergedLog lines)
  | .started _ _ .timedOut => .error .timedOut
  | .started _ _ (.wait e) => .error (.wait e)

/-- The error of `run_tf`. -/
def RunError.toDriverError (binary : String) (args : List String) : RunError → DriverError
  | .spawn e => .internal s!"spawn {binary}: {e}"
  | .timedOut =>
    let command := args.head?.getD ""
    .provisionFailed s!"{binary} {command} timed out after 30 minutes"
  | .wait e => .internal s!"wait {binary}: {e}"

/-- What `run_tf` makes of how a command ended; one that a signal killed has no exit code. -/
def outcome (binary : String) (args : List String) :
    Except RunError (Option Int × String) → Except DriverError (Int × String)
  | .error e => .error (e.toDriverError binary args)
  | .ok (code, log) => .ok (code.getD (-1), log)

/-- The calls of the backend. -/
inductive IacCall : Type where
  /-- the directory and the files of the workspace -/
  | prepare (workspace : String)
  | exists_ (workspace : String)
  | runTf (authToken binary workspace : String) (args : List String)
      (authEnv : HashMap String String)
  | newUuid
  | now
  | upsertIacRun (run : IacRun)

/-- The answers. -/
@[reducible] def IacResp : IacCall → Type
  | .prepare _ => Except DriverError Unit
  | .exists_ _ => Bool
  | .runTf _ _ _ _ _ => Command
  | .newUuid => Uuid
  | .now => DateTime
  | .upsertIacRun _ => Except StoreError Unit

abbrev IacEvent : Type := (c : IacCall) × IacResp c

abbrev IacProg : Type → Type := Prog IacCall IacResp

abbrev iac (c : IacCall) : IacProg (IacResp c) := Prog.perform c

/-- What a partition is run with: its backend, its two ids and its environment. -/
structure IacSite : Type where
  tf : TerraformBackend
  host : Host
  enclave : Enclave
  partition : Partition
  authEnv : HashMap String String
  reconcileRunId : Option Uuid

namespace IacSite

variable (site : IacSite)

def binary : String := (TerraformBackend.extractTfConfig site.partition).1

def workspace : String :=
  TerraformBackend.workspaceDir site.host site.enclave.id.val site.partition.id.val

/-- `run_tf` -/
def runTf (args : List String) : IacProg (Except DriverError (Int × String)) := do
  let command ← iac (.runTf site.tf.authToken site.binary site.workspace args site.authEnv)
  return outcome site.binary args command.ended

/-- A failure to write the record is logged only. -/
def writeRun (operation : IacOperation) (log : String) (exitCode : Option Int) : IacProg Unit := do
  let status : IacRunStatus := match exitCode with
    | some 0 => .succeeded
    | _ => .failed
  let id ← iac .newUuid
  let startedAt ← iac .now
  let finishedAt ← iac .now
  let _ ← iac (.upsertIacRun
    { id, enclaveId := site.enclave.id, partitionId := site.partition.id, operation, startedAt,
      finishedAt := some finishedAt, status, exitCode, log,
      reconcileRunId := site.reconcileRunId })
  return

/-- The texts of the declared outputs in what `terraform output -json` printed. -/
def extractOutputs (declaredOutputs : List String) (map : Value) :
    Except DriverError (HashMap String String) :=
  declaredOutputs.foldlM (fun outputs key =>
    match ((map.get? key).bind (·.get? "value")).bind (·.asStr) with
    | some val => .ok (outputs.insert key val)
    | none => .error (.provisionFailed
        s!"declared output '{key}' missing from terraform output")) ∅

/-- What `read_outputs` makes of how the command ended; `fromStr` reads a JSON text. -/
def parseOutputs (fromStr : String → Except String Value) :
    Except DriverError (Int × String) → Except DriverError (HashMap String String)
  | .error e => .error e
  | .ok (exit, outJson) =>
    if exit ≠ 0 then .error (.provisionFailed s!"terraform output exited with code {exit}")
    else match fromStr (String.ofList (trim outJson.toList)) with
      | .error e => .error (.provisionFailed s!"parse terraform output: {e}")
      | .ok map => extractOutputs site.partition.declaredOutputs map

def readOutputs (fromStr : String → Except String Value) :
    IacProg (Except DriverError (HashMap String String)) := do
  let ended ← site.runTf ["output", "-json", "-no-color"]
  return site.parseOutputs fromStr ended

/-! ## The two functions -/

/-- The last part of a provision. -/
def finish (fromStr : String → Except String Value) (log : String) :
    IacProg (Except DriverError ProvisionResult) := do
  let read ← site.readOutputs fromStr
  match read with
  | .error e => return .error e
  | .ok outputs => do
    site.writeRun .provision log (some 0)
    return .ok { handle := site.tf.handle site.host site.enclave site.partition, outputs }

def apply (fromStr : String → Except String Value) (log : String) :
    IacProg (Except DriverError ProvisionResult) := do
  let applied ← site.runTf ["apply", "-auto-approve", "-no-color"]
  match applied with
  | .error e => do
    let msg := toString e
    site.writeRun .provision (log ++ "\n=== terraform apply ===\n" ++ msg) (some 1)
    return .error (.provisionFailed s!"terraform apply: {msg}")
  | .ok (exit, output) => do
    let log := log ++ "\n=== terraform apply ===\n" ++ output
    if exit ≠ 0 then
      site.writeRun .provision log (some exit)
      return .error (.provisionFailed s!"terraform apply exited with code {exit}")
    else site.finish fromStr log

/-- The state address of the partition, with what comes behind it. -/
def backendConfig (key path : String) : String :=
  let apiBase := String.ofList ((site.tf.apiBase.toList.reverse.dropWhile (· = '/')).reverse)
  s!"-backend-config={key}={apiBase}/terraform/state/{site.enclave.id.val}/{site.partition.id.val}{path}"

def initArgs : List String :=
  ["init", "-reconfigure", "-no-color", site.backendConfig "address" "",
    site.backendConfig "lock_address" "/lock", site.backendConfig "unlock_address" "/lock",
    "-backend-config=lock_method=POST", "-backend-config=unlock_method=DELETE",
    "-backend-config=username=nclav"]

def init (fromStr : String → Except String Value) : IacProg (Except DriverError ProvisionResult) := do
  let inited ← site.runTf site.initArgs
  match inited with
  | .error e => do
    let msg := toString e
    site.writeRun .provision msg (some 1)
    return .error (.provisionFailed s!"terraform init: {msg}")
  | .ok (exit, output) => do
    let log := "=== terraform init ===\n" ++ output
    if exit ≠ 0 then
      site.writeRun .provision log (some exit)
      return .error (.provisionFailed s!"terraform init exited with code {exit}")
    else site.apply fromStr log

/-- `provision` -/
def provision (fromStr : String → Except String Value) :
    IacProg (Except DriverError ProvisionResult) :=
  if site.tf.testMode then
    return .ok
      { handle := site.tf.handle site.host site.enclave site.partition
        outputs := TerraformBackend.testOutputs site.partition }
  else do
    let prepared ← iac (.prepare site.workspace)
    match prepared with
    | .error e => return .error e
    | .ok () => site.init fromStr

def destroy : IacProg (Except DriverError Unit) := do
  let destroyed ← site.runTf ["destroy", "-auto-approve", "-no-color"]
  match destroyed with
  | .error e => do
    let msg := toString e
    site.writeRun .teardown msg (some 1)
    return .error (.teardownFailed s!"terraform destroy: {msg}")
  | .ok (exit, output) => do
    let log := "=== terraform destroy ===\n" ++ output
    site.writeRun .teardown log (some exit)
    if exit ≠ 0 then return .error (.teardownFailed s!"terraform destroy exited with code {exit}")
    else return .ok ()

/-- `teardown` -/
def teardown : IacProg (Except DriverError Unit) :=
  if site.tf.testMode then return .ok ()
  else do
    let found ← iac (.exists_ site.workspace)
    if found then site.destroy
    -- no workspace found; nothing to destroy
    else return .ok ()

end IacSite

end Nclav
