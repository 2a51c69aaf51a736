import Nclav.Driver.Terraform
import Nclav.Effect.Record

/-!
# The destroy of a partition, call by call

`TerraformBackend::teardown` looks for the partition's workspace on the local disk and runs
`destroy` in it. The Terraform state is in the store, under the ids of the enclave and the
partition. So nothing is destroyed where the state is there and the workspace is not
(`teardown_accounts_iff`).
-/

namespace Nclav

open Effect

inductive IacOperation : Type where
  | provision
  | update
  | teardown

/-- What the backend does on its machine. -/
inductive LocalCall : Type where
  /-- `Path::exists` -/
  | exists_ (path : String)
  /-- a subprocess; `auth_token` is passed in its environment as well -/
  | runTf (authToken binary workspace : String) (args : List String)
      (authEnv : HashMap String String)
  /-- the record of a run; a failure to write it is logged only -/
  | writeRun (enclaveId : EnclaveId) (partitionId : PartitionId) (operation : IacOperation)
      (reconcileRunId : Option Uuid) (log : String) (exitCode : Option Int)

/-- The answers. A subprocess ends with its exit code and its output, or it could not be run. -/
@[reducible] def LocalResp : LocalCall → Type
  | .exists_ _ => Bool
  | .runTf _ _ _ _ _ => Except DriverError (Int × String)
  | .writeRun _ _ _ _ _ _ => Unit

/-- A local call with its answer. -/
abbrev LocalEvent : Type := (c : LocalCall) × LocalResp c

abbrev LocalProg : Type → Type := Prog LocalCall LocalResp

/-- Make a local call. -/
abbrev onMachine (c : LocalCall) : LocalProg (LocalResp c) := Prog.perform c

namespace TerraformBackend

/-- The record of a run that tears a partition down. -/
def writeTeardown (enclave : Enclave) (partition : Partition) (reconcileRunId : Option Uuid)
    (log : String) (exitCode : Int) : LocalProg Unit :=
  onMachine (.writeRun enclave.id partition.id .teardown reconcileRunId log (some exitCode))

/-- `terraform destroy` in the workspace. -/
def runDestroy (tf : TerraformBackend) (enclave : Enclave) (partition : Partition)
    (workspace : String) (authEnv : HashMap String String) (reconcileRunId : Option Uuid) :
    LocalProg (Except DriverError Unit) := do
  let destroyed ← onMachine (.runTf tf.authToken (extractTfConfig partition).1 workspace
    ["destroy", "-auto-approve", "-no-color"] authEnv)
  match destroyed with
  | .error e => do
    let msg := toString e
    writeTeardown enclave partition reconcileRunId msg 1
    return .error (.teardownFailed s!"terraform destroy: {msg}")
  | .ok (exitCode, output) => do
    writeTeardown enclave partition reconcileRunId ("=== terraform destroy ===\n" ++ output) exitCode
    if exitCode ≠ 0 then
      return .error (.teardownFailed s!"terraform destroy exited with code {exitCode}")
    else return .ok ()

/-- `teardown` on the machine. -/
def teardownLocal (host : Host) (tf : TerraformBackend) (enclave : Enclave) (partition : Partition)
    (authEnv : HashMap String String) (reconcileRunId : Option Uuid) :
    LocalProg (Except DriverError Unit) :=
  if tf.testMode then return .ok ()
  else do
    let workspace := workspaceDir host enclave.id.val partition.id.val
    let found ← onMachine (.exists_ workspace)
    if found then runDestroy tf enclave partition workspace authEnv reconcileRunId
    -- no workspace found; nothing to destroy
    else return .ok ()

end TerraformBackend

/-- What a teardown meets: the paths on the local disk, and the keys under which the store has a
Terraform state. -/
structure Site : Type where
  pathExists : String → Bool
  hasState : String → Bool

namespace Site

variable (site : Site)

/-- The machine: the disk is as it is, a subprocess may do anything. -/
def machine : Machine LocalCall LocalResp (List LocalEvent) where
  adm _ c r := match c, r with
    | .exists_ path, found => found = site.pathExists path
    | _, _ => True
  next log c r := ⟨c, r⟩ :: log

/-- The workspace of the partition is there. -/
def hasWorkspace (host : Host) (enc : Enclave) (part : Partition) : Bool :=
  site.pathExists (TerraformBackend.workspaceDir host enc.id.val part.id.val)

/-- The store has a Terraform state of the partition. -/
def stateHeld (enc : Enclave) (part : Partition) : Bool :=
  site.hasState s!"{enc.id.val}/{part.id.val}"

end Site

/-- A `destroy` of the partition exited with code 0. -/
def Destroyed (host : Host) (enc : Enclave) (part : Partition) (log : List LocalEvent) : Prop :=
  ∃ authToken binary authEnv output,
    (⟨.runTf authToken binary (TerraformBackend.workspaceDir host enc.id.val part.id.val)
      ["destroy", "-auto-approve", "-no-color"] authEnv, .ok (0, output)⟩ : LocalEvent) ∈ log

section

variable {host : Host} {tf : TerraformBackend} {enc : Enclave} {part : Partition}
  {authEnv : HashMap String String} {runId : Option Uuid} {site : Site}
  {r : Except DriverError Unit} {log : List LocalEvent}

/-- In the workspace a teardown succeeds only with a `destroy` that does. -/
theorem wp_runDestroy (start : List LocalEvent) :
    Prog.wp site.machine (tf.runDestroy enc part
        (TerraformBackend.workspaceDir host enc.id.val part.id.val) authEnv runId)
      (fun r log => r = .ok () → Destroyed host enc part log) start := by
  rw [TerraformBackend.runDestroy]
  rintro (e | ⟨exitCode, output⟩) -
  · rintro ⟨⟩ - ⟨⟩
  · rintro ⟨⟩ -
    by_cases hexit : exitCode = 0
    · rw [if_neg (not_not_intro hexit)]
      subst hexit
      exact fun _ => ⟨_, _, _, output, List.mem_cons_of_mem _ (List.mem_cons_self ..)⟩
    · rw [if_pos hexit]
      rintro ⟨⟩

/-- **When a teardown accounts for the Terraform state**: it does so, whatever the subprocess
does, iff the workspace is there or the store has no state of the partition. -/
theorem teardown_accounts_iff (htest : tf.testMode = false)
    (hrun : Prog.Exec site.machine (tf.teardownLocal host enc part authEnv runId) [] r log) :
    (r = .ok () → Destroyed host enc part log ∨ site.stateHeld enc part = false) ↔
      site.hasWorkspace host enc part = true ∨ site.stateHeld enc part = false := by
  rw [TerraformBackend.teardownLocal, htest, if_neg Bool.false_ne_true] at hrun
  rcases hrun with _ | ⟨found, hfound, hrun⟩
  obtain rfl : found = site.hasWorkspace host enc part := hfound
  rcases hworkspace : site.hasWorkspace host enc part with _ | _
  · rw [hworkspace] at hrun
    cases hrun
    refine ⟨fun h => .inr ((h rfl).resolve_left ?_), fun h _ => h.elim nofun .inr⟩
    rintro ⟨_, _, _, _, hev⟩
    cases List.mem_singleton.mp hev
  · rw [hworkspace] at hrun
    exact ⟨fun _ => .inl rfl, fun _ hr => .inl (hrun.wp (wp_runDestroy _) hr)⟩

end

end Nclav
