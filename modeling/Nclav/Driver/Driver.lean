import Nclav.Store.State

/-!
# Drivers and the registry

A driver is the value behind `Arc<dyn Driver>`. Its cloud operations are calls of the
system and may answer anything (see `Nclav.System.Call`); what it computes without leaving
the process, its template variables and the environment of its Terraform subprocesses, are
functions of it. The registry finds the driver of an enclave by its cloud.
-/

namespace Nclav

inductive DriverError : Type where
  | provisionFailed : String → DriverError
  | teardownFailed : String → DriverError
  | internal : String → DriverError
  | driverNotConfigured : CloudTarget → DriverError
  | tfFilesWithModuleSource (path file : String)
  deriving DecidableEq

instance : ToString DriverError where
  toString
    | .provisionFailed msg => s!"provision failed: {msg}"
    | .teardownFailed msg => s!"teardown failed: {msg}"
    | .internal msg => s!"internal driver error: {msg}"
    | .driverNotConfigured cloud => s!"driver not configured for cloud: {cloud}"
    | .tfFilesWithModuleSource path file =>
      s!".tf file '{file}' found in partition at {path} which uses terraform.source; " ++
        "remove the .tf file or remove terraform.source"

/-- Result of a successful provision call. -/
structure ProvisionResult : Type where
  handle : Handle
  outputs : HashMap String String
  deriving DecidableEq

/-- A driver: its name and its pure methods. -/
structure Driver : Type where
  name : String
  /-- template variables of an enclave, from its handle -/
  contextVars : Enclave → Handle → HashMap String String
  /-- environment of the Terraform subprocess -/
  authEnv : Enclave → Handle → HashMap String String

structure DriverRegistry : Type where
  /-- used when an enclave names no cloud -/
  defaultCloud : CloudTarget
  drivers : CloudTarget → Option Driver

namespace DriverRegistry

variable (registry : DriverRegistry)

def forCloud (cloud : CloudTarget) : Except DriverError Driver :=
  match registry.drivers cloud with
  | some d => .ok d
  | none => .error (.driverNotConfigured cloud)

def resolvedCloud (enc : Enclave) : CloudTarget :=
  enc.cloud.getD registry.defaultCloud

def forEnclave (enc : Enclave) : Except DriverError Driver :=
  registry.forCloud (registry.resolvedCloud enc)

/-- The cloud of a stored enclave: the persisted one, else the default. -/
def stateCloud (s : EnclaveState) : CloudTarget :=
  s.resolvedCloud.getD registry.defaultCloud

theorem forCloud_eq_ok {cloud : CloudTarget} {d : Driver} :
    registry.forCloud cloud = .ok d ↔ registry.drivers cloud = some d := by
  simp only [forCloud]
  cases registry.drivers cloud <;> simp

end DriverRegistry

/-- What `TerraformBackend` is configured with: the run's API address and token, and whether
subprocesses are skipped. The reconciler and the handlers never override the workspace
root. -/
structure TerraformBackend : Type where
  apiBase : String
  authToken : String
  testMode : Bool
  deriving DecidableEq

end Nclav
