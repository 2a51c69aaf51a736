import Nclav.System.Call

/-!
# The Terraform backend

A partition's workload is applied by a Terraform or OpenTofu subprocess in a workspace of
its own. The subprocesses are one call here: they answer with the declared outputs or
with an error. What the backend computes around them is the binary, the workspace path and
the handle it returns, which names only these and the two ids.
-/

namespace Nclav

open Effect Serde

namespace TerraformBackend

/-- The binary of a partition and its Terraform configuration. -/
def extractTfConfig (partition : Partition) : String × TerraformConfig :=
  match partition.backend with
  | .terraform cfg => (cfg.tool.getD "terraform", cfg)
  | .openTofu cfg => (cfg.tool.getD "tofu", cfg)

def workspaceDir (host : Host) (enclaveId partitionId : String) : String :=
  joinPath (joinPath (joinPath (joinPath host.home ".nclav") "workspaces") enclaveId) partitionId

/-- The handle that a successful provision returns. -/
def handle (host : Host) (tf : TerraformBackend) (enclave : Enclave) (partition : Partition) :
    Handle :=
  if tf.testMode then
    Value.object
      [("backend", .str "test"),
       ("enclave_id", .str enclave.id.val),
       ("partition_id", .str partition.id.val)]
  else
    Value.object
      [("backend", .str (extractTfConfig partition).1),
       ("workspace", .str (workspaceDir host enclave.id.val partition.id.val)),
       ("enclave_id", .str enclave.id.val),
       ("partition_id", .str partition.id.val)]

/-- Provision (create or update) a partition. -/
def provision (host : Host) (tf : TerraformBackend) (enclave : Enclave) (partition : Partition)
    (resolvedInputs authEnv : HashMap String String) (reconcileRunId : Option Uuid) :
    Sys (Except DriverError ProvisionResult) := do
  let outputs ← perform (.tfProvision tf enclave partition resolvedInputs authEnv reconcileRunId)
  return outputs.map fun outputs => { handle := tf.handle host enclave partition, outputs }

/-- Tear down a partition via `terraform destroy`. -/
def teardown (tf : TerraformBackend) (enclave : Enclave) (partition : Partition)
    (authEnv : HashMap String String) (reconcileRunId : Option Uuid) :
    Sys (Except DriverError Unit) :=
  perform (.tfTeardown tf enclave partition authEnv reconcileRunId)

/-- The handle is an object: writing a field into it is never out of place. -/
theorem exists_fields_handle (host : Host) (tf : TerraformBackend) (enclave : Enclave)
    (partition : Partition) : ∃ fields, tf.handle host enclave partition = .obj fields := by
  simp only [handle]
  split
  · exact ⟨_, rfl⟩
  · exact ⟨_, rfl⟩

/-- The fields of the handle: which backend wrote it, where, and for what. -/
theorem handle_get? (host : Host) (tf : TerraformBackend) (enclave : Enclave)
    (partition : Partition) (k : String)
    (hk : k ∉ ["backend", "workspace", "enclave_id", "partition_id"]) :
    (tf.handle host enclave partition).get? k = none := by
  simp only [List.mem_cons, List.not_mem_nil, or_false, not_or] at hk
  obtain ⟨hb, hw, he, hp⟩ := hk
  rw [handle]
  split
  · rw [Value.get?_object]
    simp only [Value.lookup_cons_eq_ite, if_neg hb, if_neg he, if_neg hp, List.lookup_nil]
  · rw [Value.get?_object]
    simp only [Value.lookup_cons_eq_ite, if_neg hb, if_neg hw, if_neg he, if_neg hp,
      List.lookup_nil]

end TerraformBackend

end Nclav
