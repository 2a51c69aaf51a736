import Nclav.Serde.Decode
import Nclav.Store.Hash
import Nclav.Driver.Runs

/-!
# Encoded records

A store keeps a record as a JSON document. The writers and readers are serde's derived ones, but for
the reader of a partition's backend: it takes the string that stood for a kind of backend that is no
more. The writers can put that string in the place of any backend, as an old record has it.
-/

namespace Nclav

open Serde (Value)
open Serde.Value

/-- The texts of times and ids, with their readers. -/
structure Formats : Type where
  time : DateTime → String
  parseTime : String → Option DateTime
  uuid : Uuid → String
  parseUuid : String → Option Uuid
  parseTime_time : ∀ t, parseTime (time t) = some t
  parseUuid_uuid : ∀ u, parseUuid (uuid u) = some u

namespace Formats

variable (F : Formats)

def readTime (v : Value) : Option DateTime := (readString v).bind F.parseTime

def readUuid (v : Value) : Option Uuid := (readString v).bind F.parseUuid

def ofTime (t : DateTime) : Value := .str (F.time t)

def ofUuid (u : Uuid) : Value := .str (F.uuid u)

end Formats

/-! ## Readers of a declaration -/

def CloudTarget.decode : Value → Option CloudTarget :=
  readUnit [("local", .local), ("gcp", .gcp), ("azure", .azure), ("aws", .aws)]

def ExportType.decode : Value → Option ExportType :=
  readUnit [("http", .http), ("tcp", .tcp), ("queue", .queue)]

def AuthType.decode : Value → Option AuthType :=
  readUnit [("none", .none), ("token", .token), ("oauth", .oauth), ("mtls", .mtls),
    ("native", .native)]

def ProducesType.decode : Value → Option ProducesType :=
  readUnit [("http", .http), ("tcp", .tcp), ("queue", .queue)]

def ExportTarget.decode : Value → Option ExportTarget
  | .obj [("enclave", v)] => (readString v).map fun id => .enclave ⟨id⟩
  | .obj [("partition", v)] => (readString v).map fun id => .partition ⟨id⟩
  | v => readUnit [("public", .public_), ("any_enclave", .anyEnclave), ("vpn", .vpn)] v

def TerraformConfig.decode (v : Value) : Option TerraformConfig := do
  let tool ← v.optField "tool" readString
  let source ← v.optField "source" readString
  let dir ← v.field "dir" readString
  return { tool, source, dir }

def PartitionBackend.default : PartitionBackend := .terraform ⟨none, none, ""⟩

/-- The reader that is written by hand. -/
def PartitionBackend.decode : Value → Option PartitionBackend
  | .str s => if s = "Managed" then some .default else none
  | .obj [("Terraform", v)] => (TerraformConfig.decode v).map .terraform
  | .obj [("OpenTofu", v)] => (TerraformConfig.decode v).map .openTofu
  | _ => none

def Export.decode (v : Value) : Option Export := do
  let name ← v.field "name" readString
  let targetPartition ← v.field "target_partition" readString
  let exportType ← v.field "export_type" ExportType.decode
  let to_ ← v.field "to" ExportTarget.decode
  let auth ← v.field "auth" AuthType.decode
  let hostname ← v.optField "hostname" readString
  let port ← v.optField "port" fun v => (readInt 0 65535 v).map fun n => UInt16.ofNat n.toNat
  return { name, targetPartition := ⟨targetPartition⟩, exportType, to_, auth, hostname, port }

def Import.decode (v : Value) : Option Import := do
  let from_ ← v.field "from" readString
  let exportName ← v.field "export_name" readString
  let alias_ ← v.field "alias" readString
  return { from_ := ⟨from_⟩, exportName, alias_ }

def Partition.decode (v : Value) : Option Partition := do
  let id ← v.field "id" readString
  let name ← v.field "name" readString
  let produces ← v.optField "produces" ProducesType.decode
  let imports ← v.field "imports" (readSeq Import.decode)
  let exports ← v.field "exports" (readSeq Export.decode)
  let inputs ← v.field "inputs" (readEntries (fun k => k) readString)
  let declaredOutputs ← v.field "declared_outputs" (readSeq readString)
  let backend ← v.defaultField "backend" PartitionBackend.decode .default
  return { id := ⟨id⟩, name, produces, imports, exports, inputs, declaredOutputs, backend }


def NetworkConfig.decode (v : Value) : Option NetworkConfig := do
  let vpcCidr ← v.optField "vpc_cidr" readString
  let subnets ← v.field "subnets" (readSeq readString)
  return { vpcCidr, subnets }

def DnsConfig.decode (v : Value) : Option DnsConfig := do
  let zone ← v.optField "zone" readString
  return { zone }

def Enclave.decode (v : Value) : Option Enclave := do
  let id ← v.field "id" readString
  let name ← v.field "name" readString
  let cloud ← v.optField "cloud" CloudTarget.decode
  let region ← v.field "region" readString
  let identity ← v.optField "identity" readString
  let network ← v.optField "network" NetworkConfig.decode
  let dns ← v.optField "dns" DnsConfig.decode
  let imports ← v.field "imports" (readSeq Import.decode)
  let exports ← v.field "exports" (readSeq Export.decode)
  let partitions ← v.field "partitions" (readSeq Partition.decode)
  return { id := ⟨id⟩, name, cloud, region, identity, network, dns, imports, exports, partitions }

/-! ## Writers of a declaration, with old backends -/

/-- A partition, with the old string for its backend perhaps. -/
def Partition.encode (legacy : Bool) (part : Partition) : Value :=
  object
    [("id", .str part.id.val),
     ("name", .str part.name),
     ("produces", optValue (fun p => .str (toString p)) part.produces),
     ("imports", .arr (part.imports.map Import.toValue)),
     ("exports", .arr (part.exports.map Export.toValue)),
     ("inputs", mapValue part.inputs),
     ("declared_outputs", .arr (part.declaredOutputs.map .str)),
     ("backend", if legacy then .str "Managed" else part.backend.toValue)]

/-- What an old record is read as. -/
def Partition.migrate (legacy : Bool) (part : Partition) : Partition :=
  if legacy then { part with backend := .default } else part

/-- An enclave, with the old string in those of its partitions that are given by their index. -/
def Enclave.encode (legacy : Nat → Bool) (enc : Enclave) : Value :=
  object
    [("id", .str enc.id.val),
     ("name", .str enc.name),
     ("cloud", optValue (fun c => .str (toString c)) enc.cloud),
     ("region", .str enc.region),
     ("identity", optValue .str enc.identity),
     ("network", optValue NetworkConfig.toValue enc.network),
     ("dns", optValue DnsConfig.toValue enc.dns),
     ("imports", .arr (enc.imports.map Import.toValue)),
     ("exports", .arr (enc.exports.map Export.toValue)),
     ("partitions", .arr (enc.partitions.zipIdx.map fun p => p.1.encode (legacy p.2)))]

def Enclave.migrate (legacy : Nat → Bool) (enc : Enclave) : Enclave :=
  { enc with partitions := enc.partitions.zipIdx.map fun p => p.1.migrate (legacy p.2) }

/-! ## States -/

def ProvisioningStatus.encode : ProvisioningStatus → Value
  | .pending => .str "pending"
  | .provisioning => .str "provisioning"
  | .active => .str "active"
  | .updating => .str "updating"
  | .degraded => .str "degraded"
  | .error => .str "error"
  | .deleting => .str "deleting"
  | .deleted => .str "deleted"

def ProvisioningStatus.decode : Value → Option ProvisioningStatus :=
  readUnit [("pending", .pending), ("provisioning", .provisioning), ("active", .active),
    ("updating", .updating), ("degraded", .degraded), ("error", .error), ("deleting", .deleting),
    ("deleted", .deleted)]

section

variable (F : Formats)

def ResourceError.encode (e : ResourceError) : Value :=
  object [("message", .str e.message), ("occurred_at", F.ofTime e.occurredAt)]

def ResourceError.decode (v : Value) : Option ResourceError := do
  let message ← v.field "message" readString
  let occurredAt ← v.field "occurred_at" F.readTime
  return { message, occurredAt }

def ResourceMeta.encode (m : ResourceMeta) : Value :=
  object
    [("status", m.status.encode),
     ("created_at", optValue F.ofTime m.createdAt),
     ("updated_at", optValue F.ofTime m.updatedAt),
     ("last_seen_at", optValue F.ofTime m.lastSeenAt),
     ("last_error", optValue (ResourceError.encode F) m.lastError),
     ("desired_hash", optValue .str m.desiredHash),
     ("generation", .num m.generation)]

def ResourceMeta.decode (v : Value) : Option ResourceMeta := do
  let status ← v.field "status" ProvisioningStatus.decode
  let createdAt ← v.optField "created_at" F.readTime
  let updatedAt ← v.optField "updated_at" F.readTime
  let lastSeenAt ← v.optField "last_seen_at" F.readTime
  let lastError ← v.optField "last_error" (ResourceError.decode F)
  let desiredHash ← v.optField "desired_hash" readString
  let generation ← v.field "generation" readU64
  return { status, createdAt, updatedAt, lastSeenAt, lastError, desiredHash, generation }

def PartitionState.encode (legacy : Bool) (ps : PartitionState) : Value :=
  object
    [("desired", ps.desired.encode legacy),
     ("partition_handle", optValue id ps.partitionHandle),
     ("resolved_outputs", mapValue ps.resolvedOutputs),
     ("meta", ps.meta_.encode F)]

def PartitionState.decode (v : Value) : Option PartitionState := do
  let desired ← v.field "desired" Partition.decode
  let partitionHandle ← v.optField "partition_handle" some
  let resolvedOutputs ← v.field "resolved_outputs" (readEntries (fun k => k) readString)
  let meta_ ← v.field "meta" (ResourceMeta.decode F)
  return { desired, partitionHandle, resolvedOutputs, meta_ }

def PartitionState.migrate (legacy : Bool) (ps : PartitionState) : PartitionState :=
  { ps with desired := ps.desired.migrate legacy }

/-- The state of an enclave, with the old string in the listed and the stored partitions that are
given. -/
def EnclaveState.encode (listed : Nat → Bool) (stored : PartitionId → Bool) (s : EnclaveState) :
    Value :=
  object
    [("desired", s.desired.encode listed),
     ("enclave_handle", optValue id s.enclaveHandle),
     ("partitions", ofMap PartitionId.val (fun pid ps => ps.encode F (stored pid)) s.partitions),
     ("export_handles", ofMap (fun k => k) (fun _ handle => handle) s.exportHandles),
     ("import_handles", ofMap (fun k => k) (fun _ handle => handle) s.importHandles),
     ("meta", s.meta_.encode F),
     ("resolved_cloud", optValue (fun c => .str (toString c)) s.resolvedCloud)]

def EnclaveState.decode (v : Value) : Option EnclaveState := do
  let desired ← v.field "desired" Enclave.decode
  let enclaveHandle ← v.optField "enclave_handle" some
  let partitions ← v.field "partitions" (readEntries PartitionId.mk (PartitionState.decode F))
  let exportHandles ← v.field "export_handles" (readEntries (fun k => k) some)
  let importHandles ← v.field "import_handles" (readEntries (fun k => k) some)
  let meta_ ← v.field "meta" (ResourceMeta.decode F)
  let resolvedCloud ← v.optField "resolved_cloud" CloudTarget.decode
  return { desired, enclaveHandle, partitions, exportHandles, importHandles, meta_, resolvedCloud }

def EnclaveState.migrate (listed : Nat → Bool) (stored : PartitionId → Bool) (s : EnclaveState) :
    EnclaveState :=
  { s with
    desired := s.desired.migrate listed
    partitions := s.partitions.map fun pid ps => ps.migrate (stored pid) }

/-! ## Runs and events -/

def IacOperation.encode : IacOperation → Value
  | .provision => .str "provision"
  | .update => .str "update"
  | .teardown => .str "teardown"

def IacOperation.decode : Value → Option IacOperation :=
  readUnit [("provision", .provision), ("update", .update), ("teardown", .teardown)]

def IacRunStatus.encode : IacRunStatus → Value
  | .running => .str "running"
  | .succeeded => .str "succeeded"
  | .failed => .str "failed"

def IacRunStatus.decode : Value → Option IacRunStatus :=
  readUnit [("running", .running), ("succeeded", .succeeded), ("failed", .failed)]

def IacRun.encode (run : IacRun) : Value :=
  object
    [("id", F.ofUuid run.id),
     ("enclave_id", .str run.enclaveId.val),
     ("partition_id", .str run.partitionId.val),
     ("operation", run.operation.encode),
     ("started_at", F.ofTime run.startedAt),
     ("finished_at", optValue F.ofTime run.finishedAt),
     ("status", run.status.encode),
     ("exit_code", optValue .num run.exitCode),
     ("log", .str run.log),
     ("reconcile_run_id", optValue F.ofUuid run.reconcileRunId)]

def IacRun.decode (v : Value) : Option IacRun := do
  let id ← v.field "id" F.readUuid
  let enclaveId ← v.field "enclave_id" readString
  let partitionId ← v.field "partition_id" readString
  let operation ← v.field "operation" IacOperation.decode
  let startedAt ← v.field "started_at" F.readTime
  let finishedAt ← v.optField "finished_at" F.readTime
  let status ← v.field "status" IacRunStatus.decode
  let exitCode ← v.optField "exit_code" readI32
  let log ← v.field "log" readString
  let reconcileRunId ← v.optField "reconcile_run_id" F.readUuid
  return { id, enclaveId := ⟨enclaveId⟩, partitionId := ⟨partitionId⟩, operation, startedAt,
           finishedAt, status, exitCode, log, reconcileRunId }

/-- An event: an object with the name of its variant. -/
def AuditEvent.encode : AuditEvent → Value
  | .reconcileStarted id at_ dryRun => object
    [("kind", .str "ReconcileStarted"), ("id", F.ofUuid id), ("at", F.ofTime at_),
     ("dry_run", .bool dryRun)]
  | .reconcileCompleted id at_ changes dryRun => object
    [("kind", .str "ReconcileCompleted"), ("id", F.ofUuid id), ("at", F.ofTime at_),
     ("changes", .num changes), ("dry_run", .bool dryRun)]
  | .enclaveProvisioned id at_ enclaveId => object
    [("kind", .str "EnclaveProvisioned"), ("id", F.ofUuid id), ("at", F.ofTime at_),
     ("enclave_id", .str enclaveId.val)]
  | .partitionProvisioned id at_ enclaveId partitionId => object
    [("kind", .str "PartitionProvisioned"), ("id", F.ofUuid id), ("at", F.ofTime at_),
     ("enclave_id", .str enclaveId.val), ("partition_id", .str partitionId.val)]
  | .exportWired id at_ enclaveId exportName => object
    [("kind", .str "ExportWired"), ("id", F.ofUuid id), ("at", F.ofTime at_),
     ("enclave_id", .str enclaveId.val), ("export_name", .str exportName)]
  | .importWired id at_ importerEnclave exportName => object
    [("kind", .str "ImportWired"), ("id", F.ofUuid id), ("at", F.ofTime at_),
     ("importer_enclave", .str importerEnclave.val), ("export_name", .str exportName)]
  | .enclaveError id at_ enclaveId message => object
    [("kind", .str "EnclaveError"), ("id", F.ofUuid id), ("at", F.ofTime at_),
     ("enclave_id", .str enclaveId.val), ("message", .str message)]
  | .partitionError id at_ enclaveId partitionId message => object
    [("kind", .str "PartitionError"), ("id", F.ofUuid id), ("at", F.ofTime at_),
     ("enclave_id", .str enclaveId.val), ("partition_id", .str partitionId.val),
     ("message", .str message)]

def AuditEvent.decode (v : Value) : Option AuditEvent := do
  let kind ← v.field "kind" readString
  let id ← v.field "id" F.readUuid
  let at_ ← v.field "at" F.readTime
  match kind with
  | "ReconcileStarted" => return .reconcileStarted id at_ (← v.field "dry_run" readBool)
  | "ReconcileCompleted" =>
    return .reconcileCompleted id at_ (← v.field "changes" readU64) (← v.field "dry_run" readBool)
  | "EnclaveProvisioned" => return .enclaveProvisioned id at_ ⟨← v.field "enclave_id" readString⟩
  | "PartitionProvisioned" =>
    return .partitionProvisioned id at_ ⟨← v.field "enclave_id" readString⟩
      ⟨← v.field "partition_id" readString⟩
  | "ExportWired" =>
    return .exportWired id at_ ⟨← v.field "enclave_id" readString⟩
      (← v.field "export_name" readString)
  | "ImportWired" =>
    return .importWired id at_ ⟨← v.field "importer_enclave" readString⟩
      (← v.field "export_name" readString)
  | "EnclaveError" =>
    return .enclaveError id at_ ⟨← v.field "enclave_id" readString⟩ (← v.field "message" readString)
  | "PartitionError" =>
    return .partitionError id at_ ⟨← v.field "enclave_id" readString⟩
      ⟨← v.field "partition_id" readString⟩ (← v.field "message" readString)
  | _ => none

end

end Nclav
