import Nclav.Config.Yaml

/-!
# Configuration files as written

The raw forms of `config.yml`, one for enclaves and one for partitions, and their
deserialization from a YAML document: a mapping whose required fields are present with the
declared types. Fields it does not know are ignored. An optional field may be absent or
null, a defaulted one absent.
-/

namespace Nclav

/-! ## Raw structures -/

structure RawNetwork : Type where
  vpcCidr : Option String
  subnets : List String

structure RawDns : Type where
  zone : Option String

structure RawTerraformConfig : Type where
  tool : Option String
  source : Option String

structure RawImport : Type where
  from_ : String
  exportName : String
  alias_ : String

inductive RawExportTarget : Type where
  | simple : String → RawExportTarget
  | enclave : String → RawExportTarget
  | partition : String → RawExportTarget

structure RawExport : Type where
  name : String
  targetPartition : String
  exportType : String
  to_ : RawExportTarget
  auth : String
  hostname : Option String
  port : Option UInt16

structure RawEnclave : Type where
  id : String
  name : String
  /-- absent means the server's default cloud -/
  cloud : Option String
  region : String
  identity : Option String
  network : Option RawNetwork
  dns : Option RawDns
  imports : List RawImport
  exports : List RawExport
  partitions : List String

structure RawPartition : Type where
  id : String
  name : String
  produces : Option String
  imports : List RawImport
  exports : List RawExport
  inputs : HashMap String String
  declaredOutputs : List String
  backend : String
  terraform : Option RawTerraformConfig

/-! ## Deserialization -/

def RawNetwork.deserialize : Yaml → Option RawNetwork :=
  readStruct ["vpc_cidr", "subnets"] fun v => do
    let vpcCidr ← optField readStr v "vpc_cidr"
    let subnets ← defaultField (readList readStr) v "subnets" []
    return { vpcCidr, subnets }

def RawDns.deserialize : Yaml → Option RawDns :=
  readStruct ["zone"] fun v => do
    let zone ← optField readStr v "zone"
    return { zone }

def RawTerraformConfig.deserialize : Yaml → Option RawTerraformConfig :=
  readStruct ["tool", "source"] fun v => do
    let tool ← optField readStr v "tool"
    let source ← optField readStr v "source"
    return { tool, source }

def RawImport.deserialize : Yaml → Option RawImport :=
  readStruct ["from", "export_name", "alias"] fun v => do
    let from_ ← field readStr v "from"
    let exportName ← field readStr v "export_name"
    let alias_ ← field readStr v "alias"
    return { from_, exportName, alias_ }

/-- The untagged enumeration: a string, else a mapping with `enclave`, else one with
`partition`. -/
def RawExportTarget.deserialize (v : Yaml) : Option RawExportTarget :=
  match readText v with
  | some s => some (.simple s)
  | none =>
    match readVariant "enclave" v with
    | some id => some (.enclave id)
    | none => (readVariant "partition" v).map .partition

def defaultAuth : String := "none"

def RawExport.deserialize : Yaml → Option RawExport :=
  readStruct ["name", "target_partition", "type", "to", "auth", "hostname", "port"] fun v => do
    let name ← field readStr v "name"
    let targetPartition ← field readStr v "target_partition"
    let exportType ← field readStr v "type"
    let to_ ← field RawExportTarget.deserialize v "to"
    let auth ← defaultField readStr v "auth" defaultAuth
    let hostname ← optField readStr v "hostname"
    let port ← optField readPort v "port"
    return { name, targetPartition, exportType, to_, auth, hostname, port }

def RawEnclave.fields : List String :=
  ["id", "name", "cloud", "region", "identity", "network", "dns", "imports", "exports",
    "partitions"]

def RawEnclave.deserialize : Yaml → Option RawEnclave :=
  readStruct RawEnclave.fields fun v => do
    let id ← field readStr v "id"
    let name ← field readStr v "name"
    let cloud ← optField readStr v "cloud"
    let region ← field readStr v "region"
    let identity ← optField readStr v "identity"
    let network ← optField RawNetwork.deserialize v "network"
    let dns ← optField RawDns.deserialize v "dns"
    let imports ← defaultField (readList RawImport.deserialize) v "imports" []
    let exports ← defaultField (readList RawExport.deserialize) v "exports" []
    let partitions ← defaultField (readList readStr) v "partitions" []
    return { id, name, cloud, region, identity, network, dns, imports, exports, partitions }

def RawPartition.fields : List String :=
  ["id", "name", "produces", "imports", "exports", "inputs", "declared_outputs", "backend",
    "terraform"]

def RawPartition.deserialize : Yaml → Option RawPartition :=
  readStruct RawPartition.fields fun v => do
    let id ← field readStr v "id"
    let name ← field readStr v "name"
    let produces ← optField readStr v "produces"
    let imports ← defaultField (readList RawImport.deserialize) v "imports" []
    let exports ← defaultField (readList RawExport.deserialize) v "exports" []
    let inputs ← defaultField readMap v "inputs" ∅
    let declaredOutputs ← defaultField (readList readStr) v "declared_outputs" []
    let backend ← defaultField readStr v "backend" ""
    let terraform ← optField RawTerraformConfig.deserialize v "terraform"
    return { id, name, produces, imports, exports, inputs, declaredOutputs, backend, terraform }

/-- The id that deserializes is the one top-level `id` of the document. -/
theorem RawEnclave.values_id_of_deserialize {v : Yaml} {raw : RawEnclave}
    (h : RawEnclave.deserialize v = some raw) :
    ∃ x, v.values "id" = [x] ∧ x.text = some raw.id := by
  obtain ⟨hstruct, h⟩ := readStruct_eq_some h
  rw [Option.bind_eq_bind, Option.bind_eq_some_iff] at h
  obtain ⟨id, hid, h⟩ := h
  have hraw : raw.id = id := by
    simp only [Option.bind_eq_bind, Option.bind_eq_some_iff, Option.pure_def,
      Option.some.injEq] at h
    obtain ⟨_, _, _, _, _, _, _, _, _, _, _, _, _, _, _, _, _, _, rfl⟩ := h
    rfl
  rw [hraw]
  exact values_eq_singleton hstruct (by decide) hid

end Nclav
