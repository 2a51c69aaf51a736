import Mathlib

/-!
# The domain types

What an author declares: enclaves, their partitions, and the exports and imports that wire
them. A `HashMap` of the source is a map compared by its bindings, as `==` compares hash
maps; where the source iterates over one, the order is asked of the system (see
`Call.enclaveOrder`).
-/

namespace Nclav

/-- A finite map, equal to another when it has the same bindings. -/
abbrev HashMap (K V : Type) [Ord K] : Type := Std.ExtTreeMap K V compare

namespace HashMap

variable {K V : Type} [Ord K] [Std.TransOrd K] [Std.LawfulEqOrd K] [DecidableEq K]

/-- A lookup after an insertion, by equality of the keys. -/
theorem get?_insert (m : HashMap K V) (k a : K) (v : V) :
    (m.insert k v)[a]? = if a = k then some v else m[a]? := by
  rw [Std.ExtTreeMap.getElem?_insert]
  by_cases h : a = k
  · rw [if_pos h, if_pos (by rw [h]; exact Std.ReflCmp.compare_self)]
  · rw [if_neg h, if_neg fun hc => h (Std.LawfulEqCmp.eq_of_compare hc).symm]

/-- A lookup after an erasure, by equality of the keys. -/
theorem get?_erase (m : HashMap K V) (k a : K) :
    (m.erase k)[a]? = if a = k then none else m[a]? := by
  rw [Std.ExtTreeMap.getElem?_erase]
  by_cases h : a = k
  · rw [if_pos h, if_pos (by rw [h]; exact Std.ReflCmp.compare_self)]
  · rw [if_neg h, if_neg fun hc => h (Std.LawfulEqCmp.eq_of_compare hc).symm]

omit [DecidableEq K] in
/-- The entries of a map are the only list in the order of the keys that has the same lookups. -/
theorem toList_eq_of_sorted {m : HashMap K V} {l : List (K × V)}
    (hsorted : l.Pairwise fun a b => compare a.1 b.1 = .lt)
    (hget : ∀ k v, m[k]? = some v ↔ (k, v) ∈ l) : m.toList = l := by
  have hsorted' : m.toList.Pairwise fun a b => compare a.1 b.1 = .lt :=
    Std.ExtTreeMap.ordered_keys_toList
  have hnodup : ∀ l : List (K × V), l.Pairwise (fun a b => compare a.1 b.1 = .lt) → l.Nodup :=
    fun l hl => hl.imp fun {a b} hab heq => by
      have hself : compare a.1 a.1 = .eq := Std.ReflCmp.compare_self
      rw [← heq, hself] at hab
      cases hab
  have hperm : m.toList.Perm l := by
    refine (List.perm_ext_iff_of_nodup (hnodup _ hsorted') (hnodup _ hsorted)).mpr fun kv => ?_
    rw [← hget, ← Std.ExtTreeMap.mem_toList_iff_getElem?_eq_some]
  refine hperm.eq_of_pairwise (fun a b _ _ hab hba => ?_) hsorted' hsorted
  have hswap : compare a.1 b.1 = (compare b.1 a.1).swap := Std.OrientedCmp.eq_swap
  rw [hswap, hba] at hab
  cases hab

end HashMap

/-! ## Identifiers -/

@[ext] structure EnclaveId : Type where
  val : String
  deriving DecidableEq, Repr

@[ext] structure PartitionId : Type where
  val : String
  deriving DecidableEq, Repr

instance : Ord EnclaveId where
  compare a b := compare a.val b.val

instance : Std.TransOrd EnclaveId where
  eq_swap {a b} := @Std.OrientedCmp.eq_swap String compare _ a.val b.val
  isLE_trans {a b c} := @Std.TransCmp.isLE_trans String compare _ a.val b.val c.val

instance : Std.LawfulEqOrd EnclaveId where
  compare_self {a} := @Std.ReflCmp.compare_self String compare _ a.val
  eq_of_compare {a b} h :=
    congrArg EnclaveId.mk (@Std.LawfulEqCmp.eq_of_compare String compare _ a.val b.val h)

instance : Ord PartitionId where
  compare a b := compare a.val b.val

instance : Std.TransOrd PartitionId where
  eq_swap {a b} := @Std.OrientedCmp.eq_swap String compare _ a.val b.val
  isLE_trans {a b c} := @Std.TransCmp.isLE_trans String compare _ a.val b.val c.val

instance : Std.LawfulEqOrd PartitionId where
  compare_self {a} := @Std.ReflCmp.compare_self String compare _ a.val
  eq_of_compare {a b} h :=
    congrArg PartitionId.mk (@Std.LawfulEqCmp.eq_of_compare String compare _ a.val b.val h)

/-! ## Paths -/

/-- `Path::join`: an absolute component replaces the path. -/
def joinPath (base component : String) : String :=
  if component.toList.head? = some '/' then component
  else if base = "" ∨ base.toList.getLast? = some '/' then base ++ component
  else base ++ "/" ++ component

/-- `Path::parent`: the path up to its last separator. -/
def parentPath (path : String) : String :=
  String.ofList ((path.toList.reverse.dropWhile (· ≠ '/')).drop 1).reverse

/-! ## Enumerations -/

inductive CloudTarget : Type where
  | local
  | gcp
  | azure
  | aws
  deriving DecidableEq, Repr

instance : ToString CloudTarget where
  toString
    | .local => "local"
    | .gcp => "gcp"
    | .azure => "azure"
    | .aws => "aws"

inductive AuthType : Type where
  | none
  | token
  | oauth
  | mtls
  | native
  deriving DecidableEq, Repr

inductive ExportType : Type where
  | http
  | tcp
  | queue
  deriving DecidableEq, Repr

namespace ExportType

/-- The auth types compatible with an export type. -/
def compatibleAuthTypes : ExportType → List AuthType
  | .http => [.none, .token, .oauth, .mtls]
  | .tcp => [.none, .mtls, .native]
  | .queue => [.none, .token, .native]

def isAuthCompatible (t : ExportType) (auth : AuthType) : Bool :=
  t.compatibleAuthTypes.contains auth

instance : ToString ExportType where
  toString
    | .http => "http"
    | .tcp => "tcp"
    | .queue => "queue"

end ExportType

inductive ExportTarget : Type where
  | public_
  | anyEnclave
  | enclave : EnclaveId → ExportTarget
  | vpn
  | partition : PartitionId → ExportTarget
  deriving DecidableEq, Repr

inductive ProducesType : Type where
  | http
  | tcp
  | queue
  deriving DecidableEq, Repr

namespace ProducesType

/-- The output keys that a partition of this kind must declare. -/
def requiredOutputs : ProducesType → List String
  | .http => ["hostname", "port"]
  | .tcp => ["hostname", "port"]
  | .queue => ["queue_url"]

instance : ToString ProducesType where
  toString
    | .http => "http"
    | .tcp => "tcp"
    | .queue => "queue"

end ProducesType

/-- The export type that fits what a partition produces. -/
def ExportType.ofProduces : ProducesType → ExportType
  | .http => .http
  | .tcp => .tcp
  | .queue => .queue

/-! ## Structures -/

structure TerraformConfig : Type where
  /-- binary override -/
  tool : Option String
  /-- module source; when present, the workspace is generated from it -/
  source : Option String
  /-- the partition directory, set by the loader -/
  dir : String
  deriving DecidableEq

/-- How a partition's workload is provisioned. -/
inductive PartitionBackend : Type where
  | terraform : TerraformConfig → PartitionBackend
  | openTofu : TerraformConfig → PartitionBackend
  deriving DecidableEq

structure Export : Type where
  name : String
  targetPartition : PartitionId
  exportType : ExportType
  to_ : ExportTarget
  auth : AuthType
  hostname : Option String
  port : Option UInt16
  deriving DecidableEq

structure Import : Type where
  /-- the exporting enclave -/
  from_ : EnclaveId
  exportName : String
  /-- the name templates use for it -/
  alias_ : String
  deriving DecidableEq

structure Partition : Type where
  id : PartitionId
  name : String
  produces : Option ProducesType
  imports : List Import
  exports : List Export
  /-- template-able input values -/
  inputs : HashMap String String
  declaredOutputs : List String
  backend : PartitionBackend
  deriving DecidableEq

structure NetworkConfig : Type where
  vpcCidr : Option String
  subnets : List String
  deriving DecidableEq

structure DnsConfig : Type where
  zone : Option String
  deriving DecidableEq

structure Enclave : Type where
  id : EnclaveId
  name : String
  /-- `none` inherits the server's default cloud -/
  cloud : Option CloudTarget
  region : String
  identity : Option String
  network : Option NetworkConfig
  dns : Option DnsConfig
  imports : List Import
  exports : List Export
  partitions : List Partition
  deriving DecidableEq

/-- The imports that are wired into an enclave: its own, then those of its partitions. -/
def Enclave.allImports (enc : Enclave) : List Import :=
  enc.imports ++ enc.partitions.flatMap (·.imports)

end Nclav
