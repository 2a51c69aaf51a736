import Nclav.Store.State

/-!
# The desired-state hash

`computeDesiredHash` serializes a declaration, sorts the keys of every object in the
document and hashes the bytes. The serialization is serde's derived one, field by field; the
bytes and SHA-256 belong to other crates and are one parameter, `digest`, from documents to
hex strings. With `digest` injective two partitions have one hash only if they are equal
(`Partition.toValue_injective`).
-/

namespace Nclav

open Serde (Value)
open Serde.Value (object sortKeys sortKeysList)

/-! ## Serialization -/

/-- An optional field: null when absent. -/
def optValue {α : Type} (f : α → Value) : Option α → Value
  | none => .null
  | some a => f a

/-- A string-valued hash map, as an object. -/
def mapValue (m : HashMap String String) : Value :=
  object (m.toList.map fun kv => (kv.1, .str kv.2))

def AuthType.toValue : AuthType → Value
  | .none => .str "none"
  | .token => .str "token"
  | .oauth => .str "oauth"
  | .mtls => .str "mtls"
  | .native => .str "native"

def ExportTarget.toValue : ExportTarget → Value
  | .public_ => .str "public"
  | .anyEnclave => .str "any_enclave"
  | .enclave id => object [("enclave", .str id.val)]
  | .vpn => .str "vpn"
  | .partition id => object [("partition", .str id.val)]

def TerraformConfig.toValue (cfg : TerraformConfig) : Value :=
  object [("tool", optValue .str cfg.tool), ("source", optValue .str cfg.source),
    ("dir", .str cfg.dir)]

def PartitionBackend.toValue : PartitionBackend → Value
  | .terraform cfg => object [("Terraform", cfg.toValue)]
  | .openTofu cfg => object [("OpenTofu", cfg.toValue)]

def Export.toValue (ex : Export) : Value :=
  object
    [("name", .str ex.name),
     ("target_partition", .str ex.targetPartition.val),
     ("export_type", .str (toString ex.exportType)),
     ("to", ex.to_.toValue),
     ("auth", ex.auth.toValue),
     ("hostname", optValue .str ex.hostname),
     ("port", optValue (fun p => .num p.toNat) ex.port)]

def Import.toValue (im : Import) : Value :=
  object
    [("from", .str im.from_.val), ("export_name", .str im.exportName), ("alias", .str im.alias_)]

def Partition.toValue (part : Partition) : Value :=
  object
    [("id", .str part.id.val),
     ("name", .str part.name),
     ("produces", optValue (fun p => .str (toString p)) part.produces),
     ("imports", .arr (part.imports.map Import.toValue)),
     ("exports", .arr (part.exports.map Export.toValue)),
     ("inputs", mapValue part.inputs),
     ("declared_outputs", .arr (part.declaredOutputs.map .str)),
     ("backend", part.backend.toValue)]

def NetworkConfig.toValue (n : NetworkConfig) : Value :=
  object [("vpc_cidr", optValue .str n.vpcCidr), ("subnets", .arr (n.subnets.map .str))]

def DnsConfig.toValue (d : DnsConfig) : Value :=
  object [("zone", optValue .str d.zone)]

def Enclave.toValue (enc : Enclave) : Value :=
  object
    [("id", .str enc.id.val),
     ("name", .str enc.name),
     ("cloud", optValue (fun c => .str (toString c)) enc.cloud),
     ("region", .str enc.region),
     ("identity", optValue .str enc.identity),
     ("network", optValue NetworkConfig.toValue enc.network),
     ("dns", optValue DnsConfig.toValue enc.dns),
     ("imports", .arr (enc.imports.map Import.toValue)),
     ("exports", .arr (enc.exports.map Export.toValue)),
     ("partitions", .arr (enc.partitions.map Partition.toValue))]

/-- The hash of a serialized declaration. -/
def computeDesiredHash (digest : Value → String) (v : Value) : String :=
  digest (sortKeys v)

/-! ## Serialization loses nothing

Each lemma reads the fields back one by one from the sorted document; `field_eq` is the step
they share. -/

/-- Equal sorted documents agree on every field. -/
theorem field_eq {v w : Value} (h : sortKeys v = sortKeys w) (k : String) :
    (v.get? k).map sortKeys = (w.get? k).map sortKeys := by
  rw [← Serde.Value.get?_sortKeys, ← Serde.Value.get?_sortKeys, h]

theorem sortKeys_str (s : String) : sortKeys (.str s) = .str s := by rw [sortKeys]

theorem str_inj {s t : String} (h : sortKeys (.str s) = sortKeys (.str t)) : s = t := by
  rw [sortKeys_str, sortKeys_str] at h
  exact Value.str.inj h

theorem object_ne_str (fields : List (String × Value)) (s : String) :
    sortKeys (object fields) ≠ .str s := by
  rw [object, sortKeys, object]
  exact fun h => by cases h

/-- An optional field is read back when its value is and never serializes to null. -/
theorem optValue_inj {α : Type} {f : α → Value} (hnull : ∀ a, sortKeys (f a) ≠ .null)
    (hf : ∀ a b, sortKeys (f a) = sortKeys (f b) → a = b) {a b : Option α}
    (h : sortKeys (optValue f a) = sortKeys (optValue f b)) : a = b := by
  have hn : sortKeys .null = .null := by rw [sortKeys]
  cases a with
  | none =>
    cases b with
    | none => rfl
    | some b => exact absurd (h.symm.trans hn) (hnull b)
  | some a =>
    cases b with
    | none => exact absurd (h.trans hn) (hnull a)
    | some b => exact congrArg some (hf a b h)

theorem optStr_inj {a b : Option String}
    (h : sortKeys (optValue .str a) = sortKeys (optValue .str b)) : a = b :=
  optValue_inj (fun s hs => by rw [sortKeys_str] at hs; cases hs) (fun _ _ => str_inj) h

/-- A sequence is read back when its elements are. -/
theorem arr_inj {α : Type} {f : α → Value} (hf : ∀ a b, sortKeys (f a) = sortKeys (f b) → a = b)
    {as bs : List α} (h : sortKeys (.arr (as.map f)) = sortKeys (.arr (bs.map f))) : as = bs := by
  rw [sortKeys, sortKeys, Value.arr.injEq, Serde.Value.sortKeysList_eq_map,
    Serde.Value.sortKeysList_eq_map, List.map_map, List.map_map] at h
  exact List.map_injective_iff.mpr (fun a b hab => hf a b hab) h

/-- The lookup in the field list of a map is the lookup in the map. -/
theorem lookup_mapValue (m : HashMap String String) (k : String) :
    (m.toList.map fun kv => (kv.1, Value.str kv.2)).lookup k = m[k]?.map .str := by
  cases hv : m[k]? with
  | some v =>
    rw [Option.map_some]
    have hmem : (k, v) ∈ m.toList := Std.ExtTreeMap.mem_toList_iff_getElem?_eq_some.mpr hv
    have hkeys := Std.ExtTreeMap.distinct_keys_toList (t := m)
    revert hmem hkeys
    induction m.toList with
    | nil => exact fun hmem => absurd hmem List.not_mem_nil
    | cons kv rest ih =>
      intro hmem hkeys
      obtain ⟨hhead, hrest⟩ := List.pairwise_cons.mp hkeys
      rw [List.map_cons, Serde.Value.lookup_cons_eq_ite]
      rcases List.mem_cons.mp hmem with heq | hmem
      · rw [← heq, if_pos rfl]
      · have hne : k ≠ kv.1 := by
          rintro rfl
          exact hhead _ hmem (Std.ReflCmp.compare_self)
        rw [if_neg hne]
        exact ih hmem hrest
  | none =>
    rw [Option.map_none, List.lookup_eq_none_iff]
    intro p hp
    obtain ⟨kv, hkv, rfl⟩ := List.mem_map.mp hp
    have hsome : m[kv.1]? = some kv.2 := Std.ExtTreeMap.mem_toList_iff_getElem?_eq_some.mp hkv
    have hne : k ≠ kv.1 := by
      rintro rfl
      rw [hsome] at hv
      cases hv
    simpa using hne

theorem mapValue_inj {m m' : HashMap String String}
    (h : sortKeys (mapValue m) = sortKeys (mapValue m')) : m = m' := by
  refine Std.ExtTreeMap.ext_getElem? fun k => ?_
  have hk := field_eq h k
  rw [mapValue, mapValue, Serde.Value.get?_object, Serde.Value.get?_object, lookup_mapValue,
    lookup_mapValue, Option.map_map, Option.map_map] at hk
  exact Option.map_injective (fun s t hst => str_inj hst) hk

theorem ProducesType.toString_inj {a b : ProducesType} (h : toString a = toString b) : a = b := by
  revert h
  cases a <;> cases b <;> decide

theorem ExportType.toString_inj {a b : ExportType} (h : toString a = toString b) : a = b := by
  revert h
  cases a <;> cases b <;> decide

theorem AuthType.toValue_injective {a b : AuthType}
    (h : sortKeys a.toValue = sortKeys b.toValue) : a = b := by
  revert h
  cases a <;> cases b <;> simp [AuthType.toValue, sortKeys_str]

theorem ExportTarget.toValue_injective {a b : ExportTarget}
    (h : sortKeys a.toValue = sortKeys b.toValue) : a = b := by
  have henclave := field_eq h "enclave"
  have hpartition := field_eq h "partition"
  cases a <;> cases b <;>
    simp_all [ExportTarget.toValue, sortKeys_str, object_ne_str, (object_ne_str _ _).symm,
      Serde.Value.lookup_cons_eq_ite, EnclaveId.ext_iff, PartitionId.ext_iff]

theorem TerraformConfig.toValue_injective {a b : TerraformConfig}
    (h : sortKeys a.toValue = sortKeys b.toValue) : a = b := by
  have htool := field_eq h "tool"
  have hsource := field_eq h "source"
  have hdir := field_eq h "dir"
  simp [TerraformConfig.toValue, Serde.Value.lookup_cons_eq_ite] at htool hsource hdir
  cases a
  cases b
  rw [TerraformConfig.mk.injEq]
  exact ⟨optStr_inj htool, optStr_inj hsource, str_inj hdir⟩

theorem PartitionBackend.toValue_injective {a b : PartitionBackend}
    (h : sortKeys a.toValue = sortKeys b.toValue) : a = b := by
  have hterraform := field_eq h "Terraform"
  have htofu := field_eq h "OpenTofu"
  cases a <;> cases b <;>
    simp [PartitionBackend.toValue, Serde.Value.lookup_cons_eq_ite] at hterraform htofu
  · exact congrArg _ (TerraformConfig.toValue_injective hterraform)
  · exact congrArg _ (TerraformConfig.toValue_injective htofu)

theorem Import.toValue_injective (a b : Import)
    (h : sortKeys a.toValue = sortKeys b.toValue) : a = b := by
  have hfrom := field_eq h "from"
  have hname := field_eq h "export_name"
  have halias := field_eq h "alias"
  simp [Import.toValue, Serde.Value.lookup_cons_eq_ite] at hfrom hname halias
  cases a
  cases b
  rw [Import.mk.injEq]
  exact ⟨EnclaveId.ext (str_inj hfrom), str_inj hname, str_inj halias⟩

theorem Export.toValue_injective (a b : Export)
    (h : sortKeys a.toValue = sortKeys b.toValue) : a = b := by
  have hname := field_eq h "name"
  have htarget := field_eq h "target_partition"
  have htype := field_eq h "export_type"
  have hto := field_eq h "to"
  have hauth := field_eq h "auth"
  have hhost := field_eq h "hostname"
  have hport := field_eq h "port"
  simp [Export.toValue, Serde.Value.lookup_cons_eq_ite]
    at hname htarget htype hto hauth hhost hport
  cases a
  cases b
  rw [Export.mk.injEq]
  refine ⟨str_inj hname, PartitionId.ext (str_inj htarget),
    ExportType.toString_inj (str_inj htype), ExportTarget.toValue_injective hto,
    AuthType.toValue_injective hauth, optStr_inj hhost, optValue_inj ?_ ?_ hport⟩
  · intro p hp
    rw [sortKeys] at hp
    cases hp
  · intro p q hpq
    rw [sortKeys, sortKeys, Value.num.injEq] at hpq
    exact UInt16.toNat_inj.mp (Int.ofNat_inj.mp hpq)

/-- **Serialization loses nothing**: equal sorted documents come from equal partitions. -/
theorem Partition.toValue_injective {a b : Partition}
    (h : sortKeys a.toValue = sortKeys b.toValue) : a = b := by
  have hid := field_eq h "id"
  have hname := field_eq h "name"
  have hproduces := field_eq h "produces"
  have himports := field_eq h "imports"
  have hexports := field_eq h "exports"
  have hinputs := field_eq h "inputs"
  have houtputs := field_eq h "declared_outputs"
  have hbackend := field_eq h "backend"
  simp [Partition.toValue, Serde.Value.lookup_cons_eq_ite]
    at hid hname hproduces himports hexports hinputs houtputs hbackend
  cases a
  cases b
  rw [Partition.mk.injEq]
  refine ⟨PartitionId.ext (str_inj hid), str_inj hname, optValue_inj ?_ ?_ hproduces,
    arr_inj Import.toValue_injective himports, arr_inj Export.toValue_injective hexports,
    mapValue_inj hinputs, arr_inj (fun _ _ => str_inj) houtputs,
    PartitionBackend.toValue_injective hbackend⟩
  · intro p hp
    rw [sortKeys_str] at hp
    cases hp
  · exact fun p q hpq => ProducesType.toString_inj (str_inj hpq)

end Nclav
