import Nclav.Serde.Json
import Nclav.Serde.Reorder
import Nclav.Store.Hash
import Nclav.Web.Signature

/-!
# The desired hash identifies the desired state

Two declarations have one hash exactly when they are equal, in whatever order the fields and the
entries of their maps are serialized (`desired_hash_iff`).
-/

namespace Nclav

open Serde (Value)
open Serde.Value (Reorders Distinct sortKeys)

/-! ## Enclaves -/

theorem CloudTarget.toString_inj {a b : CloudTarget} (h : toString a = toString b) : a = b := by
  revert h
  cases a <;> cases b <;> decide

theorem NetworkConfig.toValue_injective (a b : NetworkConfig)
    (h : sortKeys a.toValue = sortKeys b.toValue) : a = b := by
  have hcidr := field_eq h "vpc_cidr"
  have hsubnets := field_eq h "subnets"
  simp [NetworkConfig.toValue, Serde.Value.lookup_cons_eq_ite] at hcidr hsubnets
  cases a
  cases b
  rw [NetworkConfig.mk.injEq]
  exact ⟨optStr_inj hcidr, arr_inj (fun _ _ => str_inj) hsubnets⟩

theorem DnsConfig.toValue_injective (a b : DnsConfig)
    (h : sortKeys a.toValue = sortKeys b.toValue) : a = b := by
  have hzone := field_eq h "zone"
  simp [DnsConfig.toValue] at hzone
  cases a
  cases b
  rw [DnsConfig.mk.injEq]
  exact optStr_inj hzone

theorem sortKeys_object_ne_null (fields : List (String × Value)) :
    sortKeys (Serde.Value.object fields) ≠ .null := by
  rw [Serde.Value.object, sortKeys, Serde.Value.object]
  exact fun h => by cases h

theorem Enclave.toValue_injective {a b : Enclave}
    (h : sortKeys a.toValue = sortKeys b.toValue) : a = b := by
  have hid := field_eq h "id"
  have hname := field_eq h "name"
  have hcloud := field_eq h "cloud"
  have hregion := field_eq h "region"
  have hidentity := field_eq h "identity"
  have hnetwork := field_eq h "network"
  have hdns := field_eq h "dns"
  have himports := field_eq h "imports"
  have hexports := field_eq h "exports"
  have hpartitions := field_eq h "partitions"
  simp [Enclave.toValue, Serde.Value.lookup_cons_eq_ite] at hid hname hcloud hregion hidentity
  simp [Enclave.toValue, Serde.Value.lookup_cons_eq_ite] at hnetwork hdns himports hexports
  simp [Enclave.toValue, Serde.Value.lookup_cons_eq_ite] at hpartitions
  cases a
  cases b
  rw [Enclave.mk.injEq]
  refine ⟨EnclaveId.ext (str_inj hid), str_inj hname, optValue_inj ?_ ?_ hcloud,
    str_inj hregion, optStr_inj hidentity,
    optValue_inj (fun _ => sortKeys_object_ne_null _) NetworkConfig.toValue_injective hnetwork,
    optValue_inj (fun _ => sortKeys_object_ne_null _) DnsConfig.toValue_injective hdns,
    arr_inj Import.toValue_injective himports, arr_inj Export.toValue_injective hexports,
    arr_inj (fun _ _ => Partition.toValue_injective) hpartitions⟩
  · intro c hc
    rw [sortKeys_str] at hc
    cases hc
  · exact fun c c' hcc => CloudTarget.toString_inj (str_inj hcc)

/-! ## Digests -/

/-- The digits of the bytes tell the bytes. -/
theorem hex_injective : Function.Injective Sigv4.hex := by
  intro bs bs' h
  have hdigit : ∀ n < 16, ∀ m < 16, Sigv4.hexDigit n = Sigv4.hexDigit m → n = m := by decide
  have hbyte : ∀ b b' : UInt8, Sigv4.hexDigit (b.toNat / 16) = Sigv4.hexDigit (b'.toNat / 16) →
      Sigv4.hexDigit (b.toNat % 16) = Sigv4.hexDigit (b'.toNat % 16) → b = b' := by
    intro b b' hhigh hlow
    have hb := b.toNat_lt
    have hb' := b'.toNat_lt
    have hdiv := hdigit _ (by omega) _ (by omega) hhigh
    have hmod := hdigit _ (by omega) _ (by omega) hlow
    exact UInt8.toNat_inj.mp (by omega)
  have hlist : bs.flatMap (fun b => [Sigv4.hexDigit (b.toNat / 16), Sigv4.hexDigit (b.toNat % 16)]) =
      bs'.flatMap (fun b => [Sigv4.hexDigit (b.toNat / 16), Sigv4.hexDigit (b.toNat % 16)]) :=
    String.ofList_injective h
  clear h
  induction bs generalizing bs' with
  | nil =>
    cases bs' with
    | nil => rfl
    | cons b rest => cases hlist
  | cons b rest ih =>
    cases bs' with
    | nil => cases hlist
    | cons b' rest' =>
      obtain ⟨hhigh, htail⟩ := List.cons_eq_cons.mp hlist
      obtain ⟨hlow, htail⟩ := List.cons_eq_cons.mp htail
      rw [hbyte b b' hhigh hlow, ih htail]

/-- The digest of a document: the SHA-256 of its compact JSON, in hexadecimal. -/
def hexDigest (sha256 : List UInt8 → List UInt8) (v : Value) : String :=
  Sigv4.hex (sha256 (Sigv4.bytes (String.ofList (Serde.Json.text v))))

theorem hexDigest_injective {sha256 : List UInt8 → List UInt8}
    (hsha : Function.Injective sha256) : Function.Injective (hexDigest sha256) := by
  intro v w h
  have hbytes := hsha (hex_injective h)
  exact Serde.Json.text_injective (String.ofList_injective (Form.utf8_injective hbytes))

/-- The entries of a map, in any order, are a reordering of its object. -/
theorem reorders_mapValue {m : HashMap String String} {entries : List (String × String)}
    (h : entries.Perm m.toList) :
    Reorders (.obj (entries.map fun kv => (kv.1, .str kv.2))) (mapValue m) := by
  have hkeys : ((m.toList.map fun kv => (kv.1, Value.str kv.2)).map (·.1)).Nodup := by
    have hnodup : m.keys.Nodup := Std.ExtTreeMap.nodup_keys
    rw [← Std.ExtTreeMap.map_fst_toList_eq_keys] at hnodup
    rwa [List.map_map]
  exact (Reorders.of_perm (h.map _).symm hkeys []).symm.trans
    (Reorders.of_perm (Serde.Value.foldr_insertField_perm hkeys).symm hkeys [])

/-- **The hash identifies the declaration**: of whatever reorderings of the serialized declarations
the hashes are taken, they are equal exactly when the declarations are. -/
theorem desired_hash_iff {sha256 : List UInt8 → List UInt8} (hsha : Function.Injective sha256) :
    (∀ (x y : Partition) (v w : Value), Reorders x.toValue v → Reorders y.toValue w →
      (computeDesiredHash (hexDigest sha256) v = computeDesiredHash (hexDigest sha256) w ↔
        x = y)) ∧
    (∀ (x y : Enclave) (v w : Value), Reorders x.toValue v → Reorders y.toValue w →
      (computeDesiredHash (hexDigest sha256) v = computeDesiredHash (hexDigest sha256) w ↔
        x = y)) ∧
    (∀ (m : HashMap String String) (entries : List (String × String)), entries.Perm m.toList →
      Reorders (mapValue m) (.obj (entries.map fun kv => (kv.1, .str kv.2)))) ∧
    ∀ v : Value, Distinct v → sortKeys (sortKeys v) = sortKeys v ∧ Reorders v (sortKeys v) := by
  have hdigest := hexDigest_injective hsha
  refine ⟨fun x y v w hv hw => ?_, fun x y v w hv hw => ?_,
    fun m entries h => (reorders_mapValue h).symm,
    fun v hv => ⟨Serde.Value.sortKeys_sortKeys hv, Serde.Value.reorders_sortKeys hv⟩⟩
  · rw [computeDesiredHash, computeDesiredHash, hdigest.eq_iff, ← hv.sortKeys_eq, ← hw.sortKeys_eq]
    exact ⟨Partition.toValue_injective, fun h => h ▸ rfl⟩
  · rw [computeDesiredHash, computeDesiredHash, hdigest.eq_iff, ← hv.sortKeys_eq, ← hw.sortKeys_eq]
    exact ⟨Enclave.toValue_injective, fun h => h ▸ rfl⟩

/-- A partition in this directory. -/
def storedIn (dir : String) : Partition :=
  ⟨⟨"db"⟩, "db", none, [], [], ∅, [], .terraform ⟨none, none, dir⟩⟩

/-- A partition that moves has a new hash. -/
theorem desired_hash_iff_moved :
    ¬ computeDesiredHash (hexDigest id) (storedIn "/a").toValue =
      computeDesiredHash (hexDigest id) (storedIn "/b").toValue := by
  rw [(desired_hash_iff Function.injective_id).1 _ _ _ _ (.refl _) (.refl _)]
  exact fun h => absurd (congrArg Partition.backend h) (by decide)

end Nclav
