import Nclav.Store.Encoding

/-!
# Stored records

What a store has written it reads back, and a record with the old string for a backend is read as
one with the default backend.
-/

namespace Nclav

open Serde (Value)
open Serde.Value

/-! ## Declarations -/

theorem optValue_eq {α : Type} (f : α → Value) (o : Option α) : optValue f o = ofOption f o := by
  cases o <;> rfl

theorem CloudTarget.decode_toString (c : CloudTarget) :
    CloudTarget.decode (.str (toString c)) = some c := by
  cases c <;> decide

theorem ExportType.decode_toString (t : ExportType) :
    ExportType.decode (.str (toString t)) = some t := by
  cases t <;> decide

theorem ProducesType.decode_toString (t : ProducesType) :
    ProducesType.decode (.str (toString t)) = some t := by
  cases t <;> decide

theorem AuthType.decode_toValue (a : AuthType) : AuthType.decode a.toValue = some a := by
  cases a <;> decide

theorem ExportTarget.decode_toValue (t : ExportTarget) :
    ExportTarget.decode t.toValue = some t := by
  cases t <;> rfl

theorem readPort_toNat (p : UInt16) :
    ((readInt 0 65535 (.num p.toNat)).map fun n => UInt16.ofNat n.toNat) = some p := by
  have hbounds : (0 : Int) ≤ p.toNat ∧ (p.toNat : Int) ≤ 65535 := by
    have := p.toNat_lt
    omega
  rw [readInt_num hbounds, Option.map_some, Int.toNat_natCast, UInt16.ofNat_toNat]

/-- The fields of an object are found by their names. -/
theorem TerraformConfig.decode_toValue (cfg : TerraformConfig) :
    TerraformConfig.decode cfg.toValue = some cfg := by
  simp [TerraformConfig.decode, TerraformConfig.toValue, optValue_eq, lookup_cons_eq_ite]

theorem PartitionBackend.decode_toValue (backend : PartitionBackend) :
    PartitionBackend.decode backend.toValue = some backend := by
  cases backend with
  | terraform cfg =>
    show (TerraformConfig.decode cfg.toValue).map PartitionBackend.terraform = _
    rw [TerraformConfig.decode_toValue, Option.map_some]
  | openTofu cfg =>
    show (TerraformConfig.decode cfg.toValue).map PartitionBackend.openTofu = _
    rw [TerraformConfig.decode_toValue, Option.map_some]

theorem Import.decode_toValue (im : Import) : Import.decode im.toValue = some im := by
  simp [Import.decode, Import.toValue, lookup_cons_eq_ite]

theorem Export.decode_toValue (ex : Export) : Export.decode ex.toValue = some ex := by
  have hport : readOpt (fun v => (readInt 0 65535 v).map fun n => UInt16.ofNat n.toNat)
      (some (ofOption (fun p : UInt16 => .num p.toNat) ex.port)) = some ex.port :=
    readOpt_ofOption fun p _ => ⟨nofun, readPort_toNat p⟩
  simp [Export.decode, Export.toValue, optValue_eq, lookup_cons_eq_ite, hport,
    ExportType.decode_toString, ExportTarget.decode_toValue, AuthType.decode_toValue]

theorem readEntries_mapValue (m : HashMap String String) :
    readEntries (fun k => k) readString (mapValue m) = some m := by
  have hread : readEntries (fun k => k) readString (ofMap (fun k => k) (fun _ v => .str v) m) =
      some (m.map fun _ v => v) :=
    readEntries_ofMap (fun a b h => compareOfLessAndEq_eq_lt.mp h) (fun _ => rfl) fun _ _ _ => rfl
  rw [map_id_eq] at hread
  exact hread

theorem readSeq_str (ss : List String) : readSeq readString (.arr (ss.map .str)) = some ss :=
  readSeq_self readString_str

theorem readSeq_imports (ims : List Import) :
    readSeq Import.decode (.arr (ims.map Import.toValue)) = some ims :=
  readSeq_self Import.decode_toValue

theorem readSeq_exports (exs : List Export) :
    readSeq Export.decode (.arr (exs.map Export.toValue)) = some exs :=
  readSeq_self Export.decode_toValue

/-- A partition with its backend, or with the old string in its place. -/
theorem Partition.decode_encode (legacy : Bool) (part : Partition) :
    Partition.decode (part.encode legacy) = some (part.migrate legacy) := by
  have hproduces : readOpt ProducesType.decode
      (some (ofOption (fun p => .str (toString p)) part.produces)) = some part.produces :=
    readOpt_ofOption fun p _ => ⟨nofun, ProducesType.decode_toString p⟩
  have hbackend : PartitionBackend.decode
      (if legacy then .str "Managed" else part.backend.toValue) =
        some (part.migrate legacy).backend := by
    cases legacy with
    | false => exact PartitionBackend.decode_toValue part.backend
    | true => rfl
  have hmigrate : part.migrate legacy = { part with backend := (part.migrate legacy).backend } := by
    cases legacy with
    | false => rfl
    | true => rfl
  rw [hmigrate]
  simp [Partition.decode, Partition.encode, optValue_eq, lookup_cons_eq_ite, hproduces, hbackend,
    readSeq_imports, readSeq_exports, readEntries_mapValue, readSeq_str]

theorem NetworkConfig.decode_toValue (n : NetworkConfig) :
    NetworkConfig.decode n.toValue = some n := by
  simp [NetworkConfig.decode, NetworkConfig.toValue, optValue_eq, lookup_cons_eq_ite, readSeq_str]

theorem DnsConfig.decode_toValue (d : DnsConfig) : DnsConfig.decode d.toValue = some d := by
  simp [DnsConfig.decode, DnsConfig.toValue, optValue_eq]

theorem readOpt_cloud (o : Option CloudTarget) : readOpt CloudTarget.decode
    (some (ofOption (fun c => .str (toString c)) o)) = some o :=
  readOpt_ofOption fun c _ => ⟨nofun, CloudTarget.decode_toString c⟩

theorem Enclave.decode_encode (legacy : Nat → Bool) (enc : Enclave) :
    Enclave.decode (enc.encode legacy) = some (enc.migrate legacy) := by
  have hnetwork : readOpt NetworkConfig.decode
      (some (ofOption NetworkConfig.toValue enc.network)) = some enc.network :=
    readOpt_ofOption fun n _ => ⟨nofun, NetworkConfig.decode_toValue n⟩
  have hdns : readOpt DnsConfig.decode (some (ofOption DnsConfig.toValue enc.dns)) = some enc.dns :=
    readOpt_ofOption fun d _ => ⟨nofun, DnsConfig.decode_toValue d⟩
  have hpartitions : readSeq Partition.decode
      (.arr (enc.partitions.zipIdx.map fun p => p.1.encode (legacy p.2))) =
        some (enc.migrate legacy).partitions :=
    readSeq_map fun p _ => Partition.decode_encode (legacy p.2) p.1
  have hmigrate : enc.migrate legacy = { enc with partitions := (enc.migrate legacy).partitions } :=
    rfl
  rw [hmigrate]
  simp [Enclave.decode, Enclave.encode, optValue_eq, lookup_cons_eq_ite, readOpt_cloud, hnetwork,
    hdns, readSeq_imports, readSeq_exports, hpartitions]

/-! ## States -/

theorem ProvisioningStatus.decode_encode (status : ProvisioningStatus) :
    ProvisioningStatus.decode status.encode = some status := by
  cases status <;> decide

section

variable (F : Formats)

theorem readTime_ofTime (t : DateTime) : F.readTime (F.ofTime t) = some t :=
  F.parseTime_time t

theorem readUuid_ofUuid (u : Uuid) : F.readUuid (F.ofUuid u) = some u :=
  F.parseUuid_uuid u

theorem readOpt_time (o : Option DateTime) :
    readOpt F.readTime (some (ofOption F.ofTime o)) = some o :=
  readOpt_ofOption fun t _ => ⟨nofun, readTime_ofTime F t⟩

theorem readOpt_uuid (o : Option Uuid) :
    readOpt F.readUuid (some (ofOption F.ofUuid o)) = some o :=
  readOpt_ofOption fun u _ => ⟨nofun, readUuid_ofUuid F u⟩

theorem ResourceError.decode_encode (e : ResourceError) :
    ResourceError.decode F (e.encode F) = some e := by
  simp [ResourceError.decode, ResourceError.encode, lookup_cons_eq_ite, readTime_ofTime]

theorem ResourceMeta.decode_encode {m : ResourceMeta} (h : m.generation < 2 ^ 64) :
    ResourceMeta.decode F (m.encode F) = some m := by
  have herror : readOpt (ResourceError.decode F)
      (some (ofOption (ResourceError.encode F) m.lastError)) = some m.lastError :=
    readOpt_ofOption fun e _ => ⟨nofun, ResourceError.decode_encode F e⟩
  simp [ResourceMeta.decode, ResourceMeta.encode, optValue_eq, lookup_cons_eq_ite,
    ProvisioningStatus.decode_encode, readOpt_time, herror, readU64_num h]

/-- A handle is read back unless it is null. -/
theorem readOpt_handle {o : Option Handle} (h : o ≠ some .null) :
    readOpt some (some (ofOption id o)) = some o :=
  readOpt_ofOption fun a ha => ⟨fun hnull => h (by rw [ha]; exact congrArg some hnull), rfl⟩

/-! ### What can be stored -/

/-- The handle is not null, and the counter is one of 64 bits. -/
structure PartitionState.Storable (ps : PartitionState) : Prop where
  handle : ps.partitionHandle ≠ some .null
  generation : ps.meta_.generation < 2 ^ 64

structure EnclaveState.Storable (s : EnclaveState) : Prop where
  handle : s.enclaveHandle ≠ some .null
  generation : s.meta_.generation < 2 ^ 64
  partitions : ∀ (pid : PartitionId) (ps : PartitionState),
    s.partitions[pid]? = some ps → ps.Storable

/-- The exit code is one of 32 bits. -/
def IacRun.Storable (run : IacRun) : Prop :=
  ∀ code, run.exitCode = some code → -2 ^ 31 ≤ code ∧ code ≤ 2 ^ 31 - 1

/-- A number of changes is one of 64 bits. -/
def AuditEvent.Storable : AuditEvent → Prop
  | .reconcileCompleted _ _ changes _ => changes < 2 ^ 64
  | _ => True

theorem PartitionState.decode_encode (legacy : Bool) {ps : PartitionState} (h : ps.Storable) :
    PartitionState.decode F (ps.encode F legacy) = some (ps.migrate legacy) := by
  have hmigrate : ps.migrate legacy = { ps with desired := ps.desired.migrate legacy } := rfl
  rw [hmigrate]
  simp [PartitionState.decode, PartitionState.encode, optValue_eq, lookup_cons_eq_ite,
    Partition.decode_encode, readOpt_handle h.handle, readEntries_mapValue,
    ResourceMeta.decode_encode F h.generation]

theorem readEntries_handles (m : HashMap String Handle) :
    readEntries (fun k => k) some (ofMap (fun k => k) (fun _ handle => handle) m) = some m := by
  have hread : readEntries (fun k => k) some (ofMap (fun k => k) (fun _ handle => handle) m) =
      some (m.map fun _ handle => handle) :=
    readEntries_ofMap (fun a b h => compareOfLessAndEq_eq_lt.mp h) (fun _ => rfl) fun _ _ _ => rfl
  rw [map_id_eq] at hread
  exact hread

theorem EnclaveState.decode_encode (listed : Nat → Bool) (stored : PartitionId → Bool)
    {s : EnclaveState} (h : s.Storable) :
    EnclaveState.decode F (s.encode F listed stored) = some (s.migrate listed stored) := by
  have hpartitions : readEntries PartitionId.mk (PartitionState.decode F)
      (ofMap PartitionId.val (fun pid ps => ps.encode F (stored pid)) s.partitions) =
        some (s.migrate listed stored).partitions :=
    readEntries_ofMap (fun a b h => compareOfLessAndEq_eq_lt.mp h) (fun _ => rfl)
      fun pid ps hps => PartitionState.decode_encode F (stored pid) (h.partitions pid ps hps)
  have hmigrate : s.migrate listed stored = { s with
      desired := s.desired.migrate listed
      partitions := (s.migrate listed stored).partitions } := rfl
  rw [hmigrate]
  simp [EnclaveState.decode, EnclaveState.encode, optValue_eq, lookup_cons_eq_ite,
    Enclave.decode_encode, readOpt_handle h.handle, hpartitions, readEntries_handles, readOpt_cloud,
    ResourceMeta.decode_encode F h.generation]

/-! ## Runs and events -/

theorem IacOperation.decode_encode (op : IacOperation) :
    IacOperation.decode op.encode = some op := by
  cases op <;> decide

theorem IacRunStatus.decode_encode (status : IacRunStatus) :
    IacRunStatus.decode status.encode = some status := by
  cases status <;> decide

theorem IacRun.decode_encode {run : IacRun} (h : run.Storable) :
    IacRun.decode F (run.encode F) = some run := by
  have hcode : readOpt readI32 (some (ofOption .num run.exitCode)) = some run.exitCode :=
    readOpt_ofOption fun code hcode => ⟨nofun, readI32_num (h code hcode)⟩
  simp [IacRun.decode, IacRun.encode, optValue_eq, lookup_cons_eq_ite, readUuid_ofUuid,
    readTime_ofTime, readOpt_time, readOpt_uuid, hcode, IacOperation.decode_encode,
    IacRunStatus.decode_encode]

theorem AuditEvent.decode_encode {event : AuditEvent} (h : event.Storable) :
    AuditEvent.decode F (event.encode F) = some event := by
  cases event with
  | reconcileCompleted id at_ changes dryRun =>
    simp [AuditEvent.decode, AuditEvent.encode, lookup_cons_eq_ite, readUuid_ofUuid,
      readTime_ofTime, readU64_num (show changes < 2 ^ 64 from h)]
  | _ =>
    simp [AuditEvent.decode, AuditEvent.encode, lookup_cons_eq_ite, readUuid_ofUuid,
      readTime_ofTime]

end

/-! ## No old string -/

theorem Enclave.migrate_none (enc : Enclave) : enc.migrate (fun _ => false) = enc := by
  have hpartitions : enc.partitions.zipIdx.map (fun p => p.1.migrate false) = enc.partitions :=
    List.zipIdx_map_fst 0 enc.partitions
  rw [Enclave.migrate, hpartitions]

theorem EnclaveState.migrate_none (s : EnclaveState) :
    s.migrate (fun _ => false) (fun _ => false) = s := by
  have hpartitions : s.partitions.map (fun _ ps => ps.migrate false) = s.partitions :=
    map_id_eq s.partitions
  rw [EnclaveState.migrate, Enclave.migrate_none, hpartitions]

/-- **Stored records survive.** What was written is read back, and where the old string stands for
backends the same record is read with the default in their places. -/
theorem records_survive (F : Formats) {s : EnclaveState} {ps : PartitionState} {run : IacRun}
    {event : AuditEvent} (hs : s.Storable) (hps : ps.Storable) (hrun : run.Storable)
    (hevent : event.Storable) :
    EnclaveState.decode F (s.encode F (fun _ => false) (fun _ => false)) = some s ∧
    PartitionState.decode F (ps.encode F false) = some ps ∧
    IacRun.decode F (run.encode F) = some run ∧
    AuditEvent.decode F (event.encode F) = some event ∧
    (∀ listed stored, EnclaveState.decode F (s.encode F listed stored) =
      some (s.migrate listed stored)) ∧
    ∀ legacy, PartitionState.decode F (ps.encode F legacy) = some (ps.migrate legacy) := by
  refine ⟨?_, PartitionState.decode_encode F false hps, IacRun.decode_encode F hrun,
    AuditEvent.decode_encode F hevent, fun listed stored =>
      EnclaveState.decode_encode F listed stored hs, fun legacy =>
      PartitionState.decode_encode F legacy hps⟩
  have hread := EnclaveState.decode_encode F (fun _ => false) (fun _ => false) hs
  rw [EnclaveState.migrate_none] at hread
  exact hread

/-! ### Records of one partition -/

/-- The epoch and the nil id in their usual texts, and others in unary. -/
def someFormats : Formats where
  time t := match t with
    | .ofNat 0 => "1970-01-01T00:00:00Z"
    | .ofNat n => String.ofList ('+' :: List.replicate n '0')
    | .negSucc n => String.ofList ('-' :: List.replicate n '0')
  parseTime s := match s.toList with
    | '+' :: cs => some cs.length
    | '-' :: cs => some (Int.negSucc cs.length)
    | _ => if s = "1970-01-01T00:00:00Z" then some 0 else none
  uuid u := match u with
    | 0 => "00000000-0000-0000-0000-000000000000"
    | n => String.ofList ('+' :: List.replicate n '0')
  parseUuid s := match s.toList with
    | '+' :: cs => some cs.length
    | _ => if s = "00000000-0000-0000-0000-000000000000" then some 0 else none
  parseTime_time t := by
    rcases t with (_ | n) | n
    · rfl
    · have hlength : (List.replicate (n + 1) '0').length = n + 1 := List.length_replicate
      have htext : (String.ofList ('+' :: List.replicate (n + 1) '0')).toList =
          '+' :: List.replicate (n + 1) '0' := String.toList_ofList
      show (match (String.ofList ('+' :: List.replicate (n + 1) '0')).toList with
        | '+' :: cs => some (cs.length : Int)
        | '-' :: cs => some (Int.negSucc cs.length)
        | _ => if String.ofList ('+' :: List.replicate (n + 1) '0') = "1970-01-01T00:00:00Z" then
            some 0 else none) = _
      rw [htext]
      exact congrArg some (congrArg Int.ofNat hlength)
    · dsimp only
      rw [String.toList_ofList]
      exact congrArg some (congrArg Int.negSucc List.length_replicate)
  parseUuid_uuid u := by
    rcases u with _ | n
    · rfl
    · simp

def storedPartition : PartitionState where
  desired :=
    { id := ⟨"db"⟩
      name := "Database"
      produces := some .tcp
      imports := [⟨⟨"net"⟩, "dns", "dns"⟩]
      exports := [⟨"sql", ⟨"db"⟩, .tcp, .enclave ⟨"app"⟩, .native, none, some 5432⟩]
      inputs := (∅ : HashMap String String).insert "size" "small"
      declaredOutputs := ["hostname", "port"]
      backend := .openTofu ⟨some "tofu", none, "/tmp"⟩ }
  partitionHandle := some (.object [("backend", .str "tofu")])
  resolvedOutputs := (∅ : HashMap String String).insert "hostname" "h"
  meta_ := ⟨.error, some 0, none, none, some ⟨"timeout", 0⟩, some "ab", 3⟩

def storedEnclave : EnclaveState where
  desired := ⟨⟨"data"⟩, "Data", some .gcp, "eu", none, some ⟨none, ["10.0.0.0/24"]⟩, some ⟨none⟩, [], [],
    [storedPartition.desired]⟩
  enclaveHandle := some (.object [("project_id", .str "data")])
  partitions := (∅ : HashMap PartitionId PartitionState).insert ⟨"db"⟩ storedPartition
  exportHandles := (∅ : HashMap String Handle).insert "sql" (.object [("port", .num 5432)])
  importHandles := ∅
  meta_ := .default
  resolvedCloud := some .gcp

def storedRun : IacRun :=
  ⟨0, ⟨"data"⟩, ⟨"db"⟩, .update, 0, some 0, .failed, some (-1), "Error\n", none⟩

/-- Its backend is the default one after the old string. -/
theorem records_survive_one :
    EnclaveState.decode someFormats (storedEnclave.encode someFormats (fun _ => true) fun _ => false) =
      some (storedEnclave.migrate (fun _ => true) fun _ => false) ∧
    IacRun.decode someFormats (storedRun.encode someFormats) = some storedRun := by
  have hpartition : storedPartition.Storable := ⟨by decide, by decide⟩
  have henclave : storedEnclave.Storable := by
    refine ⟨by decide, by decide, fun pid ps hps => ?_⟩
    rw [storedEnclave, HashMap.get?_insert] at hps
    split at hps
    · obtain rfl := Option.some.inj hps
      exact hpartition
    · cases hps
  have hrun : storedRun.Storable := by
    intro code hcode
    obtain rfl : -1 = code := Option.some.inj hcode
    decide
  have hevent : (AuditEvent.reconcileCompleted 0 0 2 false).Storable := by
    show 2 < 2 ^ 64
    decide
  have hread := records_survive someFormats henclave hpartition hrun hevent
  exact ⟨hread.2.2.2.2.1 _ _, hread.2.2.1⟩

end Nclav
