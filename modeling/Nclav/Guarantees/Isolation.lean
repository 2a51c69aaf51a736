import Nclav.Effect.Both
import Nclav.Guarantees.AliasScope

/-!
# A failing enclave and the others

Two runs from one store, on one list, with the same answers but for the provisioning of one
enclave, leave the same records, up to timestamps, of every enclave that imports nothing from it
(`undisturbed_of_runs`). The visit of an enclave reads the snapshot and its own record; wiring reads
its own record again and the export handles of the enclaves it imports from, which no later pass
changes.
-/

namespace Nclav

open Effect Prog

/-! ## Up to timestamps -/

/-- Without timestamps; which of them are set remains. -/
def ResourceMeta.timeless (m : ResourceMeta) : ResourceMeta :=
  { m with
    createdAt := m.createdAt.map fun _ => 0
    updatedAt := m.updatedAt.map fun _ => 0
    lastSeenAt := m.lastSeenAt.map fun _ => 0
    lastError := m.lastError.map fun e => { e with occurredAt := 0 } }

def PartitionState.timeless (ps : PartitionState) : PartitionState :=
  { ps with meta_ := ps.meta_.timeless }

def EnclaveState.timeless (s : EnclaveState) : EnclaveState :=
  { s with
    partitions := s.partitions.map fun _ ps => ps.timeless
    meta_ := s.meta_.timeless }

section

variable {m m' : ResourceMeta} {ps ps' : PartitionState} {s s' : EnclaveState}

theorem ResourceMeta.timeless_markActive (h : m.timeless = m'.timeless) (now now' : DateTime)
    (hash : String) : (m.markActive now hash).timeless = (m'.markActive now' hash).timeless := by
  have hcreated := congrArg ResourceMeta.createdAt h
  have hseen := congrArg ResourceMeta.lastSeenAt h
  have hgeneration := congrArg ResourceMeta.generation h
  simp only [timeless] at hcreated hseen hgeneration
  simp only [timeless, markActive, hseen, hgeneration, Option.map_some, Option.map_none,
    ResourceMeta.mk.injEq, true_and, and_true]
  rcases hm : m.createdAt with _ | c
  · rcases hm' : m'.createdAt with _ | c'
    · rfl
    · rw [hm, hm'] at hcreated
      cases hcreated
  · rcases hm' : m'.createdAt with _ | c'
    · rw [hm, hm'] at hcreated
      cases hcreated
    · rfl

theorem ResourceMeta.timeless_markError (h : m.timeless = m'.timeless) (now now' : DateTime)
    (msg : String) : (m.markError now msg).timeless = (m'.markError now' msg).timeless := by
  have hcreated := congrArg ResourceMeta.createdAt h
  have hupdated := congrArg ResourceMeta.updatedAt h
  have hseen := congrArg ResourceMeta.lastSeenAt h
  have hhash := congrArg ResourceMeta.desiredHash h
  have hgeneration := congrArg ResourceMeta.generation h
  simp only [timeless] at hcreated hupdated hseen hhash hgeneration
  simp only [timeless, markError, hcreated, hupdated, hseen, hhash, hgeneration, Option.map_some]

theorem PartitionState.fields_of_timeless (h : ps.timeless = ps'.timeless) :
    ps.desired = ps'.desired ∧ ps.partitionHandle = ps'.partitionHandle ∧
      ps.resolvedOutputs = ps'.resolvedOutputs ∧ ps.meta_.timeless = ps'.meta_.timeless := by
  simpa only [timeless, PartitionState.mk.injEq] using h

/-- Records that differ in timestamps only have the same partitions up to timestamps. -/
theorem EnclaveState.timeless_partitions (h : s.timeless = s'.timeless) (pid : PartitionId) :
    (s.partitions[pid]?).map (·.timeless) = (s'.partitions[pid]?).map (·.timeless) := by
  have hpartitions := congrArg (fun s : EnclaveState => s.partitions[pid]?) h
  simpa [timeless] using hpartitions

theorem HashMap.map_insert {K V V' : Type} [Ord K] [Std.TransOrd K] [Std.LawfulEqOrd K]
    [DecidableEq K] (m : HashMap K V) (k : K) (v : V) (f : V → V') :
    (m.insert k v).map (fun _ => f) = (m.map fun _ => f).insert k (f v) := by
  refine Std.ExtTreeMap.ext_getElem? fun a => ?_
  rw [Std.ExtTreeMap.getElem?_map, HashMap.get?_insert, HashMap.get?_insert,
    Std.ExtTreeMap.getElem?_map]
  split
  · rfl
  · rfl

theorem EnclaveState.timeless_insert (h : s.timeless = s'.timeless) (pid : PartitionId)
    (hps : ps.timeless = ps'.timeless) :
    EnclaveState.timeless { s with partitions := s.partitions.insert pid ps } =
      EnclaveState.timeless { s' with partitions := s'.partitions.insert pid ps' } := by
  simp only [timeless, EnclaveState.mk.injEq] at h ⊢
  obtain ⟨hdesired, hhandle, hpartitions, hrest⟩ := h
  refine ⟨hdesired, hhandle, ?_, hrest⟩
  rw [HashMap.map_insert, HashMap.map_insert, hpartitions, hps]

/-- What records that differ in timestamps only share. -/
structure EnclaveState.Alike (s s' : EnclaveState) : Prop where
  desired : s.desired = s'.desired
  enclaveHandle : s.enclaveHandle = s'.enclaveHandle
  exportHandles : s.exportHandles = s'.exportHandles
  importHandles : s.importHandles = s'.importHandles
  resolvedCloud : s.resolvedCloud = s'.resolvedCloud

theorem EnclaveState.alike_of_timeless (h : s.timeless = s'.timeless) : s.Alike s' := by
  simp only [timeless, EnclaveState.mk.injEq] at h
  obtain ⟨hdesired, hhandle, -, hexports, himports, -, hcloud⟩ := h
  exact ⟨hdesired, hhandle, hexports, himports, hcloud⟩

theorem EnclaveState.timeless_handle (h : s.timeless = s'.timeless) (handle : Option Handle)
    (hm : m.timeless = m'.timeless) :
    EnclaveState.timeless { s with enclaveHandle := handle, meta_ := m } =
      EnclaveState.timeless { s' with enclaveHandle := handle, meta_ := m' } := by
  simp only [timeless, EnclaveState.mk.injEq] at h ⊢
  exact ⟨h.1, trivial, h.2.2.1, h.2.2.2.1, h.2.2.2.2.1, hm, h.2.2.2.2.2.2⟩

theorem EnclaveState.timeless_meta (h : s.timeless = s'.timeless)
    (hm : m.timeless = m'.timeless) :
    EnclaveState.timeless { s with meta_ := m } = EnclaveState.timeless { s' with meta_ := m' } := by
  simp only [timeless, EnclaveState.mk.injEq] at h ⊢
  exact ⟨h.1, h.2.1, h.2.2.1, h.2.2.2.1, h.2.2.2.2.1, hm, h.2.2.2.2.2.2⟩

theorem EnclaveState.timeless_exports (h : s.timeless = s'.timeless)
    (exports : HashMap String Handle) :
    EnclaveState.timeless { s with exportHandles := exports } =
      EnclaveState.timeless { s' with exportHandles := exports } := by
  simp only [timeless, EnclaveState.mk.injEq] at h ⊢
  exact ⟨h.1, h.2.1, h.2.2.1, trivial, h.2.2.2.2⟩

theorem EnclaveState.timeless_imports (h : s.timeless = s'.timeless)
    (imports : HashMap String Handle) :
    EnclaveState.timeless { s with importHandles := imports } =
      EnclaveState.timeless { s' with importHandles := imports } := by
  simp only [timeless, EnclaveState.mk.injEq] at h ⊢
  exact ⟨h.1, h.2.1, h.2.2.1, h.2.2.2.1, trivial, h.2.2.2.2.2⟩

/-- Partitions of such records are both missing, or differ in timestamps only. -/
theorem EnclaveState.timeless_cases (h : s.timeless = s'.timeless) (pid : PartitionId) :
    (s.partitions[pid]? = none ∧ s'.partitions[pid]? = none) ∨
      ∃ ps ps', s.partitions[pid]? = some ps ∧ s'.partitions[pid]? = some ps' ∧
        ps.timeless = ps'.timeless := by
  have hpartition := timeless_partitions h pid
  rcases hs : s.partitions[pid]? with _ | ps
  · rw [hs] at hpartition
    exact .inl ⟨rfl, Option.map_eq_none_iff.mp hpartition.symm⟩
  · rw [hs] at hpartition
    obtain ⟨ps', hps', heq⟩ := Option.map_eq_some_iff.mp hpartition.symm
    exact .inr ⟨ps, ps', rfl, hps', heq.symm⟩

theorem EnclaveState.timeless_updatePartition (h : s.timeless = s'.timeless) (part : Partition)
    {f f' : PartitionState → PartitionState}
    (hf : ∀ ps ps', ps.timeless = ps'.timeless → (f ps).timeless = (f' ps').timeless) :
    (s.updatePartition part f).timeless = (s'.updatePartition part f').timeless := by
  refine timeless_insert h part.id (hf _ _ ?_)
  rcases timeless_cases h part.id with ⟨hs, hs'⟩ | ⟨ps, ps', hs, hs', hps⟩
  · rw [hs, hs']
  · rw [hs, hs']
    exact hps

theorem EnclaveState.timeless_withInFlight (h : s.timeless = s'.timeless) (part : Partition) :
    (s.withInFlight part).timeless = (s'.withInFlight part).timeless ∧
      (PartitionState.inFlight s.partitions[part.id]? part).partitionHandle =
        (PartitionState.inFlight s'.partitions[part.id]? part).partitionHandle := by
  rw [withInFlight, withInFlight]
  rcases timeless_cases h part.id with ⟨hs, hs'⟩ | ⟨ps, ps', hs, hs', hps⟩
  · rw [hs, hs']
    exact ⟨timeless_insert h part.id rfl, rfl⟩
  · rw [hs, hs']
    obtain ⟨-, hhandle, houtputs, hm⟩ := PartitionState.fields_of_timeless hps
    refine ⟨timeless_insert h part.id ?_, hhandle⟩
    simp only [PartitionState.inFlight, PartitionState.timeless, Option.getD_some, hhandle,
      houtputs, PartitionState.mk.injEq, true_and]
    simp only [ResourceMeta.timeless, ResourceMeta.mk.injEq] at hm ⊢
    exact ⟨trivial, hm.2⟩

theorem EnclaveState.timeless_withApplied (h : s.timeless = s'.timeless) (run run' : Run)
    (hrun : run.host = run'.host) (part : Partition) (now now' : DateTime)
    (result : ProvisionResult) :
    (s.withApplied run part now result).timeless = (s'.withApplied run' part now' result).timeless := by
  refine timeless_updatePartition h part fun ps ps' hps => ?_
  obtain ⟨hdesired, -, -, hm⟩ := PartitionState.fields_of_timeless hps
  simp only [PartitionState.timeless, PartitionState.mk.injEq]
  rw [hrun]
  exact ⟨hdesired, trivial, trivial, ResourceMeta.timeless_markActive hm now now' _⟩

theorem EnclaveState.timeless_withFailed (h : s.timeless = s'.timeless) (part : Partition)
    (now now' : DateTime) (msg : String) :
    (s.withFailed part now msg).timeless = (s'.withFailed part now' msg).timeless := by
  refine timeless_updatePartition h part fun ps ps' hps => ?_
  obtain ⟨hdesired, hhandle, houtputs, hm⟩ := PartitionState.fields_of_timeless hps
  simp only [PartitionState.timeless, PartitionState.mk.injEq]
  exact ⟨hdesired, hhandle, houtputs, ResourceMeta.timeless_markError hm now now' msg⟩

theorem EnclaveState.timeless_saHandle (h : s.timeless = s'.timeless) (part : Partition)
    (sa : Handle) :
    (s.updatePartition part ({ · with partitionHandle := some sa })).timeless =
      (s'.updatePartition part ({ · with partitionHandle := some sa })).timeless := by
  refine timeless_updatePartition h part fun ps ps' hps => ?_
  obtain ⟨hdesired, -, houtputs, hm⟩ := PartitionState.fields_of_timeless hps
  simp only [PartitionState.timeless, PartitionState.mk.injEq]
  exact ⟨hdesired, trivial, houtputs, hm⟩

theorem EnclaveState.timeless_hashUnchanged (h : s.timeless = s'.timeless) (pid : PartitionId)
    (hash : String) : hashUnchanged ((s.partitions[pid]?).map (·.meta_)) hash =
      hashUnchanged ((s'.partitions[pid]?).map (·.meta_)) hash := by
  rcases timeless_cases h pid with ⟨hs, hs'⟩ | ⟨ps, ps', hs, hs', hps⟩
  · rw [hs, hs']
  · have hm := (PartitionState.fields_of_timeless hps).2.2.2
    have hhash : ps.meta_.timeless.desiredHash = ps'.meta_.timeless.desiredHash := by rw [hm]
    rw [hs, hs', Option.map_some, Option.map_some, hashUnchanged, hashUnchanged, Option.bind_some,
      Option.bind_some, show ps.meta_.desiredHash = ps'.meta_.desiredHash from hhash]

theorem EnclaveState.timeless_outputsFor (h : s.timeless = s'.timeless) (ex : Export) :
    s.outputsFor ex = s'.outputsFor ex := by
  rw [outputsFor, outputsFor]
  rcases timeless_cases h ex.targetPartition with ⟨hs, hs'⟩ | ⟨ps, ps', hs, hs', hps⟩
  · rw [hs, hs']
  · rw [hs, hs', Option.map_some, Option.map_some, (PartitionState.fields_of_timeless hps).2.2.1]

theorem EnclaveState.timeless_resolveInputs (h : s.timeless = s'.timeless) (driver : Driver)
    (enc : Enclave) (inputs : HashMap String String) :
    resolveInputs inputs s (s.contextVars driver enc) =
      resolveInputs inputs s' (s'.contextVars driver enc) := by
  have halike := alike_of_timeless h
  simp only [resolveInputs, resolveTemplate, contextVars, halike.importHandles,
    halike.enclaveHandle]

theorem EnclaveState.timeless_authEnv (h : s.timeless = s'.timeless) (driver : Driver)
    (enc : Enclave) (sa : Handle) :
    partitionAuthEnv driver enc s sa = partitionAuthEnv driver enc s' sa := by
  simp only [partitionAuthEnv, (alike_of_timeless h).enclaveHandle]

end

/-! ## The visit of an enclave, twice -/

/-- No call of the store fails; the order of a hash set is a function of the set, and drivers and
Terraform are functions of their arguments, but for the provisioning of the enclave `a`. Terraform
is not told the id of the run. -/
def answersBut (F : (c : Call) → Resp c) (a : EnclaveId) : (c : Call) → Resp c → Prop
  | .provisionEnclave driver enc existing, r =>
    enc.id ≠ a → r = F (.provisionEnclave driver enc existing)
  | .provisionPartition driver enc part inputs existing, r =>
    enc.id ≠ a → r = F (.provisionPartition driver enc part inputs existing)
  | .tfProvision tf enc part inputs authEnv _, r =>
    enc.id ≠ a → r = F (.tfProvision tf enc part inputs authEnv none)
  | .provisionExport driver enc ex outputs existing, r =>
    enc.id ≠ a → r = F (.provisionExport driver enc ex outputs existing)
  | .provisionImport driver importer im exportHandle existing, r =>
    importer.id ≠ a → r = F (.provisionImport driver importer im exportHandle existing)
  | .enclaveOrder ids, r => r = F (.enclaveOrder ids)
  | c, r => storeOk c r

/-- Both visits stand at the same record, up to timestamps, and have added the same errors. -/
structure SameVisit (enc : Enclave) (errors errors' : List ReportError)
    (acc acc' : EnclaveState × List ReportError) : Prop where
  record : acc.1.timeless = acc'.1.timeless
  desired : acc.1.desired = enc
  errors : ∃ new, acc.2 = errors ++ new ∧ acc'.2 = errors' ++ new

section

variable {F : (c : Call) → Resp c} {a : EnclaveId} {run : Run} {runId : Uuid} {driver : Driver}
  {enc : Enclave} {part : Partition} {errors errors' : List ReportError}
  {acc acc' : EnclaveState × List ReportError} {s s' : EnclaveState} {w v : World}

theorem SameVisit.step (h : SameVisit enc errors errors' acc acc')
    (hrecord : s.timeless = s'.timeless) (hdesired : s.desired = acc.1.desired)
    (new : List ReportError) :
    SameVisit enc errors errors' (s, acc.2 ++ new) (s', acc'.2 ++ new) := by
  obtain ⟨old, hold, hold'⟩ := h.errors
  exact ⟨hrecord, hdesired.trans h.desired, old ++ new, by rw [hold, List.append_assoc],
    by rw [hold', List.append_assoc]⟩

theorem both_tfProvision (hne : enc.id ≠ a) {tf : TerraformBackend} {host : Host}
    {inputs authEnv : HashMap String String} (id id' : Option Uuid) :
    Both (system (answersBut F a)) (fun r _ r' _ => r = r')
      (tf.provision host enc part inputs authEnv id) w
      (tf.provision host enc part inputs authEnv id') v := by
  have hcall : Both (system (answersBut F a)) (fun r _ r' _ => r = r')
      (perform (.tfProvision tf enc part inputs authEnv id)) w
      (perform (.tfProvision tf enc part inputs authEnv id')) v := by
    intro r _ hr r' _ hr'
    rcases hr with _ | ⟨r, hr, ⟨⟩⟩
    rcases hr' with _ | ⟨r', hr', ⟨⟩⟩
    exact (hr.2 hne).trans (hr'.2 hne).symm
  refine Both.bind hcall ?_
  rintro r _ _ _ rfl
  exact Both.ret rfl

theorem both_applyPartition (hne : enc.id ≠ a) {inputs : HashMap String String}
    {existing : Option Handle} (hs : s.timeless = s'.timeless) :
    Both (system (answersBut F a))
      (fun x _ y _ => x.1.timeless = y.1.timeless ∧ x.1.desired = s.desired ∧ x.2 = y.2)
      (applyPartition run driver enc part inputs existing s) w
      (applyPartition { run with runId } driver enc part inputs existing s') v := by
  refine Both.bind (P := fun r _ r' _ => r = r') (Both.perform fun r r' hr hr' => ?_) ?_
  · rw [hr.2 hne, hr'.2 hne]
  rintro (e | sa) w₁ _ v₁ rfl
  · exact Both.ret ⟨hs, rfl, rfl⟩
  have hstored := EnclaveState.timeless_saHandle hs part sa.handle
  refine Both.bind (Both.perform (P := fun _ _ _ _ => True) fun _ _ _ _ => trivial)
    fun _ w₂ _ v₂ _ => ?_
  rw [EnclaveState.timeless_authEnv hstored]
  refine Both.bind (both_tfProvision hne _ _) ?_
  rintro (e | result) w₃ _ v₃ rfl
  · exact Both.ret ⟨hstored, rfl, rfl⟩
  · exact Both.ret ⟨hstored, rfl, rfl⟩

theorem both_provisionPartition (hne : enc.id ≠ a) (h : SameVisit enc errors errors' acc acc') :
    BothE (system (answersBut F a)) (fun b _ b' _ => SameVisit enc errors errors' b b')
      (provisionPartition run driver enc acc part) w
      (provisionPartition { run with runId } driver enc acc' part) v := by
  obtain ⟨hflight, hhandle⟩ := EnclaveState.timeless_withInFlight h.record part
  simp only [provisionPartition]
  rw [EnclaveState.timeless_hashUnchanged h.record, EnclaveState.timeless_resolveInputs h.record]
  split
  · exact BothE.pure h
  refine BothE.bind (P := fun _ _ _ _ => True) (fun _ _ _ _ _ _ => trivial) fun _ w₁ _ v₁ _ => ?_
  rw [hhandle]
  refine BothE.bind (BothE.monadLift (both_applyPartition hne hflight)) ?_
  rintro ⟨s, outcome⟩ w₂ ⟨s', _⟩ v₂ ⟨hs, hdesired, rfl⟩
  refine BothE.bind (P := fun _ _ _ _ => True) (fun _ _ _ _ _ _ => trivial)
    fun now w₃ now' v₃ _ => ?_
  rcases outcome with e | result
  · refine BothE.bind (P := fun _ _ _ _ => True) (fun _ _ _ _ _ _ => trivial)
      fun _ w₄ _ v₄ _ => ?_
    exact BothE.pure (h.step (EnclaveState.timeless_withFailed hs part now now' e) hdesired _)
  · refine BothE.bind (P := fun _ _ _ _ => True) (fun _ _ _ _ _ _ => trivial)
      fun _ w₄ _ v₄ _ => ?_
    have hstep := h.step (EnclaveState.timeless_withApplied hs run { run with runId } rfl part now
      now' result) hdesired []
    rw [List.append_nil, List.append_nil] at hstep
    exact BothE.pure hstep

theorem both_provisionExport (hne : enc.id ≠ a) {x : Export}
    (h : SameVisit enc errors errors' acc acc') :
    BothE (system (answersBut F a)) (fun b _ b' _ => SameVisit enc errors errors' b b')
      (provisionExport driver enc acc x) w (provisionExport driver enc acc' x) v := by
  have houtputs := EnclaveState.timeless_outputsFor h.record x
  have hexports := (EnclaveState.alike_of_timeless h.record).exportHandles
  simp only [EnclaveState.outputsFor] at houtputs
  rw [provisionExport, provisionExport, houtputs, hexports]
  refine BothE.bind (P := fun r _ r' _ => r = r')
    (BothE.monadLift (Both.perform fun r r' hr hr' => ?_)) ?_
  · rw [hr.2 hne, hr'.2 hne]
  rintro (e | result) w₁ _ v₁ rfl
  · exact BothE.pure (h.step h.record rfl _)
  · refine BothE.bind (P := fun _ _ _ _ => True) (fun _ _ _ _ _ _ => trivial)
      fun _ w₂ _ v₂ _ => ?_
    have hstep := h.step (EnclaveState.timeless_exports h.record
      (acc'.1.exportHandles.insert x.name result.handle)) rfl []
    rw [List.append_nil, List.append_nil] at hstep
    exact BothE.pure hstep

/-- The record of an enclave, up to timestamps. -/
def World.record (w : World) (id : EnclaveId) : Option EnclaveState :=
  (w.store.get? id).map (·.timeless)

/-- Both ends have the same record of the enclave, and have added the same errors. -/
def SameEnd (id : EnclaveId) (errors errors' e : List ReportError) (w : World)
    (e' : List ReportError) (v : World) : Prop :=
  w.record id = v.record id ∧ ∃ new, e = errors ++ new ∧ e' = errors' ++ new

theorem record_upsert (hid : s.desired.id = enc.id) :
    (w.next (.upsertEnclave s) (.ok ())).record enc.id = some s.timeless := by
  rw [World.record, World.next_store, World.nextStore, Store.get?_upsert, if_pos hid.symm,
    Option.map_some]

theorem both_upsert {A : (c : Call) → Resp c → Prop} (hs : s.timeless = s'.timeless)
    (hid : s.desired.id = enc.id) :
    BothE (system A) (fun _ w' _ v' => w'.record enc.id = v'.record enc.id) (upsertEnclave s) w
      (upsertEnclave s') v := by
  refine (BothE.of_wpE (wpE_upsertEnclave_ok (Q := (· = w.next (.upsertEnclave s) (.ok ()))) rfl)
    (wpE_upsertEnclave_ok (Q := (· = v.next (.upsertEnclave s') (.ok ()))) rfl)).mono ?_
  rintro _ _ _ _ ⟨rfl, rfl⟩
  have hid' : s'.desired.id = enc.id := by
    rw [← (EnclaveState.alike_of_timeless hs).desired]
    exact hid
  rw [record_upsert hid, record_upsert hid', hs]

theorem both_provisionContents (hne : enc.id ≠ a)
    (hstart : SameVisit enc errors errors' (s, errors) (s', errors')) :
    BothE (system (answersBut F a)) (SameEnd enc.id errors errors')
      (provisionContents run driver enc s errors) w
      (provisionContents { run with runId } driver enc s' errors') v := by
  let J (b : EnclaveState × List ReportError) (_ : World) (b' : EnclaveState × List ReportError)
      (_ : World) : Prop := SameVisit enc errors errors' b b'
  rw [provisionContents, provisionContents]
  refine BothE.bind (BothE.foldlM J (fun _ _ _ _ part _ h => ?_) hstart) fun b w₁ b' v₁ hb => ?_
  · exact both_provisionPartition hne h
  refine BothE.bind (BothE.foldlM J (fun _ _ _ _ x _ h => ?_) hb) fun b w₂ b' v₂ hb => ?_
  · exact both_provisionExport hne h
  refine BothE.bind (P := fun _ _ _ _ => True) (fun _ _ _ _ _ _ => trivial) fun _ w₃ _ v₃ _ => ?_
  exact BothE.bind (both_upsert hb.record (by rw [hb.desired])) fun _ w₄ _ v₄ hrecord =>
    BothE.pure ⟨hrecord, hb.errors⟩

/-- **The visit of an enclave**: nothing in it depends on another. -/
theorem both_provisionEnclave (hne : enc.id ≠ a) (hrecord : w.record enc.id = v.record enc.id) :
    BothE (system (answersBut F a)) (SameEnd enc.id errors errors')
      (provisionEnclave run errors enc) w (provisionEnclave { run with runId } errors' enc) v := by
  simp only [provisionEnclave]
  split
  · exact BothE.pure ⟨hrecord, _, rfl, rfl⟩
  rename_i driver _
  refine BothE.bind (P := fun _ _ _ _ => True) (fun _ _ _ _ _ _ => trivial) fun _ w₁ _ v₁ _ => ?_
  refine BothE.bind (P := fun r _ r' _ => r = r')
    (BothE.monadLift (Both.perform fun r r' hr hr' => ?_)) ?_
  · exact (hr.2 hne).trans (hr'.2 hne).symm
  rintro result w₂ _ v₂ rfl
  refine BothE.bind (P := fun _ _ _ _ => True) (fun _ _ _ _ _ _ => trivial)
    fun now w₃ now' v₃ _ => ?_
  have hflight : (EnclaveState.inFlight run enc).timeless =
    (EnclaveState.inFlight { run with runId } enc).timeless := rfl
  rcases result with e | result
  · refine BothE.bind (both_upsert (EnclaveState.timeless_meta hflight
      (ResourceMeta.timeless_markError rfl now now' (toString e))) rfl) fun _ w₄ _ v₄ hrecord₄ => ?_
    refine BothE.bind (P := fun _ w' _ v' => w'.record enc.id = v'.record enc.id) ?_
      fun _ w₅ _ v₅ hrecord₅ => BothE.pure ⟨hrecord₅, _, rfl, rfl⟩
    refine (BothE.of_wpE (wpE_appendEvent_ok (Q := w₄.Quiet) fun _ h => h)
      (wpE_appendEvent_ok (Q := v₄.Quiet) fun _ h => h)).mono ?_
    rintro _ w' _ v' ⟨hw', hv'⟩
    rw [World.record, World.record, hw'.store, hv'.store]
    exact hrecord₄
  · have hstart : SameVisit enc errors errors'
        ({ EnclaveState.inFlight run enc with
          enclaveHandle := some result.handle
          meta_ := (EnclaveState.inFlight run enc).meta_.markActive now
            (run.host.enclaveHash enc) }, errors)
        ({ EnclaveState.inFlight { run with runId } enc with
          enclaveHandle := some result.handle
          meta_ := (EnclaveState.inFlight { run with runId } enc).meta_.markActive now'
            (run.host.enclaveHash enc) }, errors') :=
      ⟨EnclaveState.timeless_handle hflight _ (ResourceMeta.timeless_markActive rfl now now' _), rfl,
        [], (List.append_nil _).symm, (List.append_nil _).symm⟩
    exact both_provisionContents hne hstart

/-- Both loops over the imports of an enclave stand at the same record; the stores are as they were
before. -/
structure SameLoop (enc : Enclave) (errors errors' : List ReportError) (st st' : Store)
    (acc : WiringState) (w : World) (acc' : WiringState) (v : World) : Prop where
  record : acc.encState.timeless = acc'.encState.timeless
  id : acc.encState.desired.id = enc.id
  changed : acc.changed = acc'.changed
  errors : ∃ new, acc.errors = errors ++ new ∧ acc'.errors = errors' ++ new
  store : w.store = st
  store' : v.store = st'

theorem both_getEnclave {A : (c : Call) → Resp c → Prop} (id : EnclaveId) :
    BothE (system A) (fun s w' s' v' => (s = w.store.get? id ∧ s' = v.store.get? id) ∧
        w'.store = w.store ∧ v'.store = v.store)
      (storeCall (perform (.getEnclave id))) w (storeCall (perform (.getEnclave id))) v := by
  have hget : ∀ w : World, Prog.wpE (system A) (storeCall (perform (.getEnclave id)))
      (fun r w' => ∀ s, r = .ok s → s = w.store.get? id ∧ w'.store = w.store) w :=
    fun w => wpE_getEnclave_ok (Q := fun s w' => s = w.store.get? id ∧ w'.store = w.store)
      fun w' hw' => ⟨rfl, hw'.store⟩
  exact (BothE.of_wpE (hget w) (hget v)).mono fun _ _ _ _ h =>
    ⟨⟨h.1.1, h.2.1⟩, h.1.2, h.2.2⟩

theorem both_appendEvent {A : (c : Call) → Resp c → Prop} {event event' : Uuid → DateTime → AuditEvent} :
    BothE (system A) (fun _ w' _ v' => w'.store = w.store ∧ v'.store = v.store)
      (appendEvent event) w (appendEvent event') v :=
  BothE.of_wpE (wpE_appendEvent_ok (Q := fun w' => w'.store = w.store) fun _ h => h.store)
    (wpE_appendEvent_ok (Q := fun v' => v'.store = v.store) fun _ h => h.store)

theorem both_wireImport (hne : enc.id ≠ a) {im : Import} {st st' : Store}
    (hexports : ∀ name, st.exportHandle im.from_ name = st'.exportHandle im.from_ name)
    {acc acc' : WiringState} (h : SameLoop enc errors errors' st st' acc w acc' v) :
    BothE (system (answersBut F a)) (SameLoop enc errors errors' st st')
      (wireImport driver enc acc im) w (wireImport driver enc acc' im) v := by
  have himports := (EnclaveState.alike_of_timeless h.record).importHandles
  obtain ⟨old, hold, hold'⟩ := h.errors
  rw [wireImport, wireImport, himports]
  split
  · exact BothE.pure h
  refine BothE.bind (both_getEnclave im.from_) ?_
  rintro exporter w₁ exporter' v₁ ⟨⟨rfl, rfl⟩, hw₁, hv₁⟩
  have hhandle : (w.store.get? im.from_).bind (·.exportHandles[im.exportName]?) =
      (v.store.get? im.from_).bind (·.exportHandles[im.exportName]?) := by
    rw [h.store, h.store']
    exact hexports im.exportName
  rw [hhandle]
  split
  · exact BothE.pure ⟨h.record, h.id, h.changed, h.errors, hw₁.trans h.store, hv₁.trans h.store'⟩
  rename_i xh _
  refine BothE.bind (P := fun r w' r' v' => r = r' ∧ w'.store = w₁.store ∧ v'.store = v₁.store)
    (BothE.monadLift (Both.perform fun r r' hr hr' => ⟨?_, rfl, rfl⟩)) ?_
  · exact (hr.2 hne).trans (hr'.2 hne).symm
  rintro (e | result) w₂ _ v₂ ⟨rfl, hw₂, hv₂⟩
  · have herrors : ∀ new, ∃ new', acc.errors ++ new = errors ++ new' ∧
        acc'.errors ++ new = errors' ++ new' := fun new =>
      ⟨old ++ new, by rw [hold, List.append_assoc], by rw [hold', List.append_assoc]⟩
    exact BothE.pure ⟨h.record, h.id, h.changed, herrors _, hw₂.trans (hw₁.trans h.store),
      hv₂.trans (hv₁.trans h.store')⟩
  · refine BothE.bind both_appendEvent fun _ w₃ _ v₃ hstores => BothE.pure ?_
    obtain ⟨hw₃, hv₃⟩ := hstores
    exact ⟨EnclaveState.timeless_imports h.record _, h.id, rfl, h.errors,
      hw₃.trans (hw₂.trans (hw₁.trans h.store)), hv₃.trans (hv₂.trans (hv₁.trans h.store'))⟩

/-- **The wiring of an enclave** depends on its own record and on the export handles of the
enclaves that it imports from. -/
theorem both_wireEnclave (hne : enc.id ≠ a) (hrecord : w.record enc.id = v.record enc.id)
    (hexports : ∀ im ∈ enc.allImports, ∀ name,
      w.store.exportHandle im.from_ name = v.store.exportHandle im.from_ name) :
    BothE (system (answersBut F a)) (SameEnd enc.id errors errors')
      (wireEnclave run errors enc) w (wireEnclave { run with runId } errors' enc) v := by
  simp only [wireEnclave]
  split
  · exact BothE.pure ⟨hrecord, [], (List.append_nil _).symm, (List.append_nil _).symm⟩
  refine BothE.bind (both_getEnclave enc.id) ?_
  rintro stored w₁ stored' v₁ ⟨⟨hstored, hstored'⟩, hw₁, hv₁⟩
  have hsame : ∀ {w' v' : World}, w'.store = w.store → v'.store = v.store →
      w'.record enc.id = v'.record enc.id := by
    intro w' v' hw' hv'
    rw [World.record, World.record, hw', hv']
    exact hrecord
  rw [World.record, World.record, ← hstored, ← hstored'] at hrecord
  rcases stored with _ | s
  · obtain rfl : stored' = none := Option.map_eq_none_iff.mp hrecord.symm
    exact BothE.pure ⟨hsame hw₁ hv₁, [], (List.append_nil _).symm, (List.append_nil _).symm⟩
  obtain ⟨s', rfl, hs'⟩ := Option.map_eq_some_iff.mp hrecord.symm
  have hstart : SameLoop enc errors errors' w.store v.store
      { encState := s, changed := false, errors } w₁
      { encState := s', changed := false, errors := errors' } v₁ :=
    ⟨hs'.symm, Store.id_of_get? hstored.symm, rfl,
      ⟨[], (List.append_nil _).symm, (List.append_nil _).symm⟩, hw₁, hv₁⟩
  refine BothE.bind (BothE.foldlM (SameLoop enc errors errors' w.store v.store)
    (fun _ _ _ _ im him h => ?_) hstart) fun acc w₂ acc' v₂ hacc => ?_
  · exact both_wireImport hne (hexports im him) h
  rw [hacc.changed]
  split
  · exact BothE.bind (both_upsert hacc.record hacc.id) fun _ w₃ _ v₃ hrecord =>
      BothE.pure ⟨hrecord, hacc.errors⟩
  · exact BothE.pure ⟨hsame hacc.store hacc.store', hacc.errors⟩

/-! ## The passes, twice -/

/-- The two runs agree on the enclaves of `calm`: on their records up to timestamps, and on their
errors. -/
structure Agree (calm : EnclaveId → Prop) (errors : List ReportError) (w : World)
    (errors' : List ReportError) (v : World) : Prop where
  record : ∀ id, calm id → w.record id = v.record id
  errors : ∀ id, calm id → errors.filter (·.enclaveId = id) = errors'.filter (·.enclaveId = id)

theorem filter_of_adds {id id' : EnclaveId} {errors e : List ReportError}
    (h : ReportError.Adds id errors e) (hne : id' ≠ id) :
    e.filter (·.enclaveId = id') = errors.filter (·.enclaveId = id') := by
  obtain ⟨new, rfl, hnew⟩ := h
  have hnil : new.filter (·.enclaveId = id') = [] := by
    refine List.filter_eq_nil_iff.mpr fun e he => ?_
    rw [hnew e he]
    simpa using Ne.symm hne
  rw [List.filter_append, hnil, List.append_nil]

/-- What a visit of an enclave does to the others: nothing. -/
structure VisitOf (id : EnclaveId) (errors : List ReportError) (w : World)
    (e : List ReportError) (w' : World) : Prop where
  others : ∀ id', id' ≠ id → w.SameView id' w'
  adds : ReportError.Adds id errors e

theorem VisitOf.record {id id' : EnclaveId} {e : List ReportError} {w' : World}
    (h : VisitOf id errors w e w') (hne : id' ≠ id) : w'.record id' = w.record id' := by
  rw [World.record, (h.others id' hne).store, World.record]

/-- A step of a pass: the two runs agree on the visited enclave, if it is calm. -/
theorem Agree.step {calm : EnclaveId → Prop} {id : EnclaveId} {e e' : List ReportError}
    {w' v' : World} (h : Agree calm errors w errors' v) (hvisit : VisitOf id errors w e w')
    (hvisit' : VisitOf id errors' v e' v') (hend : calm id → SameEnd id errors errors' e w' e' v') :
    Agree calm e w' e' v' := by
  refine ⟨fun id' hcalm => ?_, fun id' hcalm => ?_⟩
  · by_cases hid : id' = id
    · rw [hid] at hcalm ⊢
      exact (hend hcalm).1
    · rw [hvisit.record hid, hvisit'.record hid]
      exact h.record id' hcalm
  · by_cases hid : id' = id
    · rw [hid] at hcalm ⊢
      obtain ⟨-, new, rfl, rfl⟩ := hend hcalm
      rw [List.filter_append, List.filter_append, h.errors id hcalm]
    · rw [filter_of_adds hvisit.adds hid, filter_of_adds hvisit'.adds hid]
      exact h.errors id' hcalm

theorem visitOf_calls {A : (c : Call) → Resp c → Prop} {P : Call → Prop} {id : EnclaveId}
    {x : Rec (List ReportError)} (hcalls : CallsE P (ReportError.Adds id errors) x)
    (hview : ∀ id', id' ≠ id → Keeps (system A) (w.SameView id') x) :
    Prog.wpE (system A) x (fun r w' => ∀ e, r = .ok e → VisitOf id errors w e w') w := by
  refine Prog.wp_iff.mpr fun r w' hrun e he => ⟨fun id' hid => ?_, ?_⟩
  · exact hrun.wp (hview id' hid (.refl id' w))
  · exact (hrun.wp (hcalls.wpE (I := fun _ => True) (fun _ _ _ _ _ _ => trivial) trivial)).1 e he

theorem visitOf_provisionEnclave {A : (c : Call) → Resp c → Prop} :
    Prog.wpE (system A) (provisionEnclave run errors enc)
      (fun r w' => ∀ e, r = .ok e → VisitOf enc.id errors w e w') w :=
  visitOf_calls (provisionEnclave_calls errors) fun _ hid => sameView_provisionEnclave hid errors w

theorem visitOf_wireEnclave {A : (c : Call) → Resp c → Prop} :
    Prog.wpE (system A) (wireEnclave run errors enc)
      (fun r w' => ∀ e, r = .ok e → VisitOf enc.id errors w e w') w :=
  visitOf_calls (wireEnclave_calls errors) fun _ hid => sameView_wireEnclave hid errors w

theorem visitOf_teardownRemoved {A : (c : Call) → Resp c → Prop} {id : EnclaveId}
    (hkeyed : ∀ s, run.existing id = some s → s.desired.id = id) :
    Prog.wpE (system A) (teardownRemoved run errors id)
      (fun r w' => ∀ e, r = .ok e → VisitOf id errors w e w') w :=
  visitOf_calls (teardownRemoved_calls hkeyed errors)
    fun _ hid => sameView_teardownRemoved hkeyed hid errors w

/-- The teardown pass touches the removed enclaves only. -/
theorem both_teardownPass {A : (c : Call) → Resp c → Prop} {removed : List EnclaveId}
    (hkeyed : ∀ id s, run.existing id = some s → s.desired.id = id)
    (hrecord : ∀ id, w.record id = v.record id) :
    BothE (system A) (Agree (· ∉ removed)) (teardownPass run removed) w
      (teardownPass { run with runId } removed) v := by
  refine BothE.foldlM (Agree (· ∉ removed)) (fun e w₁ e' v₁ id hid h => ?_)
    ⟨fun id _ => hrecord id, fun _ _ => rfl⟩
  have hvisits : BothE (system A)
      (fun b w₂ b' v₂ => VisitOf id e w₁ b w₂ ∧ VisitOf id e' v₁ b' v₂)
      (teardownRemoved run e id) w₁ (teardownRemoved { run with runId } e' id) v₁ :=
    BothE.of_wpE (visitOf_teardownRemoved (hkeyed id)) (visitOf_teardownRemoved (hkeyed id))
  exact hvisits.mono fun _ _ _ _ hends => h.step hends.1 hends.2 fun hcalm => absurd hid hcalm

section

variable {ordered : List Enclave} {calm : EnclaveId → Prop}

/-- The provision pass: where the two runs agree on an enclave other than `a` they go on to. -/
theorem both_provisionPass (hne : ∀ id, calm id → id ≠ a) (h : Agree calm errors w errors' v) :
    BothE (system (answersBut F a)) (Agree calm) (provisionPass run ordered errors) w
      (provisionPass { run with runId } ordered errors') v := by
  refine BothE.foldlM (Agree calm) (fun e w₁ e' v₁ enc _ h => ?_) h
  by_cases hcalm : calm enc.id
  · refine ((both_provisionEnclave (hne _ hcalm) (h.record _ hcalm)).and
      (BothE.of_wpE visitOf_provisionEnclave visitOf_provisionEnclave)).mono ?_
    exact fun _ _ _ _ hvisits => h.step hvisits.2.1 hvisits.2.2 fun _ => hvisits.1
  · refine (BothE.of_wpE visitOf_provisionEnclave visitOf_provisionEnclave).mono ?_
    exact fun _ _ _ _ hvisits => h.step hvisits.1 hvisits.2 fun h => absurd h hcalm

/-- The wiring pass: so they do where the exporters have the same handles. -/
theorem both_wiringPass (hne : ∀ id, calm id → id ≠ a)
    (hexports : ∀ enc ∈ ordered, calm enc.id → ∀ im ∈ enc.allImports, ∀ name,
      w.store.exportHandle im.from_ name = v.store.exportHandle im.from_ name)
    (h : Agree calm errors w errors' v) :
    BothE (system (answersBut F a)) (Agree calm) (wiringPass run ordered errors) w
      (wiringPass { run with runId } ordered errors') v := by
  let J (e : List ReportError) (w' : World) (e' : List ReportError) (v' : World) : Prop :=
    Agree calm e w' e' v' ∧ w.SameExports w' ∧ v.SameExports v'
  refine BothE.mono (BothE.foldlM J (fun e w₁ e' v₁ enc henc hJ => ?_)
    ⟨h, .refl w, .refl v⟩) fun _ _ _ _ hJ => hJ.1
  obtain ⟨hagree, hw₁, hv₁⟩ := hJ
  have hkept : BothE (system (answersBut F a)) (fun _ w₂ _ v₂ => w.SameExports w₂ ∧ v.SameExports v₂)
      (wireEnclave run e enc) w₁ (wireEnclave { run with runId } e' enc) v₁ :=
    fun _ _ hrun _ _ hrun' =>
      ⟨hw₁.trans (sameExports_wireEnclave e hrun), hv₁.trans (sameExports_wireEnclave e' hrun')⟩
  have hvisits : BothE (system (answersBut F a))
      (fun b w₂ b' v₂ => VisitOf enc.id e w₁ b w₂ ∧ VisitOf enc.id e' v₁ b' v₂)
      (wireEnclave run e enc) w₁ (wireEnclave { run with runId } e' enc) v₁ :=
    BothE.of_wpE visitOf_wireEnclave visitOf_wireEnclave
  by_cases hcalm : calm enc.id
  · refine (((both_wireEnclave (hne _ hcalm) (hagree.record _ hcalm) fun im him name => ?_).and
      hvisits).and hkept).mono ?_
    · rw [hw₁, hv₁]
      exact hexports enc henc hcalm im him name
    · exact fun _ _ _ _ hends => ⟨hagree.step hends.1.2.1 hends.1.2.2 fun _ => hends.1.1, hends.2⟩
  · refine (hvisits.and hkept).mono ?_
    exact fun _ _ _ _ hends => ⟨hagree.step hends.1.1 hends.1.2 fun h => absurd h hcalm, hends.2⟩

theorem Agree.mono {calm' : EnclaveId → Prop} (h : Agree calm errors w errors' v)
    (hcalm : ∀ id, calm' id → calm id) : Agree calm' errors w errors' v :=
  ⟨fun id hid => h.record id (hcalm id hid), fun id hid => h.errors id (hcalm id hid)⟩

theorem exportHandle_of_record {id : EnclaveId} (h : w.record id = v.record id) (name : String) :
    w.store.exportHandle id name = v.store.exportHandle id name := by
  rw [World.record, World.record] at h
  rw [Store.exportHandle, Store.exportHandle]
  rcases hw : w.store.get? id with _ | s
  · rw [hw] at h
    rw [Option.map_eq_none_iff.mp h.symm]
  · rw [hw] at h
    obtain ⟨s', hs', hsame⟩ := Option.map_eq_some_iff.mp h.symm
    rw [hs', Option.bind_some, Option.bind_some, (EnclaveState.alike_of_timeless hsame).exportHandles]

/-- **The passes**: two runs agree on the enclaves that import nothing from `a`. -/
theorem both_passes {removed : List EnclaveId}
    (hkeyed : ∀ id s, run.existing id = some s → s.desired.id = id)
    (hfrom : ∀ enc ∈ ordered, ∀ im ∈ enc.allImports, im.from_ ∉ removed)
    (hcalm : ∀ id, calm id → id ≠ a ∧ id ∉ removed)
    (hapart : ∀ enc ∈ ordered, calm enc.id → ∀ im ∈ enc.allImports, im.from_ ≠ a)
    (hrecord : ∀ id, w.record id = v.record id) :
    BothE (system (answersBut F a)) (Agree calm) (passes run removed ordered) w
      (passes { run with runId } removed ordered) v := by
  rw [passes, passes]
  refine BothE.bind (both_teardownPass hkeyed hrecord) fun e₁ w₁ e₁' v₁ h₁ => ?_
  have hkept : Agree (fun id => id ≠ a ∧ id ∉ removed) e₁ w₁ e₁' v₁ := h₁.mono fun _ h => h.2
  refine BothE.bind (both_provisionPass (fun _ h => h.1) hkept) fun e₂ w₂ e₂' v₂ h₂ => ?_
  exact both_wiringPass (fun id h => (hcalm id h).1)
    (fun enc henc h im him => exportHandle_of_record
      (h₂.record im.from_ ⟨hapart enc henc h im him, hfrom enc henc im him⟩))
    (h₂.mono hcalm)

end

/-! ## Two runs -/

theorem both_quiet {A : (c : Call) → Resp c → Prop} {c d : Call} (hc : c.isQuiet = true)
    (hd : d.isQuiet = true) :
    Both (system A) (fun _ w' _ v' => w'.store = w.store ∧ v'.store = v.store)
      (perform c) w (perform d) v :=
  Both.perform fun r s _ _ =>
    ⟨((World.Quiet.refl w).next hc r).store, ((World.Quiet.refl v).next hd s).store⟩

theorem both_auditEvent {A : (c : Call) → Resp c → Prop} (event event' : AuditEvent) :
    BothE (system A) (fun _ w' _ v' => w'.store = w.store ∧ v'.store = v.store)
      (storeCall (perform (.appendEvent event))) w (storeCall (perform (.appendEvent event'))) v := by
  have hkept : ∀ (w : World) (event : AuditEvent), Prog.wpE (system A)
      (storeCall (perform (.appendEvent event)))
      (fun r w' => ∀ a, r = .ok a → w'.store = w.store) w := by
    intro w event
    rw [wpE_orFail, Prog.wp_perform]
    exact fun _ _ _ _ => rfl
  exact BothE.of_wpE (hkept w event) (hkept v event')

theorem Agree.of_store {calm : EnclaveId → Prop} {w' v' : World} (h : Agree calm errors w errors' v)
    (hw : w'.store = w.store) (hv : v'.store = v.store) : Agree calm errors w' errors' v' := by
  refine ⟨fun id hid => ?_, h.errors⟩
  rw [World.record, World.record, hw, hv]
  exact h.record id hid

theorem both_applyPasses {removed : List EnclaveId} {ordered : List Enclave}
    {calm : EnclaveId → Prop} {changes : List Change}
    (hpasses : ∀ {w' v' : World}, w'.store = w.store → v'.store = v.store →
      BothE (system (answersBut F a)) (Agree calm) (passes run removed ordered) w'
        (passes { run with runId } removed ordered) v') :
    BothE (system (answersBut F a)) (Agree calm) (applyPasses run removed ordered changes) w
      (applyPasses { run with runId } removed ordered changes) v := by
  rw [applyPasses, applyPasses]
  refine BothE.bind (BothE.monadLift (both_quiet rfl rfl)) fun _ w₁ _ v₁ h₁ => ?_
  refine BothE.bind (both_auditEvent _ _) fun _ w₂ _ v₂ h₂ => ?_
  refine BothE.bind (hpasses (h₂.1.trans h₁.1) (h₂.2.trans h₁.2)) fun e w₃ e' v₃ h₃ => ?_
  refine BothE.bind (BothE.monadLift (both_quiet rfl rfl)) fun _ w₄ _ v₄ h₄ => ?_
  refine BothE.bind (both_auditEvent _ _) fun _ w₅ _ v₅ h₅ => BothE.pure ?_
  exact h₃.of_store (h₅.1.trans h₄.1) (h₅.2.trans h₄.2)

theorem both_listEnclaves {A : (c : Call) → Resp c → Prop} :
    BothE (system A)
      (fun r w' r' v' => (r.Perm (w.store.enclaves.toList.map (·.2)) ∧ w'.store = w.store) ∧
        r'.Perm (v.store.enclaves.toList.map (·.2)) ∧ v'.store = v.store)
      (storeCall (perform .listEnclaves)) w (storeCall (perform .listEnclaves)) v := by
  have hlist : ∀ w : World, Prog.wpE (system A) (storeCall (perform .listEnclaves))
      (fun r w' => ∀ records, r = .ok records →
        records.Perm (w.store.enclaves.toList.map (·.2)) ∧ w'.store = w.store) w := by
    intro w
    rw [wpE_orFail, Prog.wp_perform]
    rintro (e | records) hr _ ⟨⟩
    exact ⟨hr.1, rfl⟩
  exact BothE.of_wpE (hlist w) (hlist v)

end

section

variable {F : (c : Call) → Resp c} {a : EnclaveId} {host : Host} {req : ReconcileRequest}
  {registry : DriverRegistry} {desired : List Enclave}

/-- The runs report the same changes, and of an enclave that imports nothing from `a` they leave the
same record, up to timestamps, and report the same errors. -/
structure SameReport (a : EnclaveId) (desired : List Enclave) (report : ReconcileReport) (w : World)
    (report' : ReconcileReport) (v : World) : Prop where
  changes : report.changes = report'.changes
  undisturbed : ∀ b ∈ desired, b.id ≠ a → (∀ im ∈ b.allImports, im.from_ ≠ a) →
    w.record b.id = v.record b.id ∧
      report.errors.filter (·.enclaveId = b.id) = report'.errors.filter (·.enclaveId = b.id)

theorem both_reconcileLoaded (hnodup : (desired.map (·.id)).Nodup) {w v : World}
    (hstore : v.store = w.store) :
    BothE (system (answersBut F a)) (SameReport a desired)
      (reconcileLoaded host req registry desired) w
      (reconcileLoaded host req registry desired) v := by
  rw [reconcileLoaded]
  split
  · exact fun _ _ hrun => by cases hrun
  rename_i resolved hvalid
  refine BothE.bind both_listEnclaves ?_
  rintro records w₁ records' v₁ ⟨⟨hperm, hw₁⟩, hperm', hv₁⟩
  have hsnapshot := get?_actualStates hperm
  obtain hactual : actualStates records' = actualStates records := by
    refine Std.ExtTreeMap.ext_getElem? fun id => ?_
    rw [hsnapshot, get?_actualStates hperm', hstore]
  rw [hactual]
  refine BothE.bind (P := fun r w₂ r' v₂ => r = r' ∧ w₂.store = w₁.store ∧ v₂.store = v₁.store)
    (BothE.monadLift (Both.perform fun r r' hr hr' => ⟨hr.2.trans hr'.2.symm, rfl, rfl⟩)) ?_
  rintro removed w₂ _ v₂ ⟨rfl, hw₂, hv₂⟩
  have hrecord : ∀ {w' v' : World}, w'.store = w₂.store → v'.store = v₂.store →
      ∀ id, w'.record id = v'.record id := by
    intro w' v' hw' hv' id
    rw [World.record, World.record, hw', hv', hw₂, hv₂, hw₁, hv₁, hstore]
  split
  · exact BothE.pure ⟨rfl, fun b _ _ _ => ⟨hrecord rfl rfl b.id, rfl⟩⟩
  refine BothE.bind (BothE.monadLift (both_quiet rfl rfl)) fun runId w₃ runId' v₃ hstores => ?_
  obtain ⟨hw₃, hv₃⟩ := hstores
  have hmem : ∀ id, id ∈ removed.val → id ∉ desired.map (·.id) := fun id hid =>
    (mem_removedIds.mp (removed.property.mem_iff.mp hid)).2
  have hordered : ∀ enc ∈ orderedDesired resolved desired, enc ∈ desired := fun enc henc =>
    mem_of_mem_orderedDesired henc
  -- the desired enclaves apart from `a`
  let calm (id : EnclaveId) : Prop :=
    id ≠ a ∧ ∃ b ∈ desired, b.id = id ∧ ∀ im ∈ b.allImports, im.from_ ≠ a
  have hpasses : ∀ {w' v' : World}, w'.store = w₃.store → v'.store = v₃.store →
      BothE (system (answersBut F a)) (Agree calm)
        (passes ⟨host, req, registry, actualStates records, runId⟩ removed.val
          (orderedDesired resolved desired)) w'
        (passes ⟨host, req, registry, actualStates records, runId'⟩ removed.val
          (orderedDesired resolved desired)) v' := by
    intro w' v' hw' hv'
    refine both_passes (fun id s hs => ?_) (fun enc henc im him hfrom => ?_) (fun id hid => ?_)
      (fun enc henc hid im him => ?_) (hrecord (hw'.trans hw₃) (hv'.trans hv₃))
    · exact Store.id_of_get? ((hsnapshot id).symm.trans hs)
    · obtain ⟨source, -, hsource, -⟩ := validate_import hvalid (hordered enc henc) him
      obtain ⟨hsourced, hid⟩ := mem_of_get?_byId hsource
      exact hmem _ hfrom (List.mem_map.mpr ⟨source, hsourced, hid⟩)
    · obtain ⟨hne, b, hb, rfl, -⟩ := hid
      exact ⟨hne, fun hremoved => hmem _ hremoved (List.mem_map_of_mem hb)⟩
    · obtain ⟨-, b, hb, hbid, hfrom⟩ := hid
      obtain rfl := List.inj_on_of_nodup_map hnodup hb (hordered enc henc) hbid
      exact hfrom im him
  refine BothE.bind (both_applyPasses hpasses) fun errors w₄ errors' v₄ hagree => BothE.pure ?_
  refine ⟨rfl, fun b hb hne hfrom => ?_⟩
  have hcalm : calm b.id := ⟨hne, b, hb, rfl, hfrom⟩
  exact ⟨hagree.record _ hcalm, hagree.errors _ hcalm⟩

/-- **A failing enclave does not disturb the others.** Two runs from one store, on one list with
distinct ids, in which no call of the store fails and whose answers are the same function of the
calls except in provisioning `a`, report the same changes; and of every desired enclave that is not
`a` and imports nothing from it they leave the same record, up to timestamps, and report the same
errors. -/
theorem undisturbed_of_runs (hnodup : (desired.map (·.id)).Nodup) {w v w' v' : World}
    (hstore : v.store = w.store) {report report' : ReconcileReport}
    (hrun : Exec (system (answersBut F a)) (reconcileLoaded host req registry desired).run w
      (.ok report) w')
    (hrun' : Exec (system (answersBut F a)) (reconcileLoaded host req registry desired).run v
      (.ok report') v') :
    report.changes = report'.changes ∧
      ∀ b ∈ desired, b.id ≠ a → (∀ im ∈ b.allImports, im.from_ ≠ a) →
        w'.record b.id = v'.record b.id ∧
          report.errors.filter (·.enclaveId = b.id) =
            report'.errors.filter (·.enclaveId = b.id) := by
  have hsame := both_reconcileLoaded hnodup hstore report w' hrun report' v' hrun'
  exact ⟨hsame.changes, hsame.undisturbed⟩

end

/-- The driver refuses the enclave `a`. -/
def withoutA (w : World) : (c : Call) → Resp c
  | .provisionEnclave _ enc _ =>
    if enc.id = ⟨"a"⟩ then .error (.provisionFailed "quota") else .ok ⟨.null, ∅⟩
  | c => okAnswer w c

theorem answersBut_okAnswer (w : World) (c : Call) :
    answersBut (okAnswer .empty) ⟨"a"⟩ c (okAnswer w c) := by
  cases c with
  | provisionEnclave => exact fun _ => rfl
  | provisionPartition => exact fun _ => rfl
  | tfProvision => exact fun _ => rfl
  | provisionExport => exact fun _ => rfl
  | provisionImport => exact fun _ => rfl
  | enclaveOrder => rfl
  | _ => exact storeOk_of_allOk _ _ (allOk_okAnswer w _)

/-- Where `a` is refused the report says so, and `b` is as where it is not. -/
theorem refused_exporter_undisturbed : ∃ report report' w v,
    Exec (system (answersBut (okAnswer .empty) ⟨"a"⟩)) (reconcileLoaded plainHost .default gcpOnly
      [exporter, plainEnclave "b" [] [plainPartition "p" []]]).run .empty (.ok report) w ∧
    Exec (system (answersBut (okAnswer .empty) ⟨"a"⟩)) (reconcileLoaded plainHost .default gcpOnly
      [exporter, plainEnclave "b" [] [plainPartition "p" []]]).run .empty (.ok report') v ∧
    report.errors = [] ∧ report'.errors ≠ [] ∧ w.record ⟨"b"⟩ = v.record ⟨"b"⟩ := by
  have hrun := exec_run (M := system (answersBut (okAnswer .empty) ⟨"a"⟩)) (o := okAnswer)
    (fun w c => ⟨answers_okAnswer w c, answersBut_okAnswer w c⟩) (reconcileLoaded plainHost .default
      gcpOnly [exporter, plainEnclave "b" [] [plainPartition "p" []]]).run .empty
  have hrun' := exec_run (M := system (answersBut (okAnswer .empty) ⟨"a"⟩)) (o := withoutA)
    (fun w c => ?_) (reconcileLoaded plainHost .default gcpOnly
      [exporter, plainEnclave "b" [] [plainPartition "p" []]]).run .empty
  · obtain ⟨report, hreport, herrors⟩ : ∃ report, (run (system (answersBut (okAnswer .empty)
        ⟨"a"⟩)).next okAnswer (reconcileLoaded plainHost .default gcpOnly
          [exporter, plainEnclave "b" [] [plainPartition "p" []]]).run .empty).1 = .ok report ∧
        report.errors = [] := ⟨_, rfl, rfl⟩
    obtain ⟨report', hreport', herrors'⟩ : ∃ report', (run (system (answersBut (okAnswer .empty)
        ⟨"a"⟩)).next withoutA (reconcileLoaded plainHost .default gcpOnly
          [exporter, plainEnclave "b" [] [plainPartition "p" []]]).run .empty).1 = .ok report' ∧
        report'.errors ≠ [] := ⟨_, rfl, by simp⟩
    rw [hreport] at hrun
    rw [hreport'] at hrun'
    exact ⟨report, report', _, _, hrun, hrun', herrors, herrors', ((undisturbed_of_runs (by decide)
      rfl hrun hrun').2 (plainEnclave "b" [] [plainPartition "p" []])
        (List.mem_cons_of_mem _ (List.mem_cons_self ..)) (by decide) (by decide)).1⟩
  · cases c with
    | provisionEnclave driver enc existing =>
      refine ⟨trivial, fun hne => ?_⟩
      exact if_neg hne
    | _ => exact ⟨answers_okAnswer w _, answersBut_okAnswer w _⟩

end Nclav
