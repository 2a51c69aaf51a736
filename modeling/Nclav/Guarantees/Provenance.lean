import Nclav.Guarantees.AuditedRecords
import Nclav.Reconciler.Among

/-!
# Where stored handles come from

A handle that is stored was returned for what it is stored under: that of an enclave by a provision of
this enclave, that of a partition by its driver and by Terraform for this partition, that of an export
by an export of this enclave from the outputs of its target, and that of an import from a handle of
the export that it names. No other request can come between: a run keeps to this among others, as it
keeps to what is in the audit trail.
-/

namespace Nclav

open Effect

/-! ## Provenance -/

namespace World

variable (w : World) (id : EnclaveId)

/-- The enclave's driver returned the handle. -/
def EnclaveHandle (h : Handle) : Prop :=
  ∃ driver enc existing outputs, enc.id = id ∧
    (⟨.provisionEnclave driver enc existing, .ok ⟨h, outputs⟩⟩ : Event) ∈ w.log

/-- The handle was returned for the partition by its driver, or by its driver and Terraform. -/
def PartitionHandle (pid : PartitionId) (h : Handle) : Prop :=
  ∃ driver enc part inputs existing sa, enc.id = id ∧ part.id = pid ∧
    (⟨.provisionPartition driver enc part inputs existing, .ok sa⟩ : Event) ∈ w.log ∧
    (h = sa.handle ∨ ∃ host tf, h = mergeSaHandle sa.handle (TerraformBackend.handle host tf enc part))

/-- Terraform answered with the outputs for the partition, or there are none yet. -/
def PartitionOutputs (pid : PartitionId) (outputs : HashMap String String) : Prop :=
  outputs = ∅ ∨ ∃ tf enc part inputs authEnv runId, enc.id = id ∧ part.id = pid ∧
    (⟨.tfProvision tf enc part inputs authEnv runId, .ok outputs⟩ : Event) ∈ w.log

/-- The handle was returned for an export of the enclave, made of outputs of its target. -/
def ExportHandle (name : String) (h : Handle) : Prop :=
  ∃ driver enc ex outputs existing result, enc.id = id ∧ ex.name = name ∧
    w.PartitionOutputs id ex.targetPartition outputs ∧
    (⟨.provisionExport driver enc ex outputs existing, .ok result⟩ : Event) ∈ w.log ∧
    result.handle = h

/-- The handle was returned for an import of the enclave, made of a handle of what it imports. -/
def ImportHandle (alias_ : String) (h : Handle) : Prop :=
  ∃ driver enc im exportHandle existing result, enc.id = id ∧ im.alias_ = alias_ ∧
    w.ExportHandle im.from_ im.exportName exportHandle ∧
    (⟨.provisionImport driver enc im exportHandle existing, .ok result⟩ : Event) ∈ w.log ∧
    result.handle = h

variable {w id} {w' : World}

theorem EnclaveHandle.later {h : Handle} (hh : w.EnclaveHandle id h) (hlog : w.log <:+ w'.log) :
    w'.EnclaveHandle id h := by
  obtain ⟨driver, enc, existing, outputs, hid, hev⟩ := hh
  exact ⟨driver, enc, existing, outputs, hid, hlog.subset hev⟩

theorem PartitionHandle.later {pid : PartitionId} {h : Handle} (hh : w.PartitionHandle id pid h)
    (hlog : w.log <:+ w'.log) : w'.PartitionHandle id pid h := by
  obtain ⟨driver, enc, part, inputs, existing, sa, hid, hpid, hev, hsource⟩ := hh
  exact ⟨driver, enc, part, inputs, existing, sa, hid, hpid, hlog.subset hev, hsource⟩

theorem PartitionOutputs.later {pid : PartitionId} {outputs : HashMap String String}
    (h : w.PartitionOutputs id pid outputs) (hlog : w.log <:+ w'.log) :
    w'.PartitionOutputs id pid outputs := by
  rcases h with hempty | ⟨tf, enc, part, inputs, authEnv, runId, hid, hpid, hev⟩
  · exact .inl hempty
  · exact .inr ⟨tf, enc, part, inputs, authEnv, runId, hid, hpid, hlog.subset hev⟩

theorem ExportHandle.later {name : String} {h : Handle} (hh : w.ExportHandle id name h)
    (hlog : w.log <:+ w'.log) : w'.ExportHandle id name h := by
  obtain ⟨driver, enc, ex, outputs, existing, result, hid, hname, houtputs, hev, hresult⟩ := hh
  exact ⟨driver, enc, ex, outputs, existing, result, hid, hname, houtputs.later hlog,
    hlog.subset hev, hresult⟩

theorem ImportHandle.later {alias_ : String} {h : Handle} (hh : w.ImportHandle id alias_ h)
    (hlog : w.log <:+ w'.log) : w'.ImportHandle id alias_ h := by
  obtain ⟨driver, enc, im, exportHandle, existing, result, hid, halias, hexport, hev, hresult⟩ := hh
  exact ⟨driver, enc, im, exportHandle, existing, result, hid, halias, hexport.later hlog,
    hlog.subset hev, hresult⟩

end World

/-- What the record of a partition holds was returned for the partition. -/
structure PartitionState.Sourced (w : World) (id : EnclaveId) (pid : PartitionId)
    (ps : PartitionState) : Prop where
  handle : ∀ h, ps.partitionHandle = some h → w.PartitionHandle id pid h
  outputs : w.PartitionOutputs id pid ps.resolvedOutputs

/-- What the record holds was returned for what it is held under. -/
structure EnclaveState.Sourced (w : World) (s : EnclaveState) : Prop where
  enclave : ∀ h, s.enclaveHandle = some h → w.EnclaveHandle s.desired.id h
  partition : ∀ (pid : PartitionId) ps, s.partitions[pid]? = some ps →
    ps.Sourced w s.desired.id pid
  exports : ∀ (name : String) h, s.exportHandles[name]? = some h →
    w.ExportHandle s.desired.id name h
  imports : ∀ (alias_ : String) h, s.importHandles[alias_]? = some h →
    w.ImportHandle s.desired.id alias_ h

/-- What the record holds was told in the audit trail and was returned for it. -/
structure EnclaveState.Accounted (w : World) (s : EnclaveState) : Prop where
  audited : s.Audited w
  sourced : s.Sourced w

section

variable {w w' : World} {id : EnclaveId} {s : EnclaveState} {pid : PartitionId}
  {ps : PartitionState}

theorem PartitionState.Sourced.later (h : ps.Sourced w id pid) (hlog : w.log <:+ w'.log) :
    ps.Sourced w' id pid :=
  ⟨fun handle hhandle => (h.handle handle hhandle).later hlog, h.outputs.later hlog⟩

theorem EnclaveState.Sourced.later (h : s.Sourced w) (hlog : w.log <:+ w'.log) : s.Sourced w' where
  enclave handle hhandle := (h.enclave handle hhandle).later hlog
  partition pid ps hps := (h.partition pid ps hps).later hlog
  exports name handle hname := (h.exports name handle hname).later hlog
  imports alias_ handle halias := (h.imports alias_ handle halias).later hlog

theorem PartitionState.sourced_new (part : Partition) :
    (PartitionState.new part).Sourced w id pid :=
  ⟨by rintro _ ⟨⟩, .inl rfl⟩

theorem EnclaveState.sourced_new (enc : Enclave) : (EnclaveState.new enc).Sourced w := by
  refine ⟨by rintro _ ⟨⟩, fun pid ps hps => ?_, fun name h hname => ?_, fun alias_ h halias => ?_⟩
  · simp [EnclaveState.new] at hps
  · simp [EnclaveState.new] at hname
  · simp [EnclaveState.new] at halias

theorem EnclaveState.Sourced.insert (h : s.Sourced w) (hps : ps.Sourced w s.desired.id pid) :
    EnclaveState.Sourced w { s with partitions := s.partitions.insert pid ps } :=
  ⟨h.enclave, HashMap.forall_insert h.partition hps, h.exports, h.imports⟩

theorem EnclaveState.Sourced.insertExport (h : s.Sourced w) {name : String} {handle : Handle}
    (hhandle : w.ExportHandle s.desired.id name handle) :
    EnclaveState.Sourced w { s with exportHandles := s.exportHandles.insert name handle } :=
  ⟨h.enclave, h.partition, HashMap.forall_insert h.exports hhandle, h.imports⟩

theorem EnclaveState.Sourced.insertImport (h : s.Sourced w) {alias_ : String} {handle : Handle}
    (hhandle : w.ImportHandle s.desired.id alias_ handle) :
    EnclaveState.Sourced w { s with importHandles := s.importHandles.insert alias_ handle } :=
  ⟨h.enclave, h.partition, h.exports, HashMap.forall_insert h.imports hhandle⟩

theorem EnclaveState.Sourced.erase (h : s.Sourced w) (pid : PartitionId) :
    EnclaveState.Sourced w { s with partitions := s.partitions.erase pid } :=
  ⟨h.enclave, fun pid' ps hps => h.partition pid' ps (HashMap.get?_of_erase hps), h.exports,
    h.imports⟩

theorem recordRule_accounted : RecordRule fun w s => EnclaveState.Accounted w s where
  later hlog h := ⟨h.audited.mono hlog.subset, h.sourced.later hlog⟩
  erase pid h := ⟨h.audited.erase pid, h.sourced.erase pid⟩

end

/-- What the requests rely on of each other. -/
abbrev accountedContract (A : (c : Call) → Resp c → Prop) : Contract (system A) :=
  recordContract A recordRule_accounted

/-! ## The visit of an enclave -/

/-- The record of an enclave that is being visited. -/
structure AccountedVisit (enc : Enclave) (w : World) (s : EnclaveState) : Prop where
  id : s.desired.id = enc.id
  accounted : s.Accounted w

/-- The record of a partition of it. -/
def PartitionState.Accounted (w : World) (id : EnclaveId) (pid : PartitionId)
    (ps : PartitionState) : Prop :=
  ps.Told w id pid ∧ ps.Sourced w id pid

section

variable {A : (c : Call) → Resp c → Prop} {run : Run} {driver : Driver} {enc : Enclave}
  {part : Partition} {s : EnclaveState} {w w' : World}

theorem AccountedVisit.later (h : AccountedVisit enc w s) (hlog : w.log <:+ w'.log) :
    AccountedVisit enc w' s :=
  ⟨h.id, recordRule_accounted.later hlog h.accounted⟩

theorem PartitionState.accounted_new {id : EnclaveId} {pid : PartitionId} :
    (PartitionState.new part).Accounted w id pid :=
  ⟨PartitionState.told_new part, PartitionState.sourced_new part⟩

theorem AccountedVisit.partition (h : AccountedVisit enc w s) {pid : PartitionId} {ps : PartitionState}
    (hps : s.partitions[pid]? = some ps) : ps.Accounted w enc.id pid := by
  rw [← h.id]
  exact ⟨h.accounted.audited.partition hps, h.accounted.sourced.partition pid ps hps⟩

theorem AccountedVisit.insert (h : AccountedVisit enc w s) {pid : PartitionId} {ps : PartitionState}
    (hps : ps.Accounted w enc.id pid) :
    AccountedVisit enc w { s with partitions := s.partitions.insert pid ps } := by
  rw [← h.id] at hps
  exact ⟨h.id, h.accounted.audited.insert hps.1, h.accounted.sourced.insert hps.2⟩

/-- The record of the partition, or a new one. -/
theorem AccountedVisit.existing (h : AccountedVisit enc w s) (part : Partition) :
    ((s.partitions[part.id]?).getD (.new part)).Accounted w enc.id part.id := by
  rcases hps : s.partitions[part.id]? with _ | ps
  · exact PartitionState.accounted_new
  · exact h.partition hps

theorem AccountedVisit.update (h : AccountedVisit enc w s) {f : PartitionState → PartitionState}
    (hf : ∀ ps, ps.Accounted w enc.id part.id → (f ps).Accounted w enc.id part.id) :
    AccountedVisit enc w (s.updatePartition part f) :=
  h.insert (hf _ (h.existing part))

theorem AccountedVisit.inFlight (h : AccountedVisit enc w s) :
    AccountedVisit enc w (s.withInFlight part) := by
  obtain ⟨htold, hsourced⟩ := h.existing part
  exact h.insert ⟨⟨htold.1, htold.2⟩, hsourced.handle, hsourced.outputs⟩

/-- What comes of a partition's driver and Terraform. -/
structure PartitionOutcome (enc : Enclave) (part : Partition) (w : World)
    (a : EnclaveState × Except String ProvisionResult) : Prop where
  visiting : AccountedVisit enc w a.1
  handle : ∀ result, a.2 = .ok result → w.PartitionHandle enc.id part.id result.handle
  outputs : ∀ result, a.2 = .ok result → w.PartitionOutputs enc.id part.id result.outputs

theorem applyPartition_among {inputs : HashMap String String} {existing : Option Handle}
    (hs : AccountedVisit enc w s) (hw : w.Records fun s => s.Accounted w) :
    (applyPartition run driver enc part inputs existing s).Among (accountedContract A)
      (fun a w' => PartitionOutcome enc part w' a) w := by
  rw [applyPartition]
  refine (among_perform (by simp)).since.bind hw fun sa w₁ hle₁ hw₁ hsa => ?_
  rcases sa with e | sa
  · refine fun w₂ hle₂ _ => ⟨hs.later (hle₁.trans hle₂), ?_, ?_⟩
    · rintro _ ⟨⟩
    · rintro _ ⟨⟩
  have hhandle : w₁.PartitionHandle enc.id part.id sa.handle :=
    ⟨driver, enc, part, inputs, existing, sa, rfl, rfl, hsa.2, .inl rfl⟩
  have hs₁ : AccountedVisit enc w₁
      (s.updatePartition part ({ · with partitionHandle := some sa.handle })) := by
    refine (hs.later hle₁).update fun ps hps => ⟨hps.1, ?_, hps.2.outputs⟩
    rintro _ ⟨⟩
    exact hhandle
  refine (among_upsertEnclave hs₁.accounted).bind hw₁ fun _ w₂ hle₂ hw₂ _ => ?_
  refine (among_perform (by simp)).bind hw₂ fun outputs w₃ hle₃ hw₃ houtputs => ?_
  have hs₃ := hs₁.later (hle₂.trans hle₃)
  rcases outputs with e | outputs
  · refine fun w₄ hle₄ _ => ⟨hs₃.later hle₄, ?_, ?_⟩
    · rintro _ ⟨⟩
    · rintro _ ⟨⟩
  · refine fun w₄ hle₄ _ => ⟨hs₃.later hle₄, ?_, ?_⟩
    · rintro _ ⟨⟩
      exact ⟨driver, enc, part, inputs, existing, sa, rfl, rfl,
        (hle₂.trans (hle₃.trans hle₄)).subset hsa.2, .inr ⟨_, _, rfl⟩⟩
    · rintro _ ⟨⟩
      exact .inr ⟨_, enc, part, inputs, _, _, rfl, rfl, hle₄.subset houtputs⟩

theorem recordPartition_among {errors : List ReportError}
    {a : EnclaveState × Except String ProvisionResult} (ha : PartitionOutcome enc part w a)
    (hw : w.Records fun s => s.Accounted w) :
    Prog.AmongE (accountedContract A) (fun acc w' => AccountedVisit enc w' acc.1)
      (recordPartition run enc part a.1 errors a.2) w := by
  rw [recordPartition]
  refine (amongE_perform (by simp)).since.bind hw fun now w₁ _ hw₁ hnow => ?_
  obtain ⟨hle₁, -⟩ := hnow
  rcases houtcome : a.2 with msg | result
  · refine (amongE_appendEvent hw₁).since.bind hw₁ fun _ w₂ _ _ hend => ?_
    obtain ⟨hle₂, id, at_, hevent⟩ := hend
    have hvisiting : AccountedVisit enc w₂ (a.1.withFailed part now msg) := by
      refine (ha.visiting.later (hle₁.trans hle₂)).update fun ps hps => ?_
      refine ⟨⟨hps.1.1, ?_⟩, hps.2.handle, hps.2.outputs⟩
      rintro _ ⟨⟩
      exact ⟨_, rfl, hevent⟩
    exact Prog.AmongE.pure fun w₃ hle₃ _ => hvisiting.later hle₃
  · refine (amongE_appendEvent hw₁).since.bind hw₁ fun _ w₂ _ _ hend => ?_
    obtain ⟨hle₂, id, at_, hevent⟩ := hend
    have hle := hle₁.trans hle₂
    have hvisiting : AccountedVisit enc w₂ (a.1.withApplied run part now result) := by
      refine (ha.visiting.later hle).update fun ps hps => ⟨⟨fun _ => ⟨_, rfl, hevent⟩, ?_⟩, ?_, ?_⟩
      · rintro _ ⟨⟩
      · rintro _ ⟨⟩
        exact (ha.handle result houtcome).later hle
      · exact (ha.outputs result houtcome).later hle
    exact Prog.AmongE.pure fun w₃ hle₃ _ => hvisiting.later hle₃

theorem provisionPartition_among {acc : EnclaveState × List ReportError}
    (hacc : AccountedVisit enc w acc.1) (hw : w.Records fun s => s.Accounted w) :
    Prog.AmongE (accountedContract A) (fun acc' w' => AccountedVisit enc w' acc'.1)
      (provisionPartition run driver enc acc part) w := by
  simp only [provisionPartition]
  split
  · exact Prog.AmongE.pure fun w₁ hle₁ _ => hacc.later hle₁
  have hinFlight : AccountedVisit enc w (acc.1.withInFlight part) := hacc.inFlight
  refine (amongE_upsertEnclave hinFlight.accounted).bind hw fun _ w₁ hle₁ hw₁ _ => ?_
  refine (Prog.AmongE.monadLift (applyPartition_among (hinFlight.later hle₁) hw₁)).bind hw₁
    fun a w₂ _ hw₂ ha => ?_
  exact recordPartition_among ha hw₂

theorem provisionExport_among {ex : Export} {acc : EnclaveState × List ReportError}
    (hacc : AccountedVisit enc w acc.1) (hw : w.Records fun s => s.Accounted w) :
    Prog.AmongE (accountedContract A) (fun acc' w' => AccountedVisit enc w' acc'.1)
      (provisionExport driver enc acc ex) w := by
  rw [provisionExport]
  refine (amongE_perform (by simp)).since.bind hw fun result w₁ _ hw₁ hresult => ?_
  obtain ⟨hle₁, hresult⟩ := hresult
  rcases result with e | result
  · exact Prog.AmongE.pure fun w₂ hle₂ _ => hacc.later (hle₁.trans hle₂)
  refine (amongE_appendEvent hw₁).since.bind hw₁ fun _ w₂ _ _ hend => ?_
  obtain ⟨hle₂, id, at_, hevent⟩ := hend
  have houtputs : w.PartitionOutputs enc.id ex.targetPartition
      (((acc.1.partitions[ex.targetPartition]?).map (·.resolvedOutputs)).getD ∅) := by
    rcases hps : acc.1.partitions[ex.targetPartition]? with _ | ps
    · exact .inl rfl
    · exact (hacc.partition hps).2.outputs
  have hexport : w₂.ExportHandle enc.id ex.name result.handle :=
    ⟨driver, enc, ex, _, _, result, rfl, rfl, houtputs.later (hle₁.trans hle₂),
      hle₂.subset hresult, rfl⟩
  have hacc₂ := hacc.later (hle₁.trans hle₂)
  have htold : w₂.Told (.exportWired acc.1.desired.id ex.name) := by
    rw [hacc₂.id]
    exact ⟨_, rfl, hevent⟩
  rw [← hacc₂.id] at hexport
  exact Prog.AmongE.pure fun w₃ hle₃ _ => AccountedVisit.later
    ⟨hacc₂.id, hacc₂.accounted.audited.insertExport htold result.handle,
      hacc₂.accounted.sourced.insertExport hexport⟩ hle₃

/-- The record that a visit begins with, whatever its metadata and, once it was returned, its
handle. -/
theorem accountedVisit_inFlight (hreads : run.Reads (fun w s => s.Accounted w) w)
    {handle : Option Handle} {m : ResourceMeta}
    (hhandle : ∀ h, handle = some h → (EnclaveState.inFlight run enc).enclaveHandle = some h ∨
      w.EnclaveHandle enc.id h) :
    AccountedVisit enc w { EnclaveState.inFlight run enc with enclaveHandle := handle, meta_ := m } := by
  -- of the record that was read only the declaration, the cloud and the metadata are replaced
  have hold : ∀ s : EnclaveState, s.desired.id = enc.id → s.Accounted w →
      (∀ h, handle = some h → s.enclaveHandle = some h ∨ w.EnclaveHandle enc.id h) →
      ∀ cloud, AccountedVisit enc w
        { s with desired := enc, resolvedCloud := cloud, enclaveHandle := handle, meta_ := m } := by
    rintro s hid ⟨haudited, hsourced⟩ hhandle cloud
    refine ⟨rfl, ⟨?_, ?_, ?_, ?_⟩, ⟨fun h hh => ?_, ?_, ?_, ?_⟩⟩
    · simpa only [← hid] using haudited.applied
    · simpa only [← hid] using haudited.failed
    · simpa only [← hid] using haudited.exports
    · simpa only [← hid] using haudited.imports
    · rcases hhandle h hh with hstored | hnew
      · simpa only [← hid] using hsourced.enclave h hstored
      · exact hnew
    · simpa only [← hid] using hsourced.partition
    · simpa only [← hid] using hsourced.exports
    · simpa only [← hid] using hsourced.imports
  rcases hex : run.existing enc.id with _ | s
  · have hnew : (EnclaveState.new enc).Accounted w :=
      ⟨EnclaveState.audited_new enc, EnclaveState.sourced_new enc⟩
    rw [EnclaveState.inFlight, hex] at hhandle ⊢
    exact hold _ rfl hnew hhandle _
  · obtain ⟨hid, hs⟩ := hreads enc.id s hex
    rw [EnclaveState.inFlight, hex] at hhandle ⊢
    exact hold s hid hs hhandle _

theorem provisionEnclave_among (errors : List ReportError)
    (hw : w.Records fun s => s.Accounted w)
    (hreads : run.Reads (fun w s => s.Accounted w) w) :
    Prog.AmongE (accountedContract A) (fun _ _ => True) (provisionEnclave run errors enc) w := by
  rw [provisionEnclave]
  split
  · exact Prog.AmongE.pure fun _ _ _ => trivial
  rename_i driver _
  have hinFlight : AccountedVisit enc w (EnclaveState.inFlight run enc) :=
    accountedVisit_inFlight hreads fun h hh => .inl hh
  refine (amongE_upsertEnclave hinFlight.accounted).since.bind hw fun _ w₁ _ hw₁ hend => ?_
  refine (amongE_perform (by simp)).since.bind hw₁ fun result w₂ _ hw₂ hresult => ?_
  refine (amongE_perform (by simp)).since.bind hw₂ fun now w₃ _ hw₃ hnow => ?_
  have hle₃ : w.log <:+ w₃.log := hend.1.trans (hresult.1.trans hnow.1)
  have hreads₃ := hreads.later recordRule_accounted hle₃
  rcases result with e | result
  · have hfailed : AccountedVisit enc w₃ { EnclaveState.inFlight run enc with
        meta_ := (EnclaveState.inFlight run enc).meta_.markError now (toString e) } :=
      accountedVisit_inFlight hreads₃ fun h hh => .inl hh
    refine (amongE_upsertEnclave hfailed.accounted).bind hw₃ fun _ w₄ _ hw₄ _ => ?_
    exact (amongE_appendEvent hw₄).bind hw₄ fun _ w₅ _ _ _ =>
      Prog.AmongE.pure fun _ _ _ => trivial
  have hhandle : w₃.EnclaveHandle enc.id result.handle :=
    ⟨driver, enc, _, result.outputs, rfl, hnow.1.subset hresult.2⟩
  have happlied : AccountedVisit enc w₃ { EnclaveState.inFlight run enc with
      enclaveHandle := some result.handle
      meta_ := (EnclaveState.inFlight run enc).meta_.markActive now
        (run.host.enclaveHash enc) } := by
    refine accountedVisit_inFlight hreads₃ fun h hh => .inr ?_
    rw [← Option.some.inj hh]
    exact hhandle
  refine (Prog.AmongE.foldlM (I := fun acc w' => AccountedVisit enc w' acc.1)
    (fun _ _ _ hle h => h.later hle) (fun acc part w' _ hw' h => provisionPartition_among h hw')
    hw₃ happlied).bind hw₃ fun acc w₄ _ hw₄ hacc₄ => ?_
  refine (Prog.AmongE.foldlM (I := fun acc w' => AccountedVisit enc w' acc.1)
    (fun _ _ _ hle h => h.later hle) (fun acc ex w' _ hw' h => provisionExport_among h hw')
    hw₄ hacc₄).bind hw₄ fun acc w₅ _ hw₅ hacc₅ => ?_
  refine (amongE_appendEvent hw₅).since.bind hw₅ fun _ w₆ _ hw₆ hend => ?_
  exact (amongE_upsertEnclave (hacc₅.later hend.1).accounted).bind hw₆ fun _ w₇ _ _ _ =>
    Prog.AmongE.pure fun _ _ _ => trivial

/-! ## The wiring of an enclave -/

theorem wireImport_among {im : Import} {acc : WiringState} (hacc : AccountedVisit enc w acc.encState)
    (hw : w.Records fun s => s.Accounted w) :
    Prog.AmongE (accountedContract A) (fun acc' w' => AccountedVisit enc w' acc'.encState)
      (wireImport driver enc acc im) w := by
  rw [wireImport]
  split
  · exact Prog.AmongE.pure fun w₁ hle₁ _ => hacc.later hle₁
  refine amongE_getEnclave.since.bind hw fun exporter w₁ _ hw₁ hread => ?_
  obtain ⟨hle₁, hexporter⟩ := hread
  split
  · exact Prog.AmongE.pure fun w₂ hle₂ _ => hacc.later (hle₁.trans hle₂)
  rename_i exportHandle hfound
  have hexport : w₁.ExportHandle im.from_ im.exportName exportHandle := by
    obtain ⟨s, rfl, hname⟩ := Option.bind_eq_some_iff.mp hfound
    obtain ⟨hid, haccounted⟩ := hexporter s rfl
    rw [← hid]
    exact haccounted.sourced.exports im.exportName exportHandle hname
  refine (amongE_perform (by simp)).since.bind hw₁ fun result w₂ _ hw₂ hresult => ?_
  obtain ⟨hle₂, hresult⟩ := hresult
  rcases result with e | result
  · exact Prog.AmongE.pure fun w₃ hle₃ _ => hacc.later (hle₁.trans (hle₂.trans hle₃))
  refine (amongE_appendEvent hw₂).since.bind hw₂ fun _ w₃ _ _ hend => ?_
  obtain ⟨hle₃, id, at_, hevent⟩ := hend
  have himport : w₃.ImportHandle enc.id im.alias_ result.handle :=
    ⟨driver, enc, im, exportHandle, _, result, rfl, rfl, hexport.later (hle₂.trans hle₃),
      hle₃.subset hresult, rfl⟩
  have hacc₃ := hacc.later (hle₁.trans (hle₂.trans hle₃))
  have htold : w₃.Told (.importWired acc.encState.desired.id im.exportName) := by
    rw [hacc₃.id]
    exact ⟨_, rfl, hevent⟩
  rw [← hacc₃.id] at himport
  exact Prog.AmongE.pure fun w₄ hle₄ _ => AccountedVisit.later
    ⟨hacc₃.id, hacc₃.accounted.audited.insertImport htold im.alias_ result.handle,
      hacc₃.accounted.sourced.insertImport himport⟩ hle₄

theorem wireEnclave_among (errors : List ReportError) (hw : w.Records fun s => s.Accounted w) :
    Prog.AmongE (accountedContract A) (fun _ _ => True) (wireEnclave run errors enc) w := by
  rw [wireEnclave]
  split
  · exact Prog.AmongE.pure fun _ _ _ => trivial
  refine amongE_getEnclave.bind hw fun stored w₁ _ hw₁ hread => ?_
  rcases stored with _ | s
  · exact Prog.AmongE.pure fun _ _ _ => trivial
  obtain ⟨hid, hs⟩ := hread s rfl
  refine (Prog.AmongE.foldlM (I := fun acc w' => AccountedVisit enc w' acc.encState)
    (fun _ _ _ hle h => h.later hle) (fun acc im w' _ hw' h => wireImport_among h hw')
    hw₁ ⟨hid, hs⟩).bind hw₁ fun acc w₂ _ hw₂ hacc => ?_
  split
  · exact (amongE_upsertEnclave hacc.accounted).bind hw₂ fun _ _ _ _ _ =>
      Prog.AmongE.pure fun _ _ _ => trivial
  · exact Prog.AmongE.pure fun _ _ _ => trivial

end

end Nclav
