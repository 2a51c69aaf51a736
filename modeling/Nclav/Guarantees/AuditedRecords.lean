import Nclav.Guarantees.AuditTrail

/-!
# Audited records

The audit event comes before the record. A partition is marked as applied or failed in memory, then
the event is appended, and the record that says so is written after it; a handle of an export or of
an import is written after the event that it was wired. So whatever a stored record says of these is
in the audit trail, also where a run was cut off.
-/

namespace Nclav

open Effect

/-- What is left after an erasure was there before. -/
theorem HashMap.get?_of_erase {K V : Type} [Ord K] [Std.TransOrd K] [Std.LawfulEqOrd K]
    [DecidableEq K] {m : HashMap K V} {k a : K} {v : V} (h : (m.erase k)[a]? = some v) :
    m[a]? = some v := by
  rw [HashMap.get?_erase] at h
  split at h
  · cases h
  · exact h

/-- What holds of the old entries and of the new one holds of all after an insertion. -/
theorem HashMap.forall_insert {K V : Type} [Ord K] [Std.TransOrd K] [Std.LawfulEqOrd K]
    [DecidableEq K] {m : HashMap K V} {k : K} {v : V} {P : K → V → Prop}
    (hold : ∀ a u, m[a]? = some u → P a u) (hnew : P k v) :
    ∀ a u, (m.insert k v)[a]? = some u → P a u := by
  intro a u h
  rw [HashMap.get?_insert] at h
  split at h
  · rename_i heq
    rw [heq, ← Option.some.inj h]
    exact hnew
  · exact hold a u h

/-- The outcome was told by an audit event. -/
def World.Told (w : World) (o : Outcome) : Prop :=
  ∃ event : AuditEvent, event.outcome = some o ∧ (⟨.appendEvent event, .ok ()⟩ : Event) ∈ w.log

/-- What the record says of its partitions, exports and imports was told. -/
structure EnclaveState.Audited (w : World) (s : EnclaveState) : Prop where
  applied : ∀ (pid : PartitionId) ps, s.partitions[pid]? = some ps →
    ps.meta_.desiredHash.isSome = true → w.Told (.partitionProvisioned s.desired.id pid)
  failed : ∀ (pid : PartitionId) ps e, s.partitions[pid]? = some ps → ps.meta_.lastError = some e →
    w.Told (.partitionError s.desired.id pid e.message)
  exports : ∀ (name : String) h, s.exportHandles[name]? = some h →
    w.Told (.exportWired s.desired.id name)
  imports : ∀ (alias_ : String) h, s.importHandles[alias_]? = some h →
    ∃ exportName, w.Told (.importWired s.desired.id exportName)

/-- Every stored record was told of. -/
def World.Audits (w : World) : Prop := ∀ id s, w.store.get? id = some s → s.Audited w

section

variable {w w' : World} {s : EnclaveState}

theorem World.Told.mono {o : Outcome} (h : w.Told o) (hlog : w.log ⊆ w'.log) : w'.Told o := by
  obtain ⟨event, htold, hmem⟩ := h
  exact ⟨event, htold, hlog hmem⟩

theorem EnclaveState.Audited.mono (h : s.Audited w) (hlog : w.log ⊆ w'.log) : s.Audited w' where
  applied pid ps hps hhash := (h.applied pid ps hps hhash).mono hlog
  failed pid ps e hps he := (h.failed pid ps e hps he).mono hlog
  exports name handle hname := (h.exports name handle hname).mono hlog
  imports alias_ handle halias :=
    (h.imports alias_ handle halias).imp fun _ htold => htold.mono hlog

theorem EnclaveState.audited_new (enc : Enclave) : (EnclaveState.new enc).Audited w := by
  refine ⟨fun pid ps hps => ?_, fun pid ps e hps => ?_, fun name h hname => ?_,
    fun alias_ h halias => ?_⟩
  · simp [EnclaveState.new] at hps
  · simp [EnclaveState.new] at hps
  · simp [EnclaveState.new] at hname
  · simp [EnclaveState.new] at halias

/-- What the record says of a partition was told. -/
def PartitionState.Told (w : World) (id : EnclaveId) (pid : PartitionId) (ps : PartitionState) :
    Prop :=
  (ps.meta_.desiredHash.isSome = true → w.Told (.partitionProvisioned id pid)) ∧
    ∀ e, ps.meta_.lastError = some e → w.Told (.partitionError id pid e.message)

theorem PartitionState.told_new (part : Partition) {id : EnclaveId} {pid : PartitionId} :
    (PartitionState.new part).Told w id pid :=
  ⟨by rintro ⟨⟩, by rintro _ ⟨⟩⟩

theorem EnclaveState.Audited.partition (h : s.Audited w) {pid : PartitionId} {ps : PartitionState}
    (hps : s.partitions[pid]? = some ps) : ps.Told w s.desired.id pid :=
  ⟨h.applied pid ps hps, fun e => h.failed pid ps e hps⟩

theorem EnclaveState.Audited.insert (h : s.Audited w) {pid : PartitionId} {ps : PartitionState}
    (hps : ps.Told w s.desired.id pid) :
    EnclaveState.Audited w { s with partitions := s.partitions.insert pid ps } := by
  have hget : ∀ (pid' : PartitionId) ps', (s.partitions.insert pid ps)[pid']? = some ps' →
      ps'.Told w s.desired.id pid' := HashMap.forall_insert (fun _ _ => h.partition) hps
  exact ⟨fun pid' ps' hps' => (hget pid' ps' hps').1,
    fun pid' ps' e hps' => (hget pid' ps' hps').2 e, h.exports, h.imports⟩

theorem EnclaveState.Audited.insertExport (h : s.Audited w) {name : String}
    (htold : w.Told (.exportWired s.desired.id name)) (handle : Handle) :
    EnclaveState.Audited w { s with exportHandles := s.exportHandles.insert name handle } where
  applied := h.applied
  failed := h.failed
  exports := HashMap.forall_insert h.exports htold
  imports := h.imports

theorem EnclaveState.Audited.insertImport (h : s.Audited w) {exportName : String}
    (htold : w.Told (.importWired s.desired.id exportName)) (alias_ : String) (handle : Handle) :
    EnclaveState.Audited w { s with importHandles := s.importHandles.insert alias_ handle } where
  applied := h.applied
  failed := h.failed
  exports := h.exports
  imports := HashMap.forall_insert h.imports ⟨exportName, htold⟩

theorem EnclaveState.Audited.erase (h : s.Audited w) (pid : PartitionId) :
    EnclaveState.Audited w { s with partitions := s.partitions.erase pid } :=
  ⟨fun pid' ps hps => h.applied pid' ps (HashMap.get?_of_erase hps),
    fun pid' ps e hps => h.failed pid' ps e (HashMap.get?_of_erase hps), h.exports, h.imports⟩

/-- A change of a partition that leaves its hash and its error alone. -/
theorem EnclaveState.Audited.update (h : s.Audited w) {part : Partition}
    {f : PartitionState → PartitionState}
    (hf : ∀ ps, ps.Told w s.desired.id part.id → (f ps).Told w s.desired.id part.id) :
    (s.updatePartition part f).Audited w := by
  refine h.insert (hf _ ?_)
  rcases hps : s.partitions[part.id]? with _ | ps
  · exact PartitionState.told_new part
  · exact h.partition hps

theorem World.Always.audits_next (h : w.Always World.Audits) (c : Call) (r : Resp c)
    (hupsert : ∀ s, c = .upsertEnclave s → s.Audited w) : (w.next c r).Always World.Audits := by
  refine h.next fun id s hs => ?_
  have hrecords : (w.next c r).Records (·.Audited w) :=
    World.Records.next h.now c r hupsert fun id' pid _ s' hs' => hs'.erase pid
  exact (hrecords id s hs).mono (List.subset_cons_self _ _)

/-- The records that the run has read were told of as well. -/
structure Run.Auditing (run : Run) (w : World) : Prop where
  always : w.Always World.Audits
  existing : ∀ id s, run.existing id = some s → s.desired.id = id ∧ s.Audited w

theorem Run.Auditing.next {run : Run} (h : run.Auditing w) (c : Call) (r : Resp c)
    (hupsert : ∀ s, c = .upsertEnclave s → s.Audited w) : run.Auditing (w.next c r) where
  always := h.always.audits_next c r hupsert
  existing id s hs :=
    ⟨(h.existing id s hs).1, (h.existing id s hs).2.mono (List.subset_cons_self _ _)⟩

end

/-! ## The parts of a run -/

section

variable {A : (c : Call) → Resp c → Prop} {run : Run} {driver : Driver} {enc : Enclave} {w : World}

theorem ensures_appendEvent_audits {event : Uuid → DateTime → AuditEvent}
    (h : run.Auditing w) :
    Prog.Ensures (system A) run.Auditing
      (fun _ w₁ => w.log ⊆ w₁.log ∧
        ∃ id at_, (⟨.appendEvent (event id at_), .ok ()⟩ : Event) ∈ w₁.log)
      (appendEvent event) w := by
  intro id _ now _ r _
  have h₁ := (h.next .newUuid id (by rintro _ ⟨⟩)).next .now now (by rintro _ ⟨⟩)
  refine ⟨h₁.next _ r (by rintro _ ⟨⟩), ?_⟩
  cases r with
  | error e => rintro _ ⟨⟩
  | ok _ =>
    refine fun _ _ => ⟨fun ev hev => ?_, id, now, List.mem_cons_self ..⟩
    exact List.mem_cons_of_mem _ (List.mem_cons_of_mem _ (List.mem_cons_of_mem _ hev))

theorem ensures_upsertEnclave_audits {s : EnclaveState} (h : run.Auditing w)
    (hs : s.Audited w) :
    Prog.Ensures (system A) run.Auditing (fun _ w₁ => w.log ⊆ w₁.log)
      (upsertEnclave s) w := by
  have hnext : ∀ r, run.Auditing (w.next (.upsertEnclave s) r) := by
    refine fun r => h.next _ r ?_
    rintro _ ⟨⟩
    exact hs
  exact (ensures_upsertEnclave hnext).mono fun _ w₁ _ hw₁ => by
    rw [hw₁]
    exact List.subset_cons_self _ _

theorem wp_applyPartition_audits {part : Partition} {inputs : HashMap String String}
    {existing : Option Handle} {s : EnclaveState} (h : run.Auditing w) (hs : s.Audited w) :
    Prog.wp (system A) (applyPartition run driver enc part inputs existing s)
      (fun a w₁ => run.Auditing w₁ ∧ a.1.desired.id = s.desired.id ∧ a.1.Audited w₁) w := by
  intro sa _
  have h₁ := h.next (.provisionPartition driver enc part inputs existing) sa
    (by rintro _ ⟨⟩)
  have hs₁ : s.Audited (w.next (.provisionPartition driver enc part inputs existing) sa) :=
    hs.mono (List.subset_cons_self _ _)
  rcases sa with e | sa
  · exact ⟨h₁, rfl, hs₁⟩
  have hs' : EnclaveState.Audited _
      (s.updatePartition part ({ · with partitionHandle := some sa.handle })) :=
    hs₁.update fun _ hps => hps
  intro r _ outputs _
  have h₂ := h₁.next (.upsertEnclave _) r (by
    rintro _ ⟨⟩
    exact hs')
  have h₃ := h₂.next (.tfProvision run.req.tfBackend enc part inputs _ (some run.runId)) outputs
    (by rintro _ ⟨⟩)
  cases outputs with
  | error e =>
    exact ⟨h₃, rfl, hs'.mono fun ev hev => List.mem_cons_of_mem _ (List.mem_cons_of_mem _ hev)⟩
  | ok outputs =>
    exact ⟨h₃, rfl, hs'.mono fun ev hev => List.mem_cons_of_mem _ (List.mem_cons_of_mem _ hev)⟩

/-- The record of an enclave that is being visited. -/
structure AuditedVisit (enc : Enclave) (w : World) (s : EnclaveState) : Prop where
  id : s.desired.id = enc.id
  audited : s.Audited w

theorem AuditedVisit.mono {s : EnclaveState} {w' : World} (h : AuditedVisit enc w s)
    (hlog : w.log ⊆ w'.log) : AuditedVisit enc w' s :=
  ⟨h.id, h.audited.mono hlog⟩

theorem AuditedVisit.update {s : EnclaveState} (part : Partition)
    (f : PartitionState → PartitionState) (h : AuditedVisit enc w s)
    (hf : ∀ ps, ps.Told w enc.id part.id → (f ps).Told w enc.id part.id) :
    AuditedVisit enc w (s.updatePartition part f) := by
  refine ⟨h.id, h.audited.update ?_⟩
  rw [h.id]
  exact hf

theorem ensures_provisionPartition_audits (part : Partition) (acc : EnclaveState × List ReportError)
    (h : run.Auditing w) (hacc : AuditedVisit enc w acc.1) :
    Prog.Ensures (system A) run.Auditing (fun acc' w₁ => AuditedVisit enc w₁ acc'.1)
      (provisionPartition run driver enc acc part) w := by
  simp only [provisionPartition]
  split
  · exact Prog.Ensures.pure h hacc
  have hinFlight : EnclaveState.Audited w { acc.1 with
      partitions := acc.1.partitions.insert part.id
        (PartitionState.inFlight acc.1.partitions[part.id]? part) } := by
    refine hacc.audited.insert ?_
    rcases hps : acc.1.partitions[part.id]? with _ | ps
    · exact PartitionState.told_new part
    · obtain ⟨happlied, hfailed⟩ := hacc.audited.partition hps
      exact ⟨happlied, hfailed⟩
  refine (ensures_upsertEnclave_audits h hinFlight).bind fun _ w₁ h₁ hlog₁ => ?_
  refine (Prog.Ensures.monadLift (Prog.wp_mono (wp_applyPartition_audits h₁ (hinFlight.mono hlog₁))
    fun _ _ h => ⟨h.1, h.2⟩)).bind fun a w₂ h₂ ha => ?_
  obtain ⟨hdesired, haudited⟩ := ha
  rw [recordPartition]
  refine (ensures_perform (P := fun _ w₃ => a.1.Audited w₃) fun now _ _ =>
    ⟨h₂.next _ now (by rintro _ ⟨⟩), haudited.mono (List.subset_cons_self _ _)⟩).bind
    fun now w₃ h₃ ha₃ => ?_
  split
  · refine (ensures_appendEvent_audits h₃).bind fun _ w₄ h₄ hend => Prog.Ensures.pure h₄ ?_
    obtain ⟨hlog₄, eventId, at_, hevent⟩ := hend
    dsimp only
    refine AuditedVisit.update part _ ⟨hdesired.trans hacc.id, ha₃.mono hlog₄⟩ fun ps _ => ?_
    exact ⟨fun _ => ⟨_, rfl, hevent⟩, by rintro _ ⟨⟩⟩
  · refine (ensures_appendEvent_audits h₃).bind fun _ w₄ h₄ hend => Prog.Ensures.pure h₄ ?_
    obtain ⟨hlog₄, eventId, at_, hevent⟩ := hend
    dsimp only
    refine AuditedVisit.update part _ ⟨hdesired.trans hacc.id, ha₃.mono hlog₄⟩ fun ps hps => ?_
    refine ⟨hps.1, ?_⟩
    rintro _ ⟨⟩
    exact ⟨_, rfl, hevent⟩

theorem ensures_provisionExport_audits (ex : Export) (acc : EnclaveState × List ReportError)
    (h : run.Auditing w) (hacc : AuditedVisit enc w acc.1) :
    Prog.Ensures (system A) run.Auditing (fun acc' w₁ => AuditedVisit enc w₁ acc'.1)
      (provisionExport driver enc acc ex) w := by
  rw [provisionExport]
  refine (ensures_perform (P := fun _ w₁ => AuditedVisit enc w₁ acc.1) fun r _ _ =>
    ⟨h.next _ r (by rintro _ ⟨⟩), hacc.mono (List.subset_cons_self _ _)⟩).bind
    fun r w₁ h₁ hacc₁ => ?_
  cases r with
  | error e => exact Prog.Ensures.pure h₁ hacc₁
  | ok result =>
    refine (ensures_appendEvent_audits h₁).bind fun _ w₂ h₂ hend => Prog.Ensures.pure h₂ ?_
    obtain ⟨hlog₂, eventId, at_, hevent⟩ := hend
    have hacc₂ := hacc₁.mono hlog₂
    have htold : w₂.Told (.exportWired acc.1.desired.id ex.name) := by
      rw [hacc₂.id]
      exact ⟨_, rfl, hevent⟩
    exact ⟨hacc₂.id, hacc₂.audited.insertExport htold result.handle⟩

theorem ensures_provisionEnclave_audits (errors : List ReportError) (enc : Enclave)
    (h : run.Auditing w) :
    Prog.Ensures (system A) run.Auditing (fun _ _ => True)
      (provisionEnclave run errors enc) w := by
  rw [provisionEnclave]
  split
  · exact Prog.Ensures.pure h trivial
  have hinFlight : (EnclaveState.inFlight run enc).Audited w := by
    rw [EnclaveState.inFlight]
    rcases hex : run.existing enc.id with _ | s
    · exact ⟨(EnclaveState.audited_new enc).applied, (EnclaveState.audited_new enc).failed,
        (EnclaveState.audited_new enc).exports, (EnclaveState.audited_new enc).imports⟩
    · obtain ⟨hid, hs⟩ := h.existing enc.id s hex
      rw [Option.getD_some]
      refine ⟨?_, ?_, ?_, ?_⟩
      · rw [← hid]
        exact hs.applied
      · rw [← hid]
        exact hs.failed
      · rw [← hid]
        exact hs.exports
      · rw [← hid]
        exact hs.imports
  -- the handle and the metadata of the enclave are not told of
  have hsame : ∀ {w₁ handle m}, w.log ⊆ w₁.log → AuditedVisit enc w₁
      { EnclaveState.inFlight run enc with enclaveHandle := handle, meta_ := m } :=
    fun hlog => ⟨rfl, ⟨(hinFlight.mono hlog).applied, (hinFlight.mono hlog).failed,
      (hinFlight.mono hlog).exports, (hinFlight.mono hlog).imports⟩⟩
  refine (ensures_upsertEnclave_audits h hinFlight).bind fun _ w₁ h₁ hlog₁ => ?_
  refine (ensures_perform (P := fun _ w₂ => w.log ⊆ w₂.log) fun r _ _ =>
    ⟨h₁.next _ r (by rintro _ ⟨⟩), List.Subset.trans hlog₁ (List.subset_cons_self _ _)⟩).bind
    fun r w₂ h₂ hlog₂ => ?_
  refine (ensures_perform (P := fun _ w₃ => w.log ⊆ w₃.log) fun now _ _ =>
    ⟨h₂.next _ now (by rintro _ ⟨⟩), List.Subset.trans hlog₂ (List.subset_cons_self _ _)⟩).bind
    fun now w₃ h₃ hlog₃ => ?_
  cases r with
  | error e =>
    refine (ensures_upsertEnclave_audits h₃ (hsame hlog₃).audited).bind fun _ w₄ h₄ _ => ?_
    exact (ensures_appendEvent_audits h₄).bind fun _ w₅ h₅ _ => Prog.Ensures.pure h₅ trivial
  | ok result =>
    refine (Prog.Ensures.foldlM (I := run.Auditing)
      (fun _ acc w₄ => AuditedVisit enc w₄ acc.1)
      (fun _ part _ acc w₄ _ h₄ hacc => ensures_provisionPartition_audits part acc h₄ hacc)
      h₃ ?_).bind fun acc w₄ h₄ hacc₄ => ?_
    · exact hsame hlog₃
    refine (Prog.Ensures.foldlM (I := run.Auditing) (fun _ acc w₅ => AuditedVisit enc w₅ acc.1)
      (fun _ ex _ acc w₅ _ h₅ hacc => ensures_provisionExport_audits ex acc h₅ hacc) h₄ hacc₄).bind
      fun acc w₅ h₅ hacc₅ => ?_
    refine (ensures_appendEvent_audits h₅).bind fun _ w₆ h₆ hend => ?_
    exact (ensures_upsertEnclave_audits h₆ (hacc₅.mono hend.1).audited).bind
      fun _ w₇ h₇ _ => Prog.Ensures.pure h₇ trivial

theorem ensures_getEnclave_audits {id : EnclaveId} (h : run.Auditing w) :
    Prog.Ensures (system A) run.Auditing (fun s w₁ => s = w.store.get? id ∧ w.log ⊆ w₁.log)
      (storeCall (perform (.getEnclave id))) w := by
  rintro (e | s) ⟨hs, -⟩
  · refine ⟨h.next (.getEnclave id) (.error e) (by rintro _ ⟨⟩), ?_⟩
    rintro _ ⟨⟩
  · refine ⟨h.next (.getEnclave id) (.ok s) (by rintro _ ⟨⟩), ?_⟩
    rintro _ ⟨⟩
    exact ⟨hs, List.subset_cons_self _ _⟩

theorem ensures_wireImport_audits (im : Import) (acc : WiringState) (h : run.Auditing w)
    (hacc : AuditedVisit enc w acc.encState) :
    Prog.Ensures (system A) run.Auditing (fun acc' w₁ => AuditedVisit enc w₁ acc'.encState)
      (wireImport driver enc acc im) w := by
  rw [wireImport]
  split
  · exact Prog.Ensures.pure h hacc
  refine (ensures_getEnclave_audits h).bind fun exporter w₁ h₁ hread => ?_
  split
  · exact Prog.Ensures.pure h₁ (hacc.mono hread.2)
  refine (ensures_perform (P := fun _ w₂ => AuditedVisit enc w₂ acc.encState) fun r _ _ =>
    ⟨h₁.next _ r (by rintro _ ⟨⟩), (hacc.mono hread.2).mono (List.subset_cons_self _ _)⟩).bind
    fun r w₂ h₂ hacc₂ => ?_
  cases r with
  | error e => exact Prog.Ensures.pure h₂ hacc₂
  | ok result =>
    refine (ensures_appendEvent_audits h₂).bind fun _ w₃ h₃ hend => Prog.Ensures.pure h₃ ?_
    obtain ⟨hlog₃, eventId, at_, hevent⟩ := hend
    have hacc₃ := hacc₂.mono hlog₃
    have htold : w₃.Told (.importWired acc.encState.desired.id im.exportName) := by
      rw [hacc₃.id]
      exact ⟨_, rfl, hevent⟩
    exact ⟨hacc₃.id, hacc₃.audited.insertImport htold im.alias_ result.handle⟩

theorem ensures_wireEnclave_audits (errors : List ReportError) (enc : Enclave)
    (h : run.Auditing w) :
    Prog.Ensures (system A) run.Auditing (fun _ _ => True) (wireEnclave run errors enc) w := by
  rw [wireEnclave]
  split
  · exact Prog.Ensures.pure h trivial
  refine (ensures_getEnclave_audits h).bind fun stored w₁ h₁ hread => ?_
  obtain ⟨hstored, hlog⟩ := hread
  rcases stored with _ | s
  · exact Prog.Ensures.pure h₁ trivial
  refine (Prog.Ensures.foldlM (I := run.Auditing)
    (fun _ acc w₂ => AuditedVisit enc w₂ acc.encState)
    (fun _ im _ acc w₂ _ h₂ hacc => ensures_wireImport_audits im acc h₂ hacc) h₁ ?_).bind
    fun acc w₂ h₂ hacc => ?_
  · have hs := h.always.now enc.id s hstored.symm
    exact ⟨Store.id_of_get? hstored.symm, hs.mono hlog⟩
  split
  · exact (ensures_upsertEnclave_audits h₂ hacc.audited).bind
      fun _ w₃ h₃ _ => Prog.Ensures.pure h₃ trivial
  · exact Prog.Ensures.pure h₂ trivial

/-- Of the teardown pass nothing is written but that records are gone. -/
theorem keeps_teardownRemoved_audits {id : EnclaveId}
    (hkeyed : ∀ s, run.existing id = some s → s.desired.id = id) (errors : List ReportError) :
    Prog.Keeps (system A) run.Auditing (teardownRemoved run errors id) := by
  refine (teardownRemoved_calls hkeyed errors).keeps _ fun w c r hc _ h => h.next c r ?_
  rintro s rfl
  rcases hc with hc | hc <;> cases hc

theorem keeps_passes_audits {removed : List EnclaveId} {ordered : List Enclave}
    (hkeyed : ∀ id s, run.existing id = some s → s.desired.id = id) :
    Prog.Keeps (system A) run.Auditing (passes run removed ordered) :=
  (Prog.Keeps.foldlM (fun errors id _ => keeps_teardownRemoved_audits (hkeyed id) errors) _).bind
    fun _ => (Prog.Keeps.foldlM (fun errors enc _ => Prog.Keeps.of_ensures
      fun _ h => ensures_provisionEnclave_audits errors enc h) _).bind
        fun _ => Prog.Keeps.foldlM (fun errors enc _ => Prog.Keeps.of_ensures
          fun _ h => ensures_wireEnclave_audits errors enc h) _

end

/-! ## Histories -/

/-- Deleting tells nothing and writes no more than what is left. -/
theorem keeps_audits_of_deletes {ε α : Type} {id : EnclaveId} {Q : α → Prop}
    {x : ExceptT ε Sys α} (hx : Prog.CallsE (Call.Deletes id) Q x) :
    Prog.Keeps (system anyAnswer) (World.Always World.Audits) x := by
  refine hx.keeps _ fun w c r hc _ h => h.audits_next c r ?_
  rintro s rfl
  cases hc

/-- **Nothing is recorded that was not told**: in every reachable world, for a partition that is
recorded as applied, for the error that is recorded of one, and for the handle of each
export and import, the audit trail has an event of the enclave that says so. -/
theorem records_audited {host : Host} {w : World} (h : Reachable host w) (id : EnclaveId)
    (s : EnclaveState) (hs : w.store.get? id = some s) : s.Audited w := by
  refine Reachable.invariant (P := World.Audits) ?_ (fun fs root req registry => ?_)
    (fun state id' resourcesOnly => keeps_audits_of_deletes (deleteEnclave_calls resourcesOnly))
    (fun state id' pid => keeps_audits_of_deletes (deletePartition_calls pid)) h id s hs
  · intro id' s' hs'
    rw [World.empty, Store.get?_empty] at hs'
    cases hs'
  · refine keeps_reconcile (fun w w' hw hquiet => ?_)
      fun desired _ run resolved removed w₁ w₂ hstart hquiet hw₁ hw₂ => ?_
    · refine hquiet.keeps (fun w c r hc h => h.audits_next c r ?_) hw
      rintro s rfl
      cases hc
    · have hkeyed : ∀ id s, run.existing id = some s → s.desired.id = id :=
        fun id s hs => hstart.keyed hs
      have hauditing : run.Auditing w₂ := by
        refine ⟨hw₂, fun id s hs => ⟨hkeyed id s hs, ?_⟩⟩
        rw [hstart.existing] at hs
        exact (hw₁.now id s hs).mono hquiet.log_subset
      exact Prog.wpE_mono (keeps_passes_audits hkeyed hauditing)
        fun _ _ h => h.always

/-- The records that the apply of two enclaves stored: what they say of a partition that was applied,
of one that was refused, of an export and of an import was told. -/
theorem sharedWorld_audited :
    ∃ s s', sharedWorld.store.get? ⟨"a"⟩ = some s ∧ sharedWorld.store.get? ⟨"b"⟩ = some s' ∧
      sharedWorld.Told (.partitionProvisioned s.desired.id ⟨"p"⟩) ∧
      sharedWorld.Told (.partitionError s.desired.id ⟨"q"⟩ "provision failed: refused") ∧
      sharedWorld.Told (.exportWired s.desired.id "x") ∧
      ∃ exportName, sharedWorld.Told (.importWired s'.desired.id exportName) := by
  obtain ⟨s, p, q, e, hs, hp, hhash, hq, he, hmessage, handle, hx⟩ : ∃ s p q e,
      sharedWorld.store.get? ⟨"a"⟩ = some s ∧ s.partitions[(⟨"p"⟩ : PartitionId)]? = some p ∧
      p.meta_.desiredHash.isSome = true ∧ s.partitions[(⟨"q"⟩ : PartitionId)]? = some q ∧
      q.meta_.lastError = some e ∧ e.message = "provision failed: refused" ∧
      ∃ handle, s.exportHandles["x"]? = some handle :=
    ⟨_, _, _, _, rfl, rfl, rfl, rfl, rfl, rfl, _, rfl⟩
  obtain ⟨s', hs', handle', hy⟩ : ∃ s', sharedWorld.store.get? ⟨"b"⟩ = some s' ∧
      ∃ handle, s'.importHandles["y"]? = some handle := ⟨_, rfl, _, rfl⟩
  have haudited := records_audited reachable_sharedWorld ⟨"a"⟩ s hs
  have haudited' := records_audited reachable_sharedWorld ⟨"b"⟩ s' hs'
  refine ⟨s, s', hs, hs', haudited.applied ⟨"p"⟩ p hp hhash, ?_,
    haudited.exports "x" handle hx, haudited'.imports "y" handle' hy⟩
  rw [← hmessage]
  exact haudited.failed ⟨"q"⟩ q e hq he

end Nclav
