import Nclav.Reconciler.Diff
import Nclav.Reconciler.Template

/-!
# Provisioning

The second pass of a run: each desired enclave is provisioned, then its partitions, then its
exports, on a copy of the record taken from the snapshot. The copy is written back whole:
before the enclave's driver call, before and inside each partition's, and at the end.
-/

namespace Nclav

open Effect

/-- Change the state of a partition, starting a new one if there is none. -/
def EnclaveState.updatePartition (s : EnclaveState) (part : Partition)
    (f : PartitionState → PartitionState) : EnclaveState :=
  { s with
    partitions := s.partitions.insert part.id (f ((s.partitions[part.id]?).getD (.new part))) }

/-- The fields of the SA handle that are merged into the Terraform handle. -/
def mergeSaHandle (sa tf : Handle) : Handle :=
  match (sa.idx "partition_sa").asStr with
  | some email => tf.set "partition_sa" (.str email)
  | none => tf

/-- The environment of a partition's Terraform run: in SA-key mode it impersonates the
partition SA. -/
def partitionAuthEnv (driver : Driver) (enc : Enclave) (encState : EnclaveState) (sa : Handle) :
    HashMap String String :=
  let authEnv := (encState.enclaveHandle.map (driver.authEnv enc)).getD ∅
  if authEnv.contains "GOOGLE_APPLICATION_CREDENTIALS" then
    match (sa.idx "partition_sa").asStr with
    | some email => authEnv.insert "GOOGLE_IMPERSONATE_SERVICE_ACCOUNT" email
    | none => authEnv
  else authEnv

/-! ## Partitions -/

/-- The state of a partition that is about to be provisioned. -/
def PartitionState.inFlight (existing : Option PartitionState) (part : Partition) :
    PartitionState :=
  let ps := existing.getD (.new part)
  { ps with
    desired := part
    meta_ := { ps.meta_ with
      status := if ps.partitionHandle.isSome then .updating else .provisioning } }

/-- The driver call and the Terraform run of one partition. The SA handle is stored between
the two; a failure of that write is passed over. -/
def applyPartition (run : Run) (driver : Driver) (enc : Enclave) (part : Partition)
    (resolvedInputs : HashMap String String) (existing : Option Handle)
    (encState : EnclaveState) : Sys (EnclaveState × Except String ProvisionResult) := do
  let sa ← perform (.provisionPartition driver enc part resolvedInputs existing)
  match sa with
  | .error e => return (encState, .error (toString e))
  | .ok sa => do
    let encState := encState.updatePartition part ({ · with partitionHandle := some sa.handle })
    let _ ← perform (.upsertEnclave encState)
    let authEnv := partitionAuthEnv driver enc encState sa.handle
    let tf ← run.req.tfBackend.provision run.host enc part resolvedInputs authEnv
      (some run.runId)
    match tf with
    | .error e => return (encState, .error (toString e))
    | .ok tf => return (encState, .ok { tf with handle := mergeSaHandle sa.handle tf.handle })

/-- Record the outcome of a partition's provisioning. -/
def recordPartition (run : Run) (enc : Enclave) (part : Partition) (encState : EnclaveState)
    (errors : List ReportError) (outcome : Except String ProvisionResult) :
    Rec (EnclaveState × List ReportError) := do
  let now ← perform .now
  match outcome with
  | .ok result => do
    let encState := encState.updatePartition part fun ps =>
      { ps with
        partitionHandle := some result.handle
        resolvedOutputs := result.outputs
        meta_ := ps.meta_.markActive now (run.host.partitionHash part) }
    appendEvent fun id at_ => .partitionProvisioned id at_ enc.id part.id
    return (encState, errors)
  | .error msg => do
    let encState := encState.updatePartition part fun ps =>
      { ps with meta_ := ps.meta_.markError now msg }
    appendEvent fun id at_ => .partitionError id at_ enc.id part.id msg
    return (encState, errors ++ [.partition enc.id part.id msg])

/-- The context variables of an enclave state. -/
def EnclaveState.contextVars (s : EnclaveState) (driver : Driver) (enc : Enclave) :
    HashMap String String :=
  (s.enclaveHandle.map (driver.contextVars enc)).getD ∅

/-- One partition: skipped when its hash is unchanged, otherwise provisioned. -/
def provisionPartition (run : Run) (driver : Driver) (enc : Enclave)
    (acc : EnclaveState × List ReportError) (part : Partition) :
    Rec (EnclaveState × List ReportError) :=
  let existing := acc.1.partitions[part.id]?
  if hashUnchanged (existing.map (·.meta_)) (run.host.partitionHash part) then return acc
  else do
    let resolvedInputs := resolveInputs part.inputs acc.1 (acc.1.contextVars driver enc)
    let partState := PartitionState.inFlight existing part
    let encState := { acc.1 with partitions := acc.1.partitions.insert part.id partState }
    upsertEnclave encState
    let applied ← applyPartition run driver enc part resolvedInputs partState.partitionHandle
      encState
    recordPartition run enc part applied.1 acc.2 applied.2

/-! ## Exports -/

/-- One export, provisioned from the outputs of its target partition. -/
def provisionExport (driver : Driver) (enc : Enclave) (acc : EnclaveState × List ReportError)
    (ex : Export) : Rec (EnclaveState × List ReportError) := do
  let outputs := ((acc.1.partitions[ex.targetPartition]?).map (·.resolvedOutputs)).getD ∅
  let result ← perform
    (.provisionExport driver enc ex outputs (acc.1.exportHandles[ex.name]?))
  match result with
  | .ok result => do
    let encState := { acc.1 with exportHandles := acc.1.exportHandles.insert ex.name result.handle }
    appendEvent fun id at_ => .exportWired id at_ enc.id ex.name
    return (encState, acc.2)
  | .error e => return (acc.1, acc.2 ++ [.export_ enc.id ex.name (toString e)])

/-! ## Enclaves -/

/-- The record of an enclave that is about to be provisioned: the snapshot's, or a new one,
with the desired enclave and its cloud in it. -/
def EnclaveState.inFlight (run : Run) (enc : Enclave) : EnclaveState :=
  let s := (run.existing enc.id).getD (.new enc)
  { s with
    desired := enc
    resolvedCloud := some (run.registry.resolvedCloud enc)
    meta_ := { s.meta_ with
      status := if (run.existing enc.id).isSome then .updating else .provisioning } }

/-- The partitions and exports of an enclave that is provisioned. -/
def provisionContents (run : Run) (driver : Driver) (enc : Enclave) (encState : EnclaveState)
    (errors : List ReportError) : Rec (List ReportError) := do
  let acc ← enc.partitions.foldlM (provisionPartition run driver enc) (encState, errors)
  let acc ← enc.exports.foldlM (provisionExport driver enc) acc
  appendEvent fun id at_ => .enclaveProvisioned id at_ enc.id
  upsertEnclave acc.1
  return acc.2

/-- One desired enclave. Without a driver, or where its provisioning fails, that is reported
and its partitions are passed over. -/
def provisionEnclave (run : Run) (errors : List ReportError) (enc : Enclave) :
    Rec (List ReportError) :=
  match run.registry.forEnclave enc with
  | .error e => return errors ++ [.enclave enc.id (toString e)]
  | .ok driver => do
    let encState := EnclaveState.inFlight run enc
    upsertEnclave encState
    let result ← perform
      (.provisionEnclave driver enc ((run.existing enc.id).bind (·.enclaveHandle)))
    let now ← perform .now
    match result with
    | .ok result =>
      provisionContents run driver enc
        { encState with
          enclaveHandle := some result.handle
          meta_ := encState.meta_.markActive now (run.host.enclaveHash enc) }
        errors
    | .error e => do
      let msg := toString e
      let encState := { encState with meta_ := encState.meta_.markError now msg }
      upsertEnclave encState
      appendEvent fun id at_ => .enclaveError id at_ enc.id msg
      return errors ++ [.enclave enc.id msg]

/-- The provision pass. -/
def provisionPass (run : Run) (ordered : List Enclave) (errors : List ReportError) :
    Rec (List ReportError) :=
  ordered.foldlM (provisionEnclave run) errors

/-! ## The calls of the pass -/

/-- The calls that provision the enclave `enc`, writing records that satisfy `R`. -/
inductive Call.Provisions (enc : Enclave) (R : EnclaveState → Prop) : Call → Prop
  | upsertEnclave (s : EnclaveState) (h : R s) : Provisions enc R (.upsertEnclave s)
  | appendEvent (event : AuditEvent) : Provisions enc R (.appendEvent event)
  | now : Provisions enc R .now
  | newUuid : Provisions enc R .newUuid
  | provisionEnclave (driver : Driver) (existing : Option Handle) :
    Provisions enc R (.provisionEnclave driver enc existing)
  | provisionPartition (driver : Driver) (part : Partition) (inputs : HashMap String String)
    (existing : Option Handle) (h : part ∈ enc.partitions) :
    Provisions enc R (.provisionPartition driver enc part inputs existing)
  | tfProvision (tf : TerraformBackend) (part : Partition)
    (inputs authEnv : HashMap String String) (runId : Option Uuid) (h : part ∈ enc.partitions) :
    Provisions enc R (.tfProvision tf enc part inputs authEnv runId)
  | provisionExport (driver : Driver) (ex : Export) (outputs : HashMap String String)
    (existing : Option Handle) (h : ex ∈ enc.exports) :
    Provisions enc R (.provisionExport driver enc ex outputs existing)

/-- The calls that provision the enclave `enc`; the records written are of it. -/
abbrev Call.ProvisionsOnly (enc : Enclave) : Call → Prop := Call.Provisions enc (·.desired = enc)

theorem Call.Provisions.mono {enc : Enclave} {R R' : EnclaveState → Prop} (hR : ∀ s, R s → R' s)
    {c : Call} (h : c.Provisions enc R) : c.Provisions enc R' := by
  cases h with
  | upsertEnclave s h => exact .upsertEnclave s (hR s h)
  | appendEvent event => exact .appendEvent event
  | now => exact .now
  | newUuid => exact .newUuid
  | provisionEnclave => exact .provisionEnclave _ _
  | provisionPartition _ _ _ _ h => exact .provisionPartition _ _ _ _ h
  | tfProvision _ _ _ _ _ h => exact .tfProvision _ _ _ _ _ h
  | provisionExport _ _ _ _ h => exact .provisionExport _ _ _ _ h

@[simp] theorem EnclaveState.updatePartition_desired (s : EnclaveState) (part : Partition)
    (f : PartitionState → PartitionState) : (s.updatePartition part f).desired = s.desired := rfl

section

variable {run : Run} {driver : Driver} {enc : Enclave} {R : EnclaveState → Prop}

theorem callsE_appendEvent_provisions {event : Uuid → DateTime → AuditEvent} :
    Prog.CallsE (Call.Provisions enc R) (fun _ => True) (appendEvent event) :=
  callsE_appendEvent .newUuid .now .appendEvent

/-- What the partitions of an enclave leave alone in its record. -/
structure EnclaveState.SameWiring (s s' : EnclaveState) : Prop where
  desired : s'.desired = s.desired
  enclaveHandle : s'.enclaveHandle = s.enclaveHandle
  exportHandles : s'.exportHandles = s.exportHandles
  importHandles : s'.importHandles = s.importHandles

theorem EnclaveState.SameWiring.refl (s : EnclaveState) : s.SameWiring s := ⟨rfl, rfl, rfl, rfl⟩

theorem EnclaveState.SameWiring.trans {s s' s'' : EnclaveState} (h : s.SameWiring s')
    (h' : s'.SameWiring s'') : s.SameWiring s'' :=
  ⟨h'.desired.trans h.desired, h'.enclaveHandle.trans h.enclaveHandle,
    h'.exportHandles.trans h.exportHandles, h'.importHandles.trans h.importHandles⟩

/-- A change of the partitions is a change of nothing else. -/
theorem EnclaveState.sameWiring_partitions (s : EnclaveState)
    (partitions : HashMap PartitionId PartitionState) :
    s.SameWiring { s with partitions } := ⟨rfl, rfl, rfl, rfl⟩

theorem tfProvision_calls {tf : TerraformBackend} {part : Partition}
    (hpart : part ∈ enc.partitions) {inputs authEnv : HashMap String String}
    {runId : Option Uuid} :
    Prog.Calls (Call.Provisions enc R) (fun _ => True)
      (tf.provision run.host enc part inputs authEnv runId) :=
  Prog.Calls.bind (Prog.Calls.perform (.tfProvision _ _ _ _ _ hpart)) fun _ _ => trivial

/-! ### The records of a partition -/

/-- The three records that the visit of a partition makes of one: in flight, applied, failed. -/
def EnclaveState.withInFlight (s : EnclaveState) (part : Partition) : EnclaveState :=
  { s with
    partitions := s.partitions.insert part.id (.inFlight s.partitions[part.id]? part) }

def EnclaveState.withApplied (s : EnclaveState) (run : Run) (part : Partition) (now : DateTime)
    (result : ProvisionResult) : EnclaveState :=
  s.updatePartition part fun ps =>
    { ps with
      partitionHandle := some result.handle
      resolvedOutputs := result.outputs
      meta_ := ps.meta_.markActive now (run.host.partitionHash part) }

def EnclaveState.withFailed (s : EnclaveState) (part : Partition) (now : DateTime) (msg : String) :
    EnclaveState :=
  s.updatePartition part fun ps => { ps with meta_ := ps.meta_.markError now msg }

/-- Between `R` before and after a visit, `R₁` holds while the partition is in flight. -/
structure PartitionSteps (run : Run) (part : Partition) (R R₁ : EnclaveState → Prop) : Prop where
  inFlight : ∀ s, R s → R₁ (s.withInFlight part)
  handle : ∀ s h, R₁ s → R₁ (s.updatePartition part ({ · with partitionHandle := some h }))
  applied : ∀ s now result, R₁ s → R (s.withApplied run part now result)
  failed : ∀ s now msg, R₁ s → R (s.withFailed part now msg)

section

variable {part : Partition} {R₁ : EnclaveState → Prop}

theorem applyPartition_records (hpart : part ∈ enc.partitions) (h : PartitionSteps run part R R₁)
    {inputs : HashMap String String} {existing : Option Handle} {s : EnclaveState} (hs : R₁ s) :
    Prog.Calls (Call.Provisions enc R₁) (fun a => R₁ a.1)
      (applyPartition run driver enc part inputs existing s) := by
  refine Prog.Calls.bind (Prog.Calls.perform (.provisionPartition _ _ _ _ hpart)) fun sa _ => ?_
  cases sa with
  | error e => exact hs
  | ok sa =>
    have hs' := h.handle s sa.handle hs
    refine Prog.Calls.bind (Prog.Calls.perform (.upsertEnclave _ hs')) fun _ _ => ?_
    refine Prog.Calls.bind (tfProvision_calls hpart) fun tf _ => ?_
    cases tf with
    | error e => exact hs'
    | ok tf => exact hs'

theorem recordPartition_records (h : PartitionSteps run part R R₁) {s : EnclaveState} (hs : R₁ s)
    {errors : List ReportError} {outcome : Except String ProvisionResult} :
    Prog.CallsE (Call.Provisions enc R₁)
      (fun a => R a.1 ∧ ReportError.Adds enc.id errors a.2)
      (recordPartition run enc part s errors outcome) := by
  refine Prog.CallsE.bind (callsE_perform .now) fun now _ => ?_
  cases outcome with
  | ok result =>
    exact Prog.CallsE.bind callsE_appendEvent_provisions fun _ _ =>
      Prog.CallsE.pure ⟨h.applied s now result hs, .refl _ _⟩
  | error msg =>
    exact Prog.CallsE.bind callsE_appendEvent_provisions fun _ _ =>
      Prog.CallsE.pure ⟨h.failed s now msg hs, .single rfl _⟩

/-- The records that the visit of a partition writes satisfy `R₁`, the one it ends with `R`. -/
theorem provisionPartition_records (hpart : part ∈ enc.partitions)
    (h : PartitionSteps run part R R₁) {acc : EnclaveState × List ReportError} (hacc : R acc.1) :
    Prog.CallsE (Call.Provisions enc R₁) (fun a => R a.1 ∧ ReportError.Adds enc.id acc.2 a.2)
      (provisionPartition run driver enc acc part) := by
  simp only [provisionPartition]
  split
  · exact Prog.CallsE.pure ⟨hacc, .refl _ _⟩
  · have hs := h.inFlight acc.1 hacc
    refine Prog.CallsE.bind (callsE_upsertEnclave (.upsertEnclave _ hs)) fun _ _ => ?_
    refine Prog.CallsE.bind (Prog.CallsE.monadLift (applyPartition_records hpart h hs))
      fun applied happlied => ?_
    exact recordPartition_records h happlied

end

/-- Provisioning a partition leaves the wiring alone, also in the records it writes. -/
theorem provisionPartition_calls {part : Partition} (hpart : part ∈ enc.partitions)
    (acc : EnclaveState × List ReportError) :
    Prog.CallsE (Call.Provisions enc acc.1.SameWiring)
      (fun a => acc.1.SameWiring a.1 ∧ ReportError.Adds enc.id acc.2 a.2)
      (provisionPartition run driver enc acc part) := by
  have hstep : ∀ s partitions, acc.1.SameWiring s → acc.1.SameWiring { s with partitions } :=
    fun s partitions h => h.trans (s.sameWiring_partitions partitions)
  refine provisionPartition_records hpart ⟨?_, ?_, ?_, ?_⟩ (.refl _)
  · exact fun s h => hstep s _ h
  · exact fun s _ h => hstep s _ h
  · exact fun s _ _ h => hstep s _ h
  · exact fun s _ _ h => hstep s _ h

/-- Provisioning an export writes no record. -/
theorem provisionExport_calls {ex : Export} (hex : ex ∈ enc.exports)
    {acc : EnclaveState × List ReportError} :
    Prog.CallsE (Call.Provisions enc fun _ => False)
      (fun a => a.1.desired = acc.1.desired ∧ ReportError.Adds enc.id acc.2 a.2)
      (provisionExport driver enc acc ex) := by
  refine Prog.CallsE.bind (callsE_perform (.provisionExport _ _ _ _ hex)) fun result _ => ?_
  cases result with
  | ok result =>
    exact Prog.CallsE.bind callsE_appendEvent_provisions fun _ _ =>
      Prog.CallsE.pure ⟨rfl, .refl _ _⟩
  | error e => exact Prog.CallsE.pure ⟨rfl, .single rfl _⟩

/-! ### The records of an enclave -/

/-- `R` holds of every record that the visit of an enclave makes, and `C` once the enclave itself
is provisioned. -/
structure EnclaveSteps (run : Run) (enc : Enclave) (R C : EnclaveState → Prop) : Prop where
  inFlight : R (.inFlight run enc)
  failed : ∀ now msg, R
    { EnclaveState.inFlight run enc with
      meta_ := (EnclaveState.inFlight run enc).meta_.markError now msg }
  applied : ∀ now h, C
    { EnclaveState.inFlight run enc with
      enclaveHandle := some h
      meta_ := (EnclaveState.inFlight run enc).meta_.markActive now (run.host.enclaveHash enc) }
  partition : ∀ part ∈ enc.partitions, ∃ R₁, PartitionSteps run part C R₁ ∧ ∀ s, R₁ s → R s
  wired : ∀ s, C s → ∀ ex ∈ enc.exports, ∀ h,
    C { s with exportHandles := s.exportHandles.insert ex.name h }
  contents : ∀ s, C s → R s

theorem provisionExport_records {ex : Export} (hex : ex ∈ enc.exports)
    (h : ∀ s, R s → ∀ handle, R { s with exportHandles := s.exportHandles.insert ex.name handle })
    {acc : EnclaveState × List ReportError} (hacc : R acc.1) :
    Prog.CallsE (Call.Provisions enc R) (fun a => R a.1 ∧ ReportError.Adds enc.id acc.2 a.2)
      (provisionExport driver enc acc ex) := by
  refine Prog.CallsE.bind (callsE_perform (.provisionExport _ _ _ _ hex)) fun result _ => ?_
  cases result with
  | ok result =>
    exact Prog.CallsE.bind callsE_appendEvent_provisions fun _ _ =>
      Prog.CallsE.pure ⟨h acc.1 hacc result.handle, .refl _ _⟩
  | error e => exact Prog.CallsE.pure ⟨hacc, .single rfl _⟩

theorem provisionContents_records {C : EnclaveState → Prop} (h : EnclaveSteps run enc R C)
    {s : EnclaveState} (hs : C s) {errors : List ReportError} :
    Prog.CallsE (Call.Provisions enc R) (ReportError.Adds enc.id errors)
      (provisionContents run driver enc s errors) := by
  let J (a : EnclaveState × List ReportError) : Prop :=
    C a.1 ∧ ReportError.Adds enc.id errors a.2
  refine Prog.CallsE.bind (Prog.CallsE.foldlM J (fun acc part hpart hacc => ?_)
    ⟨hs, .refl _ _⟩) fun acc hacc => ?_
  · obtain ⟨R₁, hsteps, hR₁⟩ := h.partition part hpart
    exact (provisionPartition_records hpart hsteps hacc.1).mono (fun _ hc => hc.mono hR₁)
      fun a ha => ⟨ha.1, hacc.2.trans ha.2⟩
  · refine Prog.CallsE.bind (Prog.CallsE.foldlM J (fun acc ex hex hacc => ?_) hacc)
      fun acc hacc => ?_
    · exact (provisionExport_records hex (fun s hs => h.wired s hs ex hex) hacc.1).mono
        (fun _ hc => hc.mono h.contents) fun a ha => ⟨ha.1, hacc.2.trans ha.2⟩
    · refine Prog.CallsE.bind callsE_appendEvent_provisions fun _ _ => ?_
      exact Prog.CallsE.bind (callsE_upsertEnclave (.upsertEnclave _ (h.contents _ hacc.1)))
        fun _ _ => Prog.CallsE.pure hacc.2

/-- Provisioning an enclave calls nothing but provisions of it, writes only records that
satisfy `R` and reports only errors of it. -/
theorem provisionEnclave_records {C : EnclaveState → Prop} (h : EnclaveSteps run enc R C)
    (errors : List ReportError) :
    Prog.CallsE (Call.Provisions enc R) (ReportError.Adds enc.id errors)
      (provisionEnclave run errors enc) := by
  rw [provisionEnclave]
  split
  · exact Prog.CallsE.pure (.single rfl _)
  · refine Prog.CallsE.bind (callsE_upsertEnclave (.upsertEnclave _ h.inFlight)) fun _ _ => ?_
    refine Prog.CallsE.bind (callsE_perform (.provisionEnclave _ _)) fun result _ => ?_
    refine Prog.CallsE.bind (callsE_perform .now) fun now _ => ?_
    cases result with
    | ok result => exact provisionContents_records h (h.applied now result.handle)
    | error e =>
      refine Prog.CallsE.bind (callsE_upsertEnclave
        (.upsertEnclave _ (h.failed now (toString e)))) fun _ _ => ?_
      exact Prog.CallsE.bind callsE_appendEvent_provisions fun _ _ =>
        Prog.CallsE.pure (.single rfl _)

theorem EnclaveSteps.mono {R R' C : EnclaveState → Prop} (h : EnclaveSteps run enc R C)
    (hR : ∀ s, R s → R' s) : EnclaveSteps run enc R' C where
  inFlight := hR _ h.inFlight
  failed now msg := hR _ (h.failed now msg)
  applied := h.applied
  partition part hpart := by
    obtain ⟨R₁, hsteps, hR₁⟩ := h.partition part hpart
    exact ⟨R₁, hsteps, fun s hs => hR s (hR₁ s hs)⟩
  wired := h.wired
  contents s hs := hR s (h.contents s hs)

/-- The records written are of the enclave. -/
theorem enclaveSteps_desired : EnclaveSteps run enc (·.desired = enc) (·.desired = enc) := by
  refine ⟨?_, ?_, ?_, fun part _ => ⟨(·.desired = enc), ?_, fun _ h => h⟩, ?_, fun _ h => h⟩
  · rfl
  · exact fun _ _ => rfl
  · exact fun _ _ => rfl
  · exact ⟨fun _ h => h, fun _ _ h => h, fun _ _ _ h => h, fun _ _ _ h => h⟩
  · exact fun _ hs _ _ _ => hs

theorem provisionEnclave_calls (errors : List ReportError) :
    Prog.CallsE (Call.ProvisionsOnly enc) (ReportError.Adds enc.id errors)
      (provisionEnclave run errors enc) :=
  provisionEnclave_records enclaveSteps_desired errors

end

theorem Call.Provisions.not_touches {enc : Enclave} {c : Call} (h : c.ProvisionsOnly enc)
    {id : EnclaveId} (hne : id ≠ enc.id) : ¬ c.Touches id := by
  cases h with
  | upsertEnclave s h =>
    rintro (hc | hc)
    · cases hc
    · exact hne (by rw [← Option.some.inj hc, h])
  | appendEvent | now | newUuid => exact Call.not_touches_of_isQuiet rfl id
  | provisionEnclave | provisionPartition | tfProvision | provisionExport =>
    rintro (hc | hc)
    · exact hne (Option.some.inj hc).symm
    · cases hc

/-- Provisioning an enclave touches no other. -/
theorem sameView_provisionEnclave {A : (c : Call) → Resp c → Prop} {run : Run} {enc : Enclave}
    {id : EnclaveId} (hne : id ≠ enc.id) (errors : List ReportError) (w : World) :
    Prog.Keeps (system A) (w.SameView id) (provisionEnclave run errors enc) :=
  keeps_sameView (provisionEnclave_calls errors) (fun _ hc => hc.not_touches hne) w

/-! ## What each part does

The rules of the parts that end in a success. -/

section

variable {A : (c : Call) → Resp c → Prop} {run : Run} {driver : Driver} {enc : Enclave}
  {w : World}

/-- The outputs that an export is provisioned from. -/
def EnclaveState.outputsFor (s : EnclaveState) (ex : Export) : HashMap String String :=
  ((s.partitions[ex.targetPartition]?).map (·.resolvedOutputs)).getD ∅

theorem wpE_provisionExport_ok {acc : EnclaveState × List ReportError} {ex : Export}
    {Q : EnclaveState × List ReportError → World → Prop}
    (hok : ∀ existing result w',
      A (.provisionExport driver enc ex (acc.1.outputsFor ex) existing) (.ok result) →
      (w.next (.provisionExport driver enc ex (acc.1.outputsFor ex) existing) (.ok result)).Quiet w' →
      Q ({ acc.1 with exportHandles := acc.1.exportHandles.insert ex.name result.handle },
        acc.2) w')
    (hfailed : ∀ existing e,
      A (.provisionExport driver enc ex (acc.1.outputsFor ex) existing) (.error e) →
      Q (acc.1, acc.2 ++ [.export_ enc.id ex.name (toString e)])
        (w.next (.provisionExport driver enc ex (acc.1.outputsFor ex) existing) (.error e))) :
    Prog.wpE (system A) (provisionExport driver enc acc ex)
      (fun r w' => ∀ a, r = .ok a → Q a w') w := by
  rw [provisionExport]
  refine Prog.wpE_bind_ok ?_
  rw [Prog.wpE_monadLift, Prog.wp_perform]
  rintro (e | result) ⟨-, hr⟩
  · rintro _ ⟨⟩ _ ⟨⟩
    exact hfailed _ e hr
  · rintro _ ⟨⟩
    refine Prog.wpE_bind_ok (wpE_appendEvent_ok fun w' hw' => ?_)
    rintro _ ⟨⟩
    exact hok _ result w' hr hw'

theorem wpE_provisionEnclave_ok {errors : List ReportError} {Q : List ReportError → World → Prop}
    (hdriver : run.registry.forEnclave enc = .ok driver)
    (hok : ∀ existing result now w₁, A (.provisionEnclave driver enc existing) (.ok result) →
      ((w.next (.upsertEnclave (.inFlight run enc)) (.ok ())).next
        (.provisionEnclave driver enc existing) (.ok result)).Quiet w₁ →
      Prog.wpE (system A) (provisionContents run driver enc
        { EnclaveState.inFlight run enc with
          enclaveHandle := some result.handle
          meta_ := (EnclaveState.inFlight run enc).meta_.markActive now
            (run.host.enclaveHash enc) }
        errors) (fun r w' => ∀ a, r = .ok a → Q a w') w₁)
    (hfailed : ∀ existing e now w₁ w₂, A (.provisionEnclave driver enc existing) (.error e) →
      ((w.next (.upsertEnclave (.inFlight run enc)) (.ok ())).next
        (.provisionEnclave driver enc existing) (.error e)).Quiet w₁ →
      (w₁.next (.upsertEnclave { EnclaveState.inFlight run enc with
        meta_ := (EnclaveState.inFlight run enc).meta_.markError now (toString e) })
          (.ok ())).Quiet w₂ →
      Q (errors ++ [.enclave enc.id (toString e)]) w₂) :
    Prog.wpE (system A) (provisionEnclave run errors enc)
      (fun r w' => ∀ a, r = .ok a → Q a w') w := by
  rw [provisionEnclave, hdriver]
  refine Prog.wpE_bind_ok (wpE_upsertEnclave_ok ?_)
  refine Prog.wpE_bind_ok ?_
  rw [Prog.wpE_monadLift, Prog.wp_perform]
  rintro r ⟨-, hr⟩ _ ⟨⟩
  refine Prog.wpE_bind_ok ?_
  rw [Prog.wpE_monadLift, Prog.wp_perform]
  rintro now - _ ⟨⟩
  have hquiet := fun w : World => (World.Quiet.refl w).next (c := .now) rfl now
  rcases r with e | result
  · refine Prog.wpE_bind_ok (wpE_upsertEnclave_ok ?_)
    refine Prog.wpE_bind_ok (wpE_appendEvent_ok fun w₂ hw₂ => ?_)
    rintro _ ⟨⟩
    exact hfailed _ e now _ w₂ hr (hquiet _) hw₂
  · exact hok _ result now _ hr (hquiet _)

theorem wpE_provisionContents_ok {s : EnclaveState} {errors : List ReportError}
    {Q : List ReportError → World → Prop}
    (h : Prog.wpE (system A) (enc.partitions.foldlM (provisionPartition run driver enc) (s, errors))
      (fun r w₁ => ∀ acc, r = .ok acc →
        Prog.wpE (system A) (enc.exports.foldlM (provisionExport driver enc) acc)
          (fun r w₂ => ∀ acc', r = .ok acc' → ∀ w₃, w₂.Quiet w₃ →
            Q acc'.2 (w₃.next (.upsertEnclave acc'.1) (.ok ()))) w₁) w) :
    Prog.wpE (system A) (provisionContents run driver enc s errors)
      (fun r w' => ∀ a, r = .ok a → Q a w') w := by
  rw [provisionContents]
  refine Prog.wpE_bind_ok (Prog.wpE_mono h fun _ w₁ h₁ acc hacc => ?_)
  refine Prog.wpE_bind_ok (Prog.wpE_mono (h₁ acc hacc) fun _ w₂ h₂ acc' hacc' => ?_)
  refine Prog.wpE_bind_ok (wpE_appendEvent_ok fun w₃ hw₃ => ?_)
  refine Prog.wpE_bind_ok (wpE_upsertEnclave_ok ?_)
  rintro _ ⟨⟩
  exact h₂ acc' hacc' w₃ hw₃

/-- What a visit ensures of an enclave holds after the pass: the other visits do not touch it.
`C` is what the report's errors satisfy at the end, and satisfied before. -/
theorem wpE_provisionPass_each {ordered : List Enclave} (C : List ReportError → Prop)
    (Q : Enclave → World → Prop) (hsame : ∀ e ∈ ordered, ∀ e' ∈ ordered, e.id = e'.id → e = e')
    (hback : ∀ {id errors errors'}, ReportError.Adds id errors errors' → C errors' → C errors)
    (hstable : ∀ enc w w', Q enc w → w.SameView enc.id w' → w.log ⊆ w'.log → Q enc w')
    (hvisit : ∀ enc ∈ ordered, ∀ errors w, C errors →
      Prog.wpE (system A) (provisionEnclave run errors enc)
        (fun r w' => ∀ errors', r = .ok errors' → C errors' → Q enc w') w)
    (errors : List ReportError) (w : World) :
    Prog.wpE (system A) (provisionPass run ordered errors)
      (fun r w' => ∀ errors', r = .ok errors' → C errors' → C errors ∧
        ∀ enc ∈ ordered, Q enc w') w := by
  refine wpE_foldlM_clean C (fun pre _ w' => ∀ enc ∈ pre, Q enc w')
    (fun errors' enc _ => (provisionEnclave_calls errors').mono (fun _ _ => trivial)
      fun _ h => hback h) ?_ fun _ h => absurd h List.not_mem_nil
  intro pre x post errors' w' hsplit hC hpre
  have hx : x ∈ ordered := by simp [hsplit]
  refine Prog.wp_iff.mpr fun r w'' hrun errors'' hr hC' enc henc => ?_
  by_cases hid : enc.id = x.id
  · have hmem : enc ∈ ordered := by
      rw [hsplit]
      rcases List.mem_append.mp henc with h | h
      · simp [h]
      · simp [List.mem_singleton.mp h]
    rw [hsame enc hmem x hx hid]
    exact hrun.wp (hvisit x hx errors' w' hC) errors'' hr hC'
  · have hold : enc ∈ pre := (List.mem_append.mp henc).resolve_right fun h =>
      hid (by rw [List.mem_singleton.mp h])
    exact hstable enc w' w'' (hpre enc hold)
      (hrun.wp (sameView_provisionEnclave (A := A) hid errors' w' (.refl _ _))) (log_subset hrun)

/-- Over distinct enclaves: each is visited once, in a world in which nothing touched it yet. -/
theorem wpE_provisionPass_once {ordered : List Enclave} (C : List ReportError → Prop)
    (Q : Enclave → World → Prop) (hnodup : (ordered.map (·.id)).Nodup)
    (hback : ∀ {id errors errors'}, ReportError.Adds id errors errors' → C errors' → C errors)
    (hstable : ∀ enc w w', Q enc w → w.SameView enc.id w' → w.log ⊆ w'.log → Q enc w')
    (hvisit : ∀ enc ∈ ordered, ∀ errors w', w.SameView enc.id w' → C errors →
      Prog.wpE (system A) (provisionEnclave run errors enc)
        (fun r w'' => ∀ errors', r = .ok errors' → C errors' → Q enc w'') w')
    (errors : List ReportError) :
    Prog.wpE (system A) (provisionPass run ordered errors)
      (fun r w' => ∀ errors', r = .ok errors' → C errors' → C errors ∧
        ∀ enc ∈ ordered, Q enc w') w := by
  let I (pre : List Enclave) (_ : List ReportError) (w' : World) : Prop :=
    (∀ enc ∈ pre, Q enc w') ∧ ∀ id, id ∉ pre.map (·.id) → w.SameView id w'
  refine Prog.wpE_mono (wpE_foldlM_clean C I
    (fun errors' enc _ => (provisionEnclave_calls errors').mono (fun _ _ => trivial)
      fun _ h => hback h) ?_ ⟨fun _ h => absurd h List.not_mem_nil, fun id _ => .refl id w⟩)
    fun r w' h errors' hr hC => ⟨(h errors' hr hC).1, (h errors' hr hC).2.1⟩
  rintro pre x post errors' w' hsplit hC ⟨hpre, hview⟩
  have hnew : ∀ enc ∈ pre, enc.id ≠ x.id := by
    rw [hsplit, List.map_append, List.map_cons, List.nodup_append] at hnodup
    exact fun e he => hnodup.2.2 e.id (List.mem_map_of_mem he) x.id (List.mem_cons_self ..)
  have hx : x.id ∉ pre.map (·.id) := fun hmem => by
    obtain ⟨e, he, hid⟩ := List.mem_map.mp hmem
    exact hnew e he hid
  refine Prog.wp_iff.mpr fun r w'' hrun errors'' hr hC' => ⟨fun enc henc => ?_, fun id hid => ?_⟩
  · rcases List.mem_append.mp henc with henc | henc
    · exact hstable enc w' w'' (hpre enc henc) (hrun.wp
        (sameView_provisionEnclave (A := A) (hnew enc henc) errors' w' (.refl _ _)))
        (log_subset hrun)
    · obtain rfl := List.mem_singleton.mp henc
      exact hrun.wp (hvisit enc (by simp [hsplit]) errors' w' (hview _ hx) hC) errors'' hr hC'
  · rw [List.map_append, List.mem_append, not_or] at hid
    refine (hview id hid.1).trans (hrun.wp
      (sameView_provisionEnclave (A := A) (fun heq => hid.2 ?_) errors' w' (.refl _ _)))
    simp [heq]

end

/-! ## Where the pass does not end the run -/

section

variable {A : (c : Call) → Resp c → Prop} {run : Run} {driver : Driver} {enc : Enclave}

theorem succeeds_provisionPartition (hA : StoreSafe A) (acc : EnclaveState × List ReportError)
    (part : Partition) :
    Prog.Succeeds (system A) (provisionPartition run driver enc acc part) := by
  rw [provisionPartition]
  simp only
  split
  · exact .pure _
  · refine (succeeds_upsertEnclave hA _).bind fun _ => (Prog.Succeeds.monadLift _).bind
      fun applied => (Prog.Succeeds.monadLift _).bind fun now => ?_
    cases applied.2 with
    | ok result => exact (succeeds_appendEvent hA _).bind fun _ => .pure _
    | error msg => exact (succeeds_appendEvent hA _).bind fun _ => .pure _

theorem succeeds_provisionExport (hA : StoreSafe A) (acc : EnclaveState × List ReportError)
    (ex : Export) : Prog.Succeeds (system A) (provisionExport driver enc acc ex) := by
  refine (Prog.Succeeds.monadLift _).bind fun result => ?_
  cases result with
  | ok result => exact (succeeds_appendEvent hA _).bind fun _ => .pure _
  | error e => exact .pure _

theorem succeeds_provisionPass (hA : StoreSafe A) (ordered : List Enclave)
    (errors : List ReportError) :
    Prog.Succeeds (system A) (provisionPass run ordered errors) := by
  refine Prog.Succeeds.foldlM (fun errors enc _ => ?_) _
  rw [provisionEnclave]
  rcases run.registry.forEnclave enc with e | driver
  · exact .pure _
  refine (succeeds_upsertEnclave hA _).bind fun _ => (Prog.Succeeds.monadLift _).bind
    fun result => (Prog.Succeeds.monadLift _).bind fun now => ?_
  cases result with
  | ok result =>
    refine (Prog.Succeeds.foldlM (fun acc part _ => succeeds_provisionPartition hA acc part)
      _).bind fun acc => ?_
    refine (Prog.Succeeds.foldlM (fun acc ex _ => succeeds_provisionExport hA acc ex) _).bind
      fun acc => ?_
    exact (succeeds_appendEvent hA _).bind fun _ => (succeeds_upsertEnclave hA _).bind
      fun _ => .pure _
  | error e =>
    exact (succeeds_upsertEnclave hA _).bind fun _ => (succeeds_appendEvent hA _).bind
      fun _ => .pure _

end

end Nclav
