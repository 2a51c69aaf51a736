import Nclav.Guarantees.ExportSource

/-!
# What a run that is cut off leaves behind

A handle is returned by a driver before it is stored. Between the two the run may end, at an audit
event that the store refuses. The record of an enclave then holds what was written last: every
handle of the run, as long as none of the four events that confirm a success is refused
(`handles_kept_of_confirmed`).
-/

namespace Nclav

open Effect Prog

/-! ## The handles of a run -/

/-- The events that confirm a success. A handle is still to be written when they are appended. -/
def AuditEvent.confirms : AuditEvent → Bool
  | .enclaveProvisioned _ _ _ | .partitionProvisioned _ _ _ _ | .exportWired _ _ _ _
  | .importWired _ _ _ _ => true
  | _ => false

/-- Of the calls of the store only audit events may be refused. -/
def OnlyAuditFails (A : (c : Call) → Resp c → Prop) : Prop :=
  ∀ c r, A c r → c.isStore = true → failed c r = true → ∃ event, c = .appendEvent event

/-- An event that confirms a success is not. -/
def Confirmed (A : (c : Call) → Resp c → Prop) : Prop :=
  ∀ event r, A (.appendEvent event) r → event.confirms = true →
    failed (.appendEvent event) r = false

/-- A call that returned a handle. -/
def Event.earns : Event → Bool
  | ⟨.provisionEnclave _ _ _, .ok _⟩ => true
  | ⟨.provisionPartition _ _ _ _ _, .ok _⟩ => true
  | ⟨.tfProvision _ _ _ _ _ _, .ok _⟩ => true
  | ⟨.provisionExport _ _ _ _ _, .ok _⟩ => true
  | ⟨.provisionImport _ _ _ _ _, .ok _⟩ => true
  | _ => false

/-- A call that makes or applies a partition. -/
def Call.isPartition : Call → Bool
  | .provisionPartition _ _ _ _ _ | .tfProvision _ _ _ _ _ _ => true
  | _ => false

/-- What a successful step of a partition leaves to its record. -/
structure PartitionStep : Type where
  handle : Handle
  outputs : Option (HashMap String String)

/-- The driver's newest handle of a partition. -/
def lastSaHandle (pid : PartitionId) : List Event → Option Handle
  | [] => none
  | ⟨.provisionPartition _ _ part _ _, .ok sa⟩ :: evs =>
    if part.id = pid then some sa.handle else lastSaHandle pid evs
  | _ :: evs => lastSaHandle pid evs

/-- The newest successful step of a partition: the driver's, or Terraform's merged with it. -/
def lastStep (host : Host) (pid : PartitionId) : List Event → Option PartitionStep
  | [] => none
  | ⟨.provisionPartition _ _ part _ _, .ok sa⟩ :: evs =>
    if part.id = pid then some ⟨sa.handle, none⟩ else lastStep host pid evs
  | ⟨.tfProvision tf enc part _ _ _, .ok outputs⟩ :: evs =>
    if part.id = pid then
      some ⟨mergeSaHandle ((lastSaHandle pid evs).getD .null) (tf.handle host enc part),
        some outputs⟩
    else lastStep host pid evs
  | _ :: evs => lastStep host pid evs

/-- The record of a partition holds what the step left. -/
def PartitionStep.RecordedIn (step : PartitionStep) (ps : PartitionState) : Prop :=
  ps.partitionHandle = some step.handle ∧ ∀ outputs ∈ step.outputs, ps.resolvedOutputs = outputs

/-- The record of an enclave holds every handle that the calls about it returned. -/
structure Holds (host : Host) (s : Option EnclaveState) (evs : List Event) : Prop where
  enclave : ∀ driver enc existing result,
    (⟨.provisionEnclave driver enc existing, .ok result⟩ : Event) ∈ evs →
    s.bind (·.enclaveHandle) = some result.handle
  partition : ∀ pid step, lastStep host pid evs = some step →
    ∃ ps, s.bind (·.partitions[pid]?) = some ps ∧ step.RecordedIn ps
  exports : ∀ driver enc x outputs existing result,
    (⟨.provisionExport driver enc x outputs existing, .ok result⟩ : Event) ∈ evs →
    s.bind (·.exportHandles[x.name]?) = some result.handle
  imports : ∀ driver enc im exportHandle existing result,
    (⟨.provisionImport driver enc im exportHandle existing, .ok result⟩ : Event) ∈ evs →
    s.bind (·.importHandles[im.alias_]?) = some result.handle

/-- Every handle returned so far for the enclave is in its stored record. -/
def World.Kept (host : Host) (id : EnclaveId) (w : World) : Prop :=
  Holds host (w.store.get? id) (w.trace id)

/-! ## How a record keeps up -/

section

variable {host : Host} {s s' : EnclaveState} {st : Option EnclaveState} {evs : List Event}
  {ev : Event} {part : Partition} {enc : Enclave}

theorem lastStep_cons_of_not_earns (hev : ev.earns = false) (pid : PartitionId) :
    lastStep host pid (ev :: evs) = lastStep host pid evs := by
  rw [lastStep.eq_def]
  split
  · rename_i h
    cases h
  · rename_i h
    obtain ⟨rfl, rfl⟩ := List.cons.inj h
    cases hev
  · rename_i h
    obtain ⟨rfl, rfl⟩ := List.cons.inj h
    cases hev
  · rename_i h
    rw [(List.cons.inj h).2]

/-- Before the first success nothing is owed. -/
theorem holds_of_not_earns (h : ∀ ev ∈ evs, ev.earns = false) : Holds host st evs := by
  refine ⟨fun _ _ _ _ hev => ?_, fun pid step hstep => ?_, fun _ _ _ _ _ _ hev => ?_,
    fun _ _ _ _ _ _ hev => ?_⟩
  · cases h _ hev
  · have hnone : lastStep host pid evs = none := by
      clear hstep
      induction evs with
      | nil => rfl
      | cons ev evs ih =>
        rw [lastStep_cons_of_not_earns (h ev (List.mem_cons_self ..))]
        exact ih fun ev' hev' => h ev' (List.mem_cons_of_mem _ hev')
    rw [hnone] at hstep
    cases hstep
  · cases h _ hev
  · cases h _ hev

/-- A call that returned no handle adds nothing. -/
theorem Holds.cons (h : Holds host st evs) (hev : ev.earns = false) :
    Holds host st (ev :: evs) := by
  have hold : ∀ {ev' : Event}, ev' ∈ ev :: evs → ev'.earns = true → ev' ∈ evs := by
    intro ev' hmem hearns
    refine (List.mem_cons.mp hmem).resolve_left fun heq => ?_
    rw [heq, hev] at hearns
    cases hearns
  refine ⟨fun _ _ _ _ hmem => h.enclave _ _ _ _ (hold hmem rfl), fun pid step hstep => ?_,
    fun _ _ _ _ _ _ hmem => h.exports _ _ _ _ _ _ (hold hmem rfl),
    fun _ _ _ _ _ _ hmem => h.imports _ _ _ _ _ _ (hold hmem rfl)⟩
  rw [lastStep_cons_of_not_earns hev] at hstep
  exact h.partition pid step hstep

/-- The record `s'` has every handle that `s` has. -/
structure EnclaveState.SameHandles (s s' : EnclaveState) : Prop where
  enclaveHandle : s'.enclaveHandle = s.enclaveHandle
  exportHandles : s'.exportHandles = s.exportHandles
  importHandles : s'.importHandles = s.importHandles
  partitions : ∀ (pid : PartitionId) (ps : PartitionState), s.partitions[pid]? = some ps →
    ∃ ps' : PartitionState, s'.partitions[pid]? = some ps' ∧
      ps'.partitionHandle = ps.partitionHandle ∧ ps'.resolvedOutputs = ps.resolvedOutputs

theorem Holds.sameHandles (h : Holds host (some s) evs) (hs : s.SameHandles s') :
    Holds host (some s') evs := by
  refine ⟨fun driver enc existing result hmem => ?_, fun pid step hstep => ?_,
    fun driver enc x outputs existing result hmem => ?_,
    fun driver enc im xh existing result hmem => ?_⟩
  · exact hs.enclaveHandle.trans (h.enclave _ _ _ _ hmem)
  · obtain ⟨ps, hps, hhandle, houtputs⟩ := h.partition pid step hstep
    obtain ⟨ps', hps', hhandle', houtputs'⟩ := hs.partitions pid ps hps
    exact ⟨ps', hps', hhandle'.trans hhandle, fun o ho => houtputs'.trans (houtputs o ho)⟩
  · rw [Option.bind_some, hs.exportHandles]
    exact h.exports _ _ _ _ _ _ hmem
  · rw [Option.bind_some, hs.importHandles]
    exact h.imports _ _ _ _ _ _ hmem

/-- A change of one partition's record that keeps its handle and its outputs. -/
theorem EnclaveState.sameHandles_insert {ps : PartitionState}
    (hps : ∀ old, s.partitions[part.id]? = some old →
      ps.partitionHandle = old.partitionHandle ∧ ps.resolvedOutputs = old.resolvedOutputs) :
    s.SameHandles { s with partitions := s.partitions.insert part.id ps } := by
  refine ⟨rfl, rfl, rfl, fun pid old hold => ?_⟩
  by_cases hpid : pid = part.id
  · rw [hpid] at hold ⊢
    exact ⟨ps, by simp, hps old hold⟩
  · exact ⟨old, by simpa [HashMap.get?_insert, hpid] using hold, rfl, rfl⟩

theorem EnclaveState.sameHandles_inFlight : s.SameHandles (s.withInFlight part) := by
  refine sameHandles_insert fun old hold => ?_
  rw [hold]
  exact ⟨rfl, rfl⟩

theorem EnclaveState.sameHandles_failed {now : DateTime} {msg : String} :
    s.SameHandles (s.withFailed part now msg) := by
  refine sameHandles_insert fun old hold => ?_
  rw [hold]
  exact ⟨rfl, rfl⟩

/-- A successful step of a partition, and the record that takes it up. -/
theorem Holds.step {f : PartitionState → PartitionState} (h : Holds host (some s) evs)
    (step : PartitionStep) (hev : ev.1.isPartition = true)
    (hstep : lastStep host part.id (ev :: evs) = some step)
    (hother : ∀ pid, pid ≠ part.id → lastStep host pid (ev :: evs) = lastStep host pid evs)
    (hf : ∀ ps, step.RecordedIn (f ps)) :
    Holds host (some (s.updatePartition part f)) (ev :: evs) := by
  have hold : ∀ {ev' : Event}, ev' ∈ ev :: evs → ev'.1.isPartition = false → ev' ∈ evs := by
    intro ev' hmem hnot
    refine (List.mem_cons.mp hmem).resolve_left fun heq => ?_
    rw [heq, hev] at hnot
    cases hnot
  refine ⟨fun _ _ _ _ hmem => h.enclave _ _ _ _ (hold hmem rfl), fun pid step' hstep' => ?_,
    fun _ _ _ _ _ _ hmem => h.exports _ _ _ _ _ _ (hold hmem rfl),
    fun _ _ _ _ _ _ hmem => h.imports _ _ _ _ _ _ (hold hmem rfl)⟩
  by_cases hpid : pid = part.id
  · rw [hpid, hstep] at hstep'
    obtain rfl := Option.some.inj hstep'
    refine ⟨f ((s.partitions[part.id]?).getD (.new part)), ?_, hf _⟩
    simp [EnclaveState.updatePartition, hpid]
  · rw [hother pid hpid] at hstep'
    obtain ⟨ps, hps, hrecorded⟩ := h.partition pid step' hstep'
    refine ⟨ps, ?_, hrecorded⟩
    simpa [EnclaveState.updatePartition, HashMap.get?_insert, hpid] using hps

/-- The driver's step. -/
theorem Holds.sa (h : Holds host (some s) evs) {driver : Driver} {inputs : HashMap String String}
    {existing : Option Handle} {sa : ProvisionResult} :
    Holds host (some (s.updatePartition part ({ · with partitionHandle := some sa.handle })))
      (⟨.provisionPartition driver enc part inputs existing, .ok sa⟩ :: evs) := by
  refine h.step ⟨sa.handle, none⟩ rfl (if_pos rfl) (fun pid hpid => ?_) fun ps =>
    ⟨rfl, fun _ ho => nomatch ho⟩
  exact if_neg (Ne.symm hpid)

/-- Terraform's step, right after the driver's. -/
theorem Holds.tf {run : Run} {driver : Driver} {inputs inputs' authEnv : HashMap String String}
    {existing : Option Handle} {sa : ProvisionResult} {outputs : HashMap String String}
    {now : DateTime}
    (h : Holds run.host (some s)
      (⟨.provisionPartition driver enc part inputs existing, .ok sa⟩ :: evs)) :
    Holds run.host (some (s.withApplied run part now (run.appliedResult enc part sa outputs)))
      (⟨run.applyCall enc part inputs' authEnv, .ok outputs⟩ ::
        ⟨.provisionPartition driver enc part inputs existing, .ok sa⟩ :: evs) := by
  refine h.step ⟨(run.appliedResult enc part sa outputs).handle, some outputs⟩ rfl ?_
    (fun pid hpid => if_neg (Ne.symm hpid)) fun ps => ⟨rfl, fun o ho => ?_⟩
  · rw [lastStep, if_pos rfl, lastSaHandle, if_pos rfl]
    rfl
  · exact Option.some.inj ho

/-- The handle of the enclave, before any other of the run. -/
theorem Holds.provisioned {m : ResourceMeta} {driver : Driver} {existing : Option Handle}
    {result : ProvisionResult} (hevs : ∀ ev ∈ evs, ev.earns = false) :
    Holds host (some { s with enclaveHandle := some result.handle, meta_ := m })
      (⟨.provisionEnclave driver enc existing, .ok result⟩ :: evs) := by
  have hnone : Holds host none evs := holds_of_not_earns hevs
  refine ⟨fun _ _ _ result' hmem => ?_, fun pid step hstep => ?_, fun _ _ _ _ _ _ hmem => ?_,
    fun _ _ _ _ _ _ hmem => ?_⟩
  · rcases List.mem_cons.mp hmem with heq | hmem
    · cases heq
      rfl
    · cases hevs _ hmem
  · obtain ⟨_, hps, -⟩ := hnone.partition pid step hstep
    cases hps
  · cases hevs _ ((List.mem_cons.mp hmem).resolve_left nofun)
  · cases hevs _ ((List.mem_cons.mp hmem).resolve_left nofun)

/-- The handle of an export, if no other export of the name was wired. -/
theorem Holds.wired (h : Holds host (some s) evs) {driver : Driver} {x : Export}
    {outputs : HashMap String String} {existing : Option Handle} {result : ProvisionResult}
    (hnew : ∀ driver enc y outputs existing result,
      (⟨.provisionExport driver enc y outputs existing, .ok result⟩ : Event) ∈ evs →
      y.name ≠ x.name) :
    Holds host (some { s with exportHandles := s.exportHandles.insert x.name result.handle })
      (⟨.provisionExport driver enc x outputs existing, .ok result⟩ :: evs) := by
  refine ⟨fun _ _ _ _ hmem => ?_, fun pid step hstep => h.partition pid step hstep,
    fun _ _ y _ _ result' hmem => ?_, fun _ _ _ _ _ _ hmem => ?_⟩
  · exact h.enclave _ _ _ _ ((List.mem_cons.mp hmem).resolve_left nofun)
  · rcases List.mem_cons.mp hmem with heq | hmem
    · cases heq
      simp
    · simpa [HashMap.get?_insert, hnew _ _ _ _ _ _ hmem] using h.exports _ _ _ _ _ _ hmem
  · exact h.imports _ _ _ _ _ _ ((List.mem_cons.mp hmem).resolve_left nofun)

/-- The handle of an import whose alias is not bound. -/
theorem Holds.bound (h : Holds host (some s) evs) {driver : Driver} {im : Import} {xh : Handle}
    {existing : Option Handle} {result : ProvisionResult}
    (hnone : s.importHandles[im.alias_]? = none) :
    Holds host (some { s with importHandles := s.importHandles.insert im.alias_ result.handle })
      (⟨.provisionImport driver enc im xh existing, .ok result⟩ :: evs) := by
  refine ⟨fun _ _ _ _ hmem => ?_, fun pid step hstep => h.partition pid step hstep,
    fun _ _ _ _ _ _ hmem => ?_, fun _ _ im' _ _ result' hmem => ?_⟩
  · exact h.enclave _ _ _ _ ((List.mem_cons.mp hmem).resolve_left nofun)
  · exact h.exports _ _ _ _ _ _ ((List.mem_cons.mp hmem).resolve_left nofun)
  · rcases List.mem_cons.mp hmem with heq | hmem
    · cases heq
      simp
    · have hbound := h.imports _ _ _ _ _ _ hmem
      have hne : im'.alias_ ≠ im.alias_ := fun heq => by
        rw [Option.bind_some, heq, hnone] at hbound
        cases hbound
      simpa [HashMap.get?_insert, hne] using hbound

end

/-! ## The visit of an enclave -/

section

variable {A : (c : Call) → Resp c → Prop} {w w' : World}

theorem World.Kept.sameView {host : Host} {id : EnclaveId} (h : w.Kept host id)
    (hview : w.SameView id w') : w'.Kept host id := by
  rw [World.Kept, hview.store, hview.trace]
  exact h

theorem World.Kept.quiet {host : Host} {id : EnclaveId} (h : w.Kept host id) (hw : w.Quiet w') :
    w'.Kept host id := h.sameView (hw.sameView id)

theorem ends_upsertEnclave (hA : OnlyAuditFails A) {s : EnclaveState} {I : World → Prop}
    {P : Unit → World → Prop} (h : P () (w.next (.upsertEnclave s) (.ok ()))) :
    Ends (system A) I P (upsertEnclave s) w := by
  rw [Ends, wpE_upsertEnclave]
  rintro (e | ⟨⟩) hr
  · obtain ⟨_, ⟨⟩⟩ := hA _ _ hr.2 rfl rfl
  · exact h

theorem ends_getEnclave (hA : OnlyAuditFails A) {id : EnclaveId} {I : World → Prop}
    {P : Option EnclaveState → World → Prop} (h : ∀ w', w.Quiet w' → P (w.store.get? id) w') :
    Ends (system A) I P (storeCall (perform (.getEnclave id))) w := by
  rw [Ends, wpE_orFail, Prog.wp_perform]
  rintro (e | s) hr
  · obtain ⟨_, ⟨⟩⟩ := hA _ _ hr.2 rfl rfl
  · obtain rfl : s = w.store.get? id := hr.1
    exact h _ ((World.Quiet.refl w).next (c := .getEnclave id) rfl _)

/-- An event that confirms a success is appended. -/
theorem ends_confirm (hA : Confirmed A) {event : Uuid → DateTime → AuditEvent} {I : World → Prop}
    {P : Unit → World → Prop} (hevent : ∀ id at_, (event id at_).confirms = true)
    (h : ∀ w', w.Quiet w' → P () w') : Ends (system A) I P (appendEvent event) w := by
  intro id _ now _ r hr
  have hquiet := (((World.Quiet.refl w).next (c := .newUuid) rfl id).next (c := .now) rfl now).next
    (c := .appendEvent (event id now)) rfl r
  rcases r with e | _
  · cases hA _ _ hr.2 (hevent id now)
  · exact h _ hquiet

/-- Any other may be refused. -/
theorem ends_appendEvent {event : Uuid → DateTime → AuditEvent} {I : World → Prop}
    {P : Unit → World → Prop} (hI : ∀ w', w.Quiet w' → I w') (hP : ∀ w', w.Quiet w' → P () w') :
    Ends (system A) I P (appendEvent event) w :=
  wpE_appendEvent (fun w' hw' => hP w' hw') fun _ _ w' hw' => hI w' hw'

/-- The record at hand has every handle of the enclave, and the exports wired so far have the
names `names`. -/
structure UpToDate (host : Host) (enc : Enclave) (names : List String) (s : EnclaveState)
    (w : World) : Prop where
  id : s.desired.id = enc.id
  holds : Holds host (some s) (w.trace enc.id)
  wired : ∀ driver e x outputs existing result,
    (⟨.provisionExport driver e x outputs existing, .ok result⟩ : Event) ∈ w.trace enc.id →
    x.name ∈ names

section

variable {host : Host} {run : Run} {driver : Driver} {enc : Enclave} {part : Partition}
  {names : List String} {s s' : EnclaveState}

theorem UpToDate.quiet (h : UpToDate host enc names s w) (hw : w.Quiet w') :
    UpToDate host enc names s w' := by
  have htrace := (hw.sameView enc.id).trace
  exact ⟨h.id, by rw [htrace]; exact h.holds, by rw [htrace]; exact h.wired⟩

theorem UpToDate.sameHandles (h : UpToDate host enc names s w) (hid : s'.desired = s.desired)
    (hs : s.SameHandles s') : UpToDate host enc names s' w :=
  ⟨by rw [hid]; exact h.id, h.holds.sameHandles hs, h.wired⟩

/-- Written to the store, it is kept. -/
theorem kept_upsert (hid : s.desired.id = enc.id) (h : Holds host (some s) (w.trace enc.id)) :
    (w.next (.upsertEnclave s) (.ok ())).Kept host enc.id := by
  rw [World.Kept, World.trace_next_of_ne (by rintro ⟨⟩), World.next_store, World.nextStore,
    Store.get?_upsert, if_pos hid.symm]
  exact h

theorem UpToDate.upsert (h : UpToDate host enc names s w) :
    UpToDate host enc names s (w.next (.upsertEnclave s) (.ok ())) ∧
      (w.next (.upsertEnclave s) (.ok ())).Kept host enc.id := by
  have htrace : (w.next (.upsertEnclave s) (.ok ())).trace enc.id = w.trace enc.id :=
    World.trace_next_of_ne (by rintro ⟨⟩) w _
  exact ⟨⟨h.id, by rw [htrace]; exact h.holds, by rw [htrace]; exact h.wired⟩,
    kept_upsert h.id h.holds⟩

/-- A call about the enclave that is not the wiring of an export. -/
theorem UpToDate.next (h : UpToDate host enc names s w) {c : Call} {r : Resp c}
    (hc : c.subject = some enc.id) (hexport : c.isExport = false) (hid : s'.desired = s.desired)
    (hs : Holds host (some s') (⟨c, r⟩ :: w.trace enc.id)) :
    UpToDate host enc names s' (w.next c r) := by
  rw [← World.trace_next_of_subject hc] at hs
  refine ⟨by rw [hid]; exact h.id, hs, fun _ _ _ _ _ _ hmem => ?_⟩
  rw [World.trace_next_of_subject hc] at hmem
  refine h.wired _ _ _ _ _ _ ((List.mem_cons.mp hmem).resolve_left fun heq => ?_)
  cases heq
  cases hexport

theorem kept_next {c : Call} {r : Resp c} (h : w.Kept host enc.id) (hc : c.subject = some enc.id)
    (hwritten : c.written = none) (hr : Event.earns ⟨c, r⟩ = false) :
    (w.next c r).Kept host enc.id := by
  rw [World.Kept, World.trace_next_of_subject hc, World.next_store,
    World.get?_nextStore_of_ne (by rw [hwritten]; exact nofun)]
  exact h.cons hr

/-- The driver call and the Terraform run of a partition: a failure leaves the record stored. -/
theorem wp_applyPartition_kept (hA : OnlyAuditFails A) {inputs : HashMap String String}
    {existing : Option Handle} (h : UpToDate run.host enc names s w)
    (hkept : w.Kept run.host enc.id) :
    Prog.wp (system A) (applyPartition run driver enc part inputs existing s)
      (fun a w' => match a.2 with
        | .ok result => ∀ now,
          UpToDate run.host enc names (a.1.withApplied run part now result) w'
        | .error _ => UpToDate run.host enc names a.1 w' ∧ w'.Kept run.host enc.id) w := by
  rintro (e | sa) -
  · exact ⟨h.next rfl rfl rfl (h.holds.cons rfl), kept_next hkept rfl rfl rfl⟩
  rintro (e | ⟨⟩) hr
  · obtain ⟨_, ⟨⟩⟩ := hA _ _ hr.2 rfl rfl
  have hsa : UpToDate run.host enc names
      (s.updatePartition part ({ · with partitionHandle := some sa.handle }))
      (w.next (.provisionPartition driver enc part inputs existing) (.ok sa)) :=
    h.next rfl rfl rfl h.holds.sa
  obtain ⟨hstored, hkept'⟩ := hsa.upsert
  rintro (e | outputs) -
  · exact ⟨hstored.next rfl rfl rfl (hstored.holds.cons rfl), kept_next hkept' rfl rfl rfl⟩
  · intro now
    refine hstored.next rfl rfl rfl ?_
    have htrace : (w.next (.provisionPartition driver enc part inputs existing)
        (.ok sa)).trace enc.id = ⟨.provisionPartition driver enc part inputs existing, .ok sa⟩ ::
          w.trace enc.id := World.trace_next_of_subject rfl w _
    rw [show World.trace _ enc.id = _ from
      (World.trace_next_of_ne (c := .upsertEnclave _) nofun _ _).trans htrace]
    exact (h.holds.sa).tf

theorem ends_provisionPartition (hA : OnlyAuditFails A) (hC : Confirmed A)
    {acc : EnclaveState × List ReportError} (h : UpToDate run.host enc names acc.1 w) :
    Ends (system A) (World.Kept run.host enc.id)
      (fun acc' w' => UpToDate run.host enc names acc'.1 w')
      (provisionPartition run driver enc acc part) w := by
  simp only [provisionPartition]
  split
  · exact .pure h
  -- the record is stored in flight, so that whatever fails later finds it up to date
  have hflight : UpToDate run.host enc names (acc.1.withInFlight part) w :=
    h.sameHandles rfl EnclaveState.sameHandles_inFlight
  refine Ends.bind (ends_upsertEnclave hA (P := fun _ w' =>
    UpToDate run.host enc names (acc.1.withInFlight part) w' ∧ w'.Kept run.host enc.id)
    hflight.upsert) fun _ w₁ hend => ?_
  obtain ⟨hstored, hkept⟩ := hend
  refine Ends.bind (Ends.monadLift (wp_applyPartition_kept hA hstored hkept))
    fun applied w₂ happlied => ?_
  rcases applied with ⟨s, e | result⟩
  · have hquiet : ∀ now, w₂.Quiet (w₂.next .now now) := fun now =>
      (World.Quiet.refl w₂).next (c := .now) rfl now
    refine Ends.bind (Ends.monadLift (P := fun _ w' => w₂.Quiet w') fun now _ => hquiet now)
      fun now w₃ hw₃ => ?_
    refine Ends.bind (ends_appendEvent (P := fun _ w' => w₂.Quiet w')
      (fun w' hw' => happlied.2.quiet (hw₃.trans hw')) fun w' hw' => hw₃.trans hw')
      fun _ w₄ hw₄ => ?_
    exact .pure ((happlied.1.quiet hw₄).sameHandles rfl EnclaveState.sameHandles_failed)
  · refine Ends.bind (Ends.monadLift (P := fun _ w' => w₂.Quiet w') fun now _ =>
      (World.Quiet.refl w₂).next (c := .now) rfl now) fun now w₃ hw₃ => ?_
    refine Ends.bind (ends_confirm hC (P := fun _ w' => w₂.Quiet w') (fun _ _ => rfl)
      fun w' hw' => hw₃.trans hw') fun _ w₄ hw₄ => ?_
    exact .pure ((happlied now).quiet hw₄)

theorem ends_provisionExport (hC : Confirmed A) {acc : EnclaveState × List ReportError}
    {x : Export} (h : UpToDate run.host enc names acc.1 w) (hx : x.name ∉ names) :
    Ends (system A) (World.Kept run.host enc.id)
      (fun acc' w' => UpToDate run.host enc (names ++ [x.name]) acc'.1 w')
      (provisionExport driver enc acc x) w := by
  have hmore : ∀ {s : EnclaveState} {w : World}, UpToDate run.host enc names s w →
      UpToDate run.host enc (names ++ [x.name]) s w := fun h =>
    ⟨h.id, h.holds, fun _ _ _ _ _ _ hmem => List.mem_append_left _ (h.wired _ _ _ _ _ _ hmem)⟩
  refine Ends.bind (Ends.monadLift (P := fun r w' => w' = w.next (.provisionExport driver enc x
    (acc.1.outputsFor x) acc.1.exportHandles[x.name]?) r) fun r _ => rfl) ?_
  rintro (e | result) _ rfl
  · refine .pure ⟨h.id, ?_, fun _ _ _ _ _ _ hmem => ?_⟩
    · rw [World.trace_next_of_subject rfl]
      exact h.holds.cons rfl
    · rw [World.trace_next_of_subject rfl] at hmem
      exact (hmore h).wired _ _ _ _ _ _ ((List.mem_cons.mp hmem).resolve_left nofun)
  · have hwired : UpToDate run.host enc (names ++ [x.name])
        { acc.1 with exportHandles := acc.1.exportHandles.insert x.name result.handle }
        (w.next (.provisionExport driver enc x (acc.1.outputsFor x)
          acc.1.exportHandles[x.name]?) (.ok result)) := by
      refine ⟨h.id, ?_, fun _ _ y _ _ _ hmem => ?_⟩
      · rw [World.trace_next_of_subject rfl]
        refine h.holds.wired fun _ _ y _ _ _ hmem heq => hx ?_
        rw [← heq]
        exact h.wired _ _ _ _ _ _ hmem
      · rw [World.trace_next_of_subject rfl] at hmem
        rcases List.mem_cons.mp hmem with heq | hmem
        · cases heq
          exact List.mem_append_right _ (List.mem_singleton_self _)
        · exact (hmore h).wired _ _ _ _ _ _ hmem
    refine Ends.bind (ends_confirm hC (P := fun _ w' => World.Quiet _ w') (fun _ _ => rfl)
      fun _ hw' => hw') fun _ w₁ hw₁ => ?_
    exact .pure (hwired.quiet hw₁)

/-- **The visit of an enclave.** Before it the run has no handle of the enclave. -/
theorem provisionEnclave_kept (hA : OnlyAuditFails A) (hC : Confirmed A)
    (hnames : (enc.exports.map (·.name)).Nodup) (errors : List ReportError)
    (hfresh : ∀ ev ∈ w.trace enc.id, ev.earns = false) :
    Prog.wpE (system A) (provisionEnclave run errors enc)
      (fun _ w' => w'.Kept run.host enc.id) w := by
  rw [provisionEnclave]
  split
  · exact holds_of_not_earns hfresh
  rename_i driver _
  have hstart : UpToDate run.host enc [] (.inFlight run enc) w :=
    ⟨rfl, holds_of_not_earns hfresh, fun _ _ _ _ _ _ hmem => by cases hfresh _ hmem⟩
  refine Ends.wpE ?_
  refine Ends.bind (ends_upsertEnclave hA (P := fun _ w' =>
    (∀ ev ∈ w'.trace enc.id, ev.earns = false) ∧
      UpToDate run.host enc [] (.inFlight run enc) w') ⟨?_, hstart.upsert.1⟩)
    fun _ w₁ hend => ?_
  · rw [World.trace_next_of_ne (by rintro ⟨⟩)]
    exact hfresh
  obtain ⟨hfresh₁, hstored⟩ := hend
  refine Ends.bind (Ends.monadLift (P := fun r w' => w' = w₁.next (.provisionEnclave driver enc
    ((run.existing enc.id).bind (·.enclaveHandle))) r) fun r _ => rfl) ?_
  rintro (e | result) _ rfl
  · have hfailed : UpToDate run.host enc [] (.inFlight run enc) (w₁.next (.provisionEnclave driver
        enc ((run.existing enc.id).bind (·.enclaveHandle))) (.error e)) :=
      hstored.next rfl rfl rfl (hstored.holds.cons rfl)
    refine Ends.bind (Ends.monadLift (P := fun _ w' => World.Quiet _ w') fun now _ =>
      (World.Quiet.refl _).next (c := .now) rfl now) fun now w₂ hw₂ => ?_
    have hmarked : UpToDate run.host enc [] { EnclaveState.inFlight run enc with
        meta_ := (EnclaveState.inFlight run enc).meta_.markError now (toString e) } w₂ :=
      (hfailed.quiet hw₂).sameHandles rfl ⟨rfl, rfl, rfl, fun _ ps hps => ⟨ps, hps, rfl, rfl⟩⟩
    refine Ends.bind (ends_upsertEnclave hA (P := fun _ w' => w'.Kept run.host enc.id)
      hmarked.upsert.2) fun _ w₃ hkept => ?_
    exact Ends.bind (ends_appendEvent (P := fun _ w' => w'.Kept run.host enc.id)
      (fun w' hw' => hkept.quiet hw') fun w' hw' => hkept.quiet hw') fun _ w₄ hw₄ => .pure hw₄
  · refine Ends.bind (Ends.monadLift (P := fun _ w' => World.Quiet _ w') fun now _ =>
      (World.Quiet.refl _).next (c := .now) rfl now) fun now w₂ hw₂ => ?_
    have hprovisioned : UpToDate run.host enc [] { EnclaveState.inFlight run enc with
        enclaveHandle := some result.handle
        meta_ := (EnclaveState.inFlight run enc).meta_.markActive now (run.host.enclaveHash enc) }
        w₂ :=
      UpToDate.quiet (hstored.next rfl rfl rfl (.provisioned hfresh₁)) hw₂
    refine Ends.bind (Ends.foldlM (fun _ acc w' => UpToDate run.host enc [] acc.1 w')
      (fun _ part _ acc w' _ hacc => ends_provisionPartition hA hC hacc) hprovisioned)
      fun acc w₃ hacc => ?_
    let J (pre : List Export) (acc : EnclaveState × List ReportError) (w' : World) : Prop :=
      UpToDate run.host enc (pre.map (·.name)) acc.1 w'
    refine Ends.bind (Ends.foldlM J (fun pre x post acc w' hsplit hacc => ?_) hacc)
      fun acc w₄ hacc => ?_
    · dsimp only [J] at hacc ⊢
      rw [List.map_append]
      refine ends_provisionExport hC hacc fun hmem => ?_
      rw [hsplit, List.map_append, List.map_cons, List.nodup_append] at hnames
      exact hnames.2.2 _ hmem _ (List.mem_cons_self ..) rfl
    refine Ends.bind (ends_confirm hC (P := fun _ w' => World.Quiet _ w') (fun _ _ => rfl)
      fun _ hw' => hw') fun _ w₅ hw₅ => ?_
    exact Ends.bind (ends_upsertEnclave hA (P := fun _ w' => w'.Kept run.host enc.id)
      (hacc.quiet hw₅).upsert.2) fun _ w₆ hw₆ => .pure hw₆

/-! ## The wiring of an enclave -/

/-- The record that the loop of the imports works on. -/
structure WiringUpToDate (host : Host) (enc : Enclave) (acc : WiringState) (w : World) :
    Prop where
  id : acc.encState.desired.id = enc.id
  holds : Holds host (some acc.encState) (w.trace enc.id)
  stored : acc.changed = false → w.store.get? enc.id = some acc.encState

theorem WiringUpToDate.quiet {acc : WiringState} (h : WiringUpToDate host enc acc w)
    (hw : w.Quiet w') : WiringUpToDate host enc acc w' :=
  ⟨h.id, by rw [(hw.sameView enc.id).trace]; exact h.holds, by rw [hw.store]; exact h.stored⟩

theorem ends_wireImport (hA : OnlyAuditFails A) (hC : Confirmed A) {acc : WiringState}
    {im : Import} {I : World → Prop} (h : WiringUpToDate host enc acc w) :
    Ends (system A) I (WiringUpToDate host enc) (wireImport driver enc acc im) w := by
  rw [wireImport]
  split
  · exact .pure h
  rename_i hunbound
  have hnone : acc.encState.importHandles[im.alias_]? = none := by simpa using hunbound
  refine Ends.bind (ends_getEnclave hA (P := fun _ w' => w.Quiet w') fun _ hw' => hw')
    fun exporter w₁ hw₁ => ?_
  have h₁ := h.quiet hw₁
  split
  · exact .pure h₁
  rename_i xh _
  refine Ends.bind (Ends.monadLift (P := fun r w' => w' = w₁.next (.provisionImport driver enc im
    xh acc.encState.importHandles[im.alias_]?) r) fun r _ => rfl) ?_
  rintro (e | result) _ rfl
  · refine .pure ⟨h₁.id, ?_, h₁.stored⟩
    rw [World.trace_next_of_subject rfl]
    exact h₁.holds.cons rfl
  · refine Ends.bind (ends_confirm hC (P := fun _ w' => World.Quiet _ w') (fun _ _ => rfl)
      fun _ hw' => hw') fun _ w₂ hw₂ => ?_
    refine .pure ⟨h₁.id, ?_, by rintro ⟨⟩⟩
    rw [(hw₂.sameView enc.id).trace, World.trace_next_of_subject rfl]
    exact h₁.holds.bound hnone

theorem wireEnclave_kept (hA : OnlyAuditFails A) (hC : Confirmed A) (errors : List ReportError)
    (h : w.Kept host enc.id) :
    Prog.wpE (system A) (wireEnclave run errors enc) (fun _ w' => w'.Kept host enc.id) w := by
  rw [wireEnclave]
  split
  · exact h
  refine Ends.wpE (Ends.bind (ends_getEnclave hA
    (P := fun stored w' => w.Quiet w' ∧ stored = w.store.get? enc.id) fun _ hw' => ⟨hw', rfl⟩) ?_)
  rintro (_ | s) w₁ ⟨hw₁, hstored⟩
  · exact .pure (h.quiet hw₁)
  have hkept := h.quiet hw₁
  rw [World.Kept, hw₁.store, ← hstored] at hkept
  have hstart : ∀ errors, WiringUpToDate host enc { encState := s, changed := false, errors } w₁ :=
    fun _ => ⟨Store.id_of_get? hstored.symm, hkept, fun _ => by rw [hw₁.store, hstored]⟩
  refine Ends.bind (Ends.foldlM (fun _ => WiringUpToDate host enc)
    (fun _ im _ acc w' _ hacc => ends_wireImport hA hC hacc) (hstart errors)) fun acc w₂ hacc => ?_
  split
  · exact Ends.bind (ends_upsertEnclave hA (P := fun _ w' => w'.Kept host enc.id)
      (kept_upsert hacc.id hacc.holds)) fun _ w₃ hw₃ => .pure hw₃
  · refine .pure ?_
    rename_i hchanged
    rw [World.Kept, hacc.stored (by simpa using hchanged)]
    exact hacc.holds

end

/-! ## The run -/

variable {host : Host} {req : ReconcileRequest} {registry : DriverRegistry}
  {desired : List Enclave} {run : Run}

/-- What only teardowns were made in has no handle to lose. -/
theorem wpE_teardownPass_fresh {removed : List EnclaveId}
    (hkeyed : ∀ id s, run.existing id = some s → s.desired.id = id)
    (hw : ∀ ev ∈ w.log, ev.earns = false) :
    Prog.wpE (system A) (teardownPass run removed)
      (fun _ w' => ∀ ev ∈ w'.log, ev.earns = false) w := by
  refine Prog.Keeps.foldlM (I := fun w : World => ∀ ev ∈ w.log, ev.earns = false)
    (fun errors id _ => ?_) [] hw
  refine (teardownRemoved_calls (hkeyed id) errors).keeps _ fun w c r hc _ h ev hev => ?_
  rcases List.mem_cons.mp hev with rfl | hev
  · rcases hc with hc | rfl
    · cases hc <;> rfl
    · rfl
  · exact h ev hev

theorem wpE_provisionPass_kept (hA : OnlyAuditFails A) (hC : Confirmed A) {ordered : List Enclave}
    (hnodup : (ordered.map (·.id)).Nodup)
    (hnames : ∀ enc ∈ ordered, (enc.exports.map (·.name)).Nodup) (errors : List ReportError)
    (hw : ∀ ev ∈ w.log, ev.earns = false) :
    Prog.wpE (system A) (provisionPass run ordered errors)
      (fun _ w' => ∀ id, w'.Kept run.host id) w := by
  let J (pre : List Enclave) (_ : List ReportError) (w' : World) : Prop :=
    (∀ id, w'.Kept run.host id) ∧ ∀ id, id ∉ pre.map (·.id) → w.SameView id w'
  have hloop : Ends (system A) (fun w' => ∀ id, World.Kept run.host id w') (J ordered)
      (provisionPass run ordered errors) w := by
    refine Ends.foldlM J ?_ ⟨fun id => holds_of_not_earns fun ev hev =>
      hw ev (World.mem_trace.mp hev).1, fun id _ => .refl id w⟩
    rintro pre x post errors' w₁ hsplit ⟨hkept, hview⟩
    have hx : x.id ∉ pre.map (·.id) := by
      rw [hsplit, List.map_append, List.map_cons, List.nodup_append] at hnodup
      exact fun hmem => hnodup.2.2 _ hmem _ (List.mem_cons_self ..) rfl
    have hfresh : ∀ ev ∈ w₁.trace x.id, ev.earns = false := by
      rw [(hview x.id hx).trace]
      exact fun ev hev => hw ev (World.mem_trace.mp hev).1
    refine Prog.wp_iff.mpr fun r w₂ hrun => ?_
    have hothers : ∀ id, id ≠ x.id → w₁.SameView id w₂ := fun id hid =>
      hrun.wp (sameView_provisionEnclave (A := A) hid errors' w₁ (.refl id w₁))
    have hkept₂ : ∀ id, w₂.Kept run.host id := by
      intro id
      by_cases hid : id = x.id
      · rw [hid]
        exact hrun.wp (provisionEnclave_kept hA hC (hnames x (by simp [hsplit])) errors' hfresh)
      · exact (hkept id).sameView (hothers id hid)
    cases r with
    | error e => exact hkept₂
    | ok errors₂ =>
      refine ⟨hkept₂, fun id hid => ?_⟩
      rw [List.map_append, List.mem_append, not_or] at hid
      exact (hview id hid.1).trans (hothers id (by simpa using hid.2))
  exact Ends.wpE (hloop.mono (fun _ h => h) fun _ _ h => h.1)

theorem keeps_wiringPass_kept (hA : OnlyAuditFails A) (hC : Confirmed A) {ordered : List Enclave}
    (errors : List ReportError) :
    Prog.Keeps (system A) (fun w => ∀ id, World.Kept host id w)
      (wiringPass run ordered errors) := by
  refine Prog.Keeps.foldlM (fun errors enc _ w hw => ?_) errors
  refine Prog.wp_iff.mpr fun r w' hrun id => ?_
  by_cases hid : id = enc.id
  · rw [hid]
    exact hrun.wp (wireEnclave_kept hA hC errors (hw enc.id))
  · exact (hw id).sameView (hrun.wp (sameView_wireEnclave (A := A) hid errors w (.refl id w)))

/-- **No handle is lost when the run returns**, with a report or with an error, if none of the
events that confirm a success is refused and no enclave declares two exports of one name. -/
theorem handles_kept_of_confirmed (hA : OnlyAuditFails A) (hC : Confirmed A)
    (hlawful : host.topo.Lawful) (hdry : req.dryRun = false)
    (hnodup : (desired.map (·.id)).Nodup)
    (hnames : ∀ enc ∈ desired, (enc.exports.map (·.name)).Nodup) {st : Store}
    {r : Except ReconcileError ReconcileReport} {w' : World}
    (hrun : Prog.Exec (system A) (reconcileLoaded host req registry desired).run (.ofStore st)
      r w') (id : EnclaveId) : w'.Kept host id := by
  have hkeeps := hrun.wp (wpE_reconcileLoaded_keeps (I := fun w => ∀ id, World.Kept host id w)
    (J := fun _ _ => True) hdry (fun _ _ hw hquiet id => (hw id).quiet hquiet)
    (fun _ _ _ _ _ => trivial) ?_ fun id => holds_of_not_earns fun ev hev => absurd hev ?_)
  · exact hkeeps.1 id
  · intro run resolved removed w₁ hstart hquiet _
    have hperm := orderedDesired_perm hlawful hstart.valid hnodup
    have hfresh : ∀ ev ∈ w₁.log, ev.earns = false := by
      obtain ⟨evs, hlog, hevs⟩ := hquiet.log
      rw [hlog]
      intro ev hev
      have hev' := hevs ev (by simpa [World.ofStore] using hev)
      obtain ⟨c, r⟩ := ev
      cases c <;> first | rfl | cases hev'
    have hpasses : Prog.wpE (system A) (passes run removed (orderedDesired resolved desired))
        (fun _ w'' => ∀ id, w''.Kept run.host id) w₁ := by
      rw [passes, Prog.wpE_bind]
      refine Prog.wpE_mono (wpE_teardownPass_fresh (fun _ _ => hstart.keyed) hfresh)
        fun r w₂ hw₂ => ?_
      rcases r with e | errors
      · exact fun id => holds_of_not_earns fun ev hev => hw₂ ev (World.mem_trace.mp hev).1
      rw [Prog.onOk_ok, Prog.wpE_bind]
      refine Prog.wpE_mono (wpE_provisionPass_kept hA hC ((hperm.map _).nodup_iff.mpr hnodup)
        (fun enc henc => hnames enc (hperm.mem_iff.mp henc)) errors hw₂) fun r w₃ hw₃ => ?_
      rcases r with e | errors
      · exact hw₃
      exact keeps_wiringPass_kept hA hC errors hw₃
    rw [hstart.host_eq] at hpasses
    exact Prog.wpE_mono hpasses fun _ _ h => ⟨h, fun _ _ => trivial⟩
  · exact List.not_mem_nil

end

/-- A first run of a list, its calls answered by `o`. -/
def firstRun (o : (w : World) → (c : Call) → Resp c) (desired : List Enclave) :
    Except ReconcileError ReconcileReport × World :=
  Prog.run World.next o (reconcileLoaded plainHost .default gcpOnly desired).run (.ofStore .empty)

theorem exec_firstRun {A : (c : Call) → Resp c → Prop} {o : (w : World) → (c : Call) → Resp c}
    (ho : ∀ w c, answers w c (o w c) ∧ A c (o w c)) (desired : List Enclave) :
    Prog.Exec (system A) (reconcileLoaded plainHost .default gcpOnly desired).run
      (.ofStore .empty) (firstRun o desired).1 (firstRun o desired).2 :=
  Prog.exec_run (M := system A) ho _ _

/-- Terraform fails, and the event that says so is refused. -/
def speechless (w : World) : (c : Call) → Resp c
  | .tfProvision tf _ part _ _ _ =>
    if tf.testMode then .ok (TerraformBackend.testOutputs part)
    else .error (.provisionFailed "quota")
  | .appendEvent (.partitionError _ _ _ _ _) => .error (.internal "disk full")
  | c => okAnswer w c

/-- The service account of the partition is stored although the run fails right after it. -/
theorem sa_handle_kept : ∃ e w', Prog.Exec (system fun c r => ∃ w, r = speechless w c)
      (reconcileLoaded plainHost .default gcpOnly [exporter]).run (.ofStore .empty) (.error e) w' ∧
    w'.Kept plainHost ⟨"a"⟩ ∧
    lastStep plainHost ⟨"p"⟩ (w'.trace ⟨"a"⟩) = some ⟨.null, none⟩ := by
  have hrun := exec_firstRun (A := fun c r => ∃ w, r = speechless w c) (o := speechless)
    (fun w c => ?_) [exporter]
  · obtain ⟨e, he⟩ : ∃ e, (firstRun speechless [exporter]).1 = .error e := ⟨_, rfl⟩
    rw [he] at hrun
    refine ⟨e, _, hrun, handles_kept_of_confirmed ?_ ?_ Topo.kahn_lawful rfl (by decide)
      (by decide) hrun ⟨"a"⟩, rfl⟩
    · rintro c _ ⟨w, rfl⟩ hstore hfailed
      cases c with
      | appendEvent event => exact ⟨event, rfl⟩
      | _ => first | cases hfailed | cases hstore
    · rintro event _ ⟨w, rfl⟩ hconfirms
      cases event with
      | partitionError => cases hconfirms
      | _ => rfl
  · refine ⟨?_, w, rfl⟩
    cases c with
    | tfProvision => exact fun htest => if_pos htest
    | appendEvent => trivial
    | _ => exact answers_okAnswer w _

/-- The event that confirms an enclave is refused. -/
def unconfirmed (w : World) : (c : Call) → Resp c
  | .appendEvent (.enclaveProvisioned _ _ _) => .error (.internal "disk full")
  | c => okAnswer w c

/-- The answers with which any audit event may be refused, and no other call of the store. -/
def auditMayFail (c : Call) (r : Resp c) : Prop :=
  c.isStore = true → failed c r = true → ∃ event, c = .appendEvent event

/-- The handle of a new enclave is gone where its event is refused: the driver returned it, the
run ended, and the record has none. -/
theorem enclave_handle_lost : ∃ e w', OnlyAuditFails auditMayFail ∧
    (∃ resolved, validate plainHost.topo [plainEnclave "a" [] []] = .ok resolved) ∧
    Prog.Exec (system auditMayFail)
      (reconcileLoaded plainHost .default gcpOnly [plainEnclave "a" [] []]).run (.ofStore .empty)
      (.error e) w' ∧
    (w'.store.get? ⟨"a"⟩).map (·.enclaveHandle) = some none ∧ ¬ w'.Kept plainHost ⟨"a"⟩ := by
  have hrun := exec_firstRun (A := auditMayFail) (o := unconfirmed)
    (fun w c => ?_) [plainEnclave "a" [] []]
  · obtain ⟨e, he⟩ : ∃ e, (firstRun unconfirmed [plainEnclave "a" [] []]).1 = .error e := ⟨_, rfl⟩
    rw [he] at hrun
    refine ⟨e, _, fun c r h => h, ⟨_, rfl⟩, hrun, by decide +kernel, fun hkept => ?_⟩
    have hhandle := hkept.enclave plainDriver (plainEnclave "a" [] []) none ⟨.null, ∅⟩
      (List.mem_cons_self ..)
    cases hhandle
  · cases c with
    | appendEvent event => exact ⟨trivial, fun _ _ => ⟨event, rfl⟩⟩
    | _ => exact ⟨answers_okAnswer w _, fun _ h => by cases h⟩

/-- The driver gives every export a handle of its own. -/
def numbered (w : World) : (c : Call) → Resp c
  | .provisionExport _ _ x _ existing =>
    .ok ⟨if existing.isSome then .str "other" else .str x.name, ∅⟩
  | c => okAnswer w c

/-- And of two exports of one name the first is lost, in a run without any failure. -/
theorem twin_export_lost : ∃ report w', Prog.Exec (system allOk)
      (reconcileLoaded plainHost .default gcpOnly
        [plainEnclave "a" [plainExport "x" .anyEnclave, plainExport "x" .anyEnclave] []]).run
      (.ofStore .empty) (.ok report) w' ∧ report.errors = [] ∧ ¬ w'.Kept plainHost ⟨"a"⟩ := by
  have hrun := exec_firstRun (A := allOk) (o := numbered) (fun w c => ?_)
    [plainEnclave "a" [plainExport "x" .anyEnclave, plainExport "x" .anyEnclave] []]
  · obtain ⟨report, hreport, herrors⟩ : ∃ report, (firstRun numbered
        [plainEnclave "a" [plainExport "x" .anyEnclave, plainExport "x" .anyEnclave] []]).1 =
          .ok report ∧ report.errors = [] := ⟨_, rfl, rfl⟩
    rw [hreport] at hrun
    refine ⟨report, _, hrun, herrors, fun hkept => ?_⟩
    have hhandle := hkept.exports plainDriver
      (plainEnclave "a" [plainExport "x" .anyEnclave, plainExport "x" .anyEnclave] [])
      (plainExport "x" .anyEnclave) ∅ none ⟨.str "x", ∅⟩ (List.mem_of_getElem? (i := 1) rfl)
    revert hhandle
    decide +kernel
  · cases c with
    | provisionExport => exact ⟨trivial, rfl⟩
    | _ => exact ⟨answers_okAnswer w _, allOk_okAnswer w _⟩

end Nclav
