import Nclav.Guarantees.WellFormed

/-!
# The audit trail of a run

What drivers and Terraform came to in a run is told by audit events: each outcome is followed by its
event before the next call that has one. So wherever a run is cut off the trail is behind by one
outcome at most, and the trail of a run that reports is complete, between the event that starts it
and the one that ends it.
-/

namespace Nclav

open Effect

/-! ## Outcomes -/

/-- What an audit event tells, without its id and time. -/
inductive Outcome : Type where
  | partitionProvisioned (enclaveId : EnclaveId) (partitionId : PartitionId)
  | exportWired (enclaveId : EnclaveId) (exportName : String)
  | importWired (importerEnclave : EnclaveId) (exportName : String)
  | enclaveError (enclaveId : EnclaveId) (message : String)
  | partitionError (enclaveId : EnclaveId) (partitionId : PartitionId) (message : String)
  deriving DecidableEq

/-- What the answer to a call comes to. -/
def outcomeOf : (c : Call) → Resp c → Option Outcome
  | .provisionEnclave _ enc _, .error e => some (.enclaveError enc.id (toString e))
  | .provisionPartition _ enc part _ _, .error e =>
    some (.partitionError enc.id part.id (toString e))
  | .tfProvision _ enc part _ _ _, .ok _ => some (.partitionProvisioned enc.id part.id)
  | .tfProvision _ enc part _ _ _, .error e => some (.partitionError enc.id part.id (toString e))
  | .provisionExport _ enc ex _ _, .ok _ => some (.exportWired enc.id ex.name)
  | .provisionImport _ importer im _ _, .ok _ => some (.importWired importer.id im.exportName)
  | _, _ => none

def AuditEvent.outcome : AuditEvent → Option Outcome
  | .partitionProvisioned _ _ enclaveId partitionId =>
    some (.partitionProvisioned enclaveId partitionId)
  | .exportWired _ _ enclaveId exportName => some (.exportWired enclaveId exportName)
  | .importWired _ _ importerEnclave exportName => some (.importWired importerEnclave exportName)
  | .enclaveError _ _ enclaveId message => some (.enclaveError enclaveId message)
  | .partitionError _ _ enclaveId partitionId message =>
    some (.partitionError enclaveId partitionId message)
  | .reconcileStarted _ _ _ | .reconcileCompleted _ _ _ _ | .enclaveProvisioned _ _ _ => none

/-- The event starts or ends a run. -/
def AuditEvent.frames : AuditEvent → Bool
  | .reconcileStarted _ _ _ | .reconcileCompleted _ _ _ _ => true
  | _ => false

/-- The audit event that a call has appended. -/
def appended : (c : Call) → Resp c → Option AuditEvent
  | .appendEvent event, .ok _ => some event
  | _, _ => none

/-- What came of the calls, newest first. -/
def callOutcomes (evs : List Event) : List Outcome := evs.filterMap fun ev => outcomeOf ev.1 ev.2

/-- The audit events appended, newest first. -/
def auditEvents (evs : List Event) : List AuditEvent := evs.filterMap fun ev => appended ev.1 ev.2

/-- What the appended events tell, newest first. -/
def told (evs : List Event) : List Outcome := (auditEvents evs).filterMap (·.outcome)

/-- Whatever is told has happened, in this order, and what has happened is told but for the
outcome `owed`. -/
def Owes (owed : Option Outcome) (evs : List Event) : Prop :=
  callOutcomes evs = owed.toList ++ told evs

/-- The calls since `w`, `owed` being the outcome to be told next: at every point before them the
trail was behind by one outcome at most, and none of their events starts or ends a run. -/
structure World.Trails (w w' : World) (owed : Option Outcome) : Prop where
  since : ∃ evs, w'.log = evs ++ w.log ∧ Owes owed evs ∧
    (∀ l, l <:+ evs → ∃ owed, Owes owed l) ∧ ∀ event ∈ auditEvents evs, event.frames = false

/-- The trail is behind by one outcome at most. -/
def World.Trailing (w w' : World) : Prop := ∃ owed, w.Trails w' owed

/-! ## Steps -/

section

variable {w w' : World} {owed : Option Outcome} {o : Outcome}

@[simp] theorem callOutcomes_cons (ev : Event) (evs : List Event) :
    callOutcomes (ev :: evs) = (outcomeOf ev.1 ev.2).toList ++ callOutcomes evs := by
  rw [callOutcomes, List.filterMap_cons]
  cases outcomeOf ev.1 ev.2 <;> rfl

@[simp] theorem auditEvents_cons (ev : Event) (evs : List Event) :
    auditEvents (ev :: evs) = (appended ev.1 ev.2).toList ++ auditEvents evs := by
  rw [auditEvents, List.filterMap_cons]
  cases appended ev.1 ev.2 <;> rfl

theorem told_cons (ev : Event) (evs : List Event) :
    told (ev :: evs) = ((appended ev.1 ev.2).bind (·.outcome)).toList ++ told evs := by
  rw [told, auditEvents_cons, List.filterMap_append]
  rcases appended ev.1 ev.2 with _ | event
  · rfl
  · show [event].filterMap (·.outcome) ++ told evs = _
    rw [List.filterMap_cons]
    cases h : event.outcome <;> simp [h]

theorem World.Trails.refl (w : World) : w.Trails w none := by
  refine ⟨[], rfl, rfl, fun l hl => ⟨none, ?_⟩, fun _ h => absurd h List.not_mem_nil⟩
  rw [List.suffix_nil.mp hl]
  rfl

/-- One more call. -/
theorem World.Trails.next (h : w.Trails w' owed) {c : Call} {r : Resp c} {owed' : Option Outcome}
    (howes : (outcomeOf c r).toList ++ owed.toList =
      owed'.toList ++ ((appended c r).bind (·.outcome)).toList)
    (hframe : ∀ event, appended c r = some event → event.frames = false) :
    w.Trails (w'.next c r) owed' := by
  obtain ⟨evs, hlog, howed, hpast, hframes⟩ := h
  have howed' : Owes owed' (⟨c, r⟩ :: evs) := by
    rw [Owes, callOutcomes_cons, told_cons, howed, ← List.append_assoc, howes, List.append_assoc]
  refine ⟨⟨c, r⟩ :: evs, ?_, howed', fun l hl => ?_, fun event hevent => ?_⟩
  · rw [next_log, hlog, List.cons_append]
  · rcases List.suffix_cons_iff.mp hl with rfl | hl
    · exact ⟨owed', howed'⟩
    · exact hpast l hl
  · rw [auditEvents_cons, List.mem_append, Option.mem_toList] at hevent
    rcases hevent with hevent | hevent
    · exact hframe event hevent
    · exact hframes event hevent

/-- A call of which nothing comes. -/
theorem World.Trails.silent (h : w.Trails w' owed) {c : Call} {r : Resp c}
    (hnone : outcomeOf c r = none) (hevent : appended c r = none) :
    w.Trails (w'.next c r) owed := by
  refine h.next ?_ fun event he => ?_
  · rw [hnone, hevent, Option.bind_none, Option.toList_none, List.nil_append, List.append_nil]
  · rw [hevent] at he
    cases he

/-- A call with an outcome, which is to be told next. -/
theorem World.Trails.owe (h : w.Trails w' none) {c : Call} {r : Resp c}
    (hsome : outcomeOf c r = some o) (hevent : appended c r = none) :
    w.Trails (w'.next c r) (some o) := by
  refine h.next ?_ fun event he => ?_
  · rw [hsome, hevent, Option.bind_none, Option.toList_none]
  · rw [hevent] at he
    cases he

/-- The event that tells what is owed. -/
theorem World.Trails.tell (h : w.Trails w' owed) {event : AuditEvent} (htold : event.outcome = owed)
    (hframe : event.frames = false) : w.Trails (w'.next (.appendEvent event) (.ok ())) none := by
  refine h.next ?_ fun event' he => ?_
  · rw [show appended (.appendEvent event) (.ok ()) = some event from rfl, Option.bind_some, htold]
    rfl
  · rw [← Option.some.inj he]
    exact hframe

end

/-! ## The parts of a run -/

section

variable {A : (c : Call) → Resp c → Prop} {run : Run} {driver : Driver} {enc : Enclave}
  {w w₁ : World} {owed : Option Outcome}

/-- An event that tells what is owed. -/
theorem ensures_appendEvent_tells {event : Uuid → DateTime → AuditEvent} (h : w.Trails w₁ owed)
    (htold : ∀ id at_, (event id at_).outcome = owed)
    (hframe : ∀ id at_, (event id at_).frames = false) :
    Prog.Ensures (system A) w.Trailing (fun _ w₂ => w.Trails w₂ none) (appendEvent event) w₁ := by
  intro id _ now _ r _
  have h₁ := (h.silent (c := .newUuid) (r := id) rfl rfl).silent (c := .now) (r := now) rfl rfl
  cases r with
  | error e =>
    refine ⟨⟨owed, h₁.silent rfl rfl⟩, ?_⟩
    rintro _ ⟨⟩
  | ok _ =>
    have h₂ := h₁.tell (htold id now) (hframe id now)
    exact ⟨⟨none, h₂⟩, fun _ _ => h₂⟩

theorem ensures_upsertEnclave_trails {s : EnclaveState} (h : w.Trails w₁ owed) :
    Prog.Ensures (system A) w.Trailing (fun _ w₂ => w.Trails w₂ owed) (upsertEnclave s) w₁ :=
  (ensures_upsertEnclave fun r => ⟨owed, h.silent rfl rfl⟩).mono fun _ _ _ hw₂ => by
    rw [hw₂]
    exact h.silent rfl rfl

/-- What comes of the provisioning of an enclave. -/
def enclaveOutcome (enc : Enclave) : Except DriverError ProvisionResult → Option Outcome
  | .ok _ => none
  | .error e => some (.enclaveError enc.id (toString e))

/-- The outcome that is recorded of a partition. -/
def partitionOutcome (enc : Enclave) (part : Partition) : Except String ProvisionResult → Outcome
  | .ok _ => .partitionProvisioned enc.id part.id
  | .error msg => .partitionError enc.id part.id msg

theorem wp_applyPartition_trails {part : Partition} {inputs : HashMap String String}
    {existing : Option Handle} {s : EnclaveState} (h : w.Trails w₁ none) :
    Prog.wp (system A) (applyPartition run driver enc part inputs existing s)
      (fun a w₂ => w.Trails w₂ (some (partitionOutcome enc part a.2))) w₁ := by
  rintro (e | sa) -
  · exact h.owe (c := .provisionPartition driver enc part inputs existing) rfl rfl
  intro r _
  have h₁ := (h.silent (c := .provisionPartition driver enc part inputs existing) (r := .ok sa)
    rfl rfl).silent (c := .upsertEnclave _) (r := r) rfl rfl
  rintro (e | outputs) -
  · exact h₁.owe (c := .tfProvision _ enc part inputs _ _) rfl rfl
  · exact h₁.owe (c := .tfProvision _ enc part inputs _ _) rfl rfl

theorem ensures_provisionPartition_trails (part : Partition)
    (acc : EnclaveState × List ReportError) (h : w.Trails w₁ none) :
    Prog.Ensures (system A) w.Trailing (fun _ w₂ => w.Trails w₂ none)
      (provisionPartition run driver enc acc part) w₁ := by
  simp only [provisionPartition]
  split
  · exact Prog.Ensures.pure ⟨none, h⟩ h
  refine (ensures_upsertEnclave_trails h).bind fun _ w₂ _ h₂ => ?_
  refine (Prog.Ensures.monadLift (Prog.wp_mono (wp_applyPartition_trails h₂)
    fun _ _ h => ⟨⟨_, h⟩, h⟩)).bind fun a w₃ _ h₃ => ?_
  rw [recordPartition]
  refine (ensures_perform (P := fun _ w₄ => w.Trails w₄ (some (partitionOutcome enc part a.2)))
    fun now _ _ => ⟨⟨_, h₃.silent rfl rfl⟩, h₃.silent rfl rfl⟩).bind fun now w₄ _ h₄ => ?_
  split
  · rename_i result hresult
    rw [hresult] at h₄
    exact (ensures_appendEvent_tells h₄ (fun _ _ => rfl) fun _ _ => rfl).bind
      fun _ w₅ hw₅ h₅ => Prog.Ensures.pure hw₅ h₅
  · rename_i msg hresult
    rw [hresult] at h₄
    exact (ensures_appendEvent_tells h₄ (fun _ _ => rfl) fun _ _ => rfl).bind
      fun _ w₅ hw₅ h₅ => Prog.Ensures.pure hw₅ h₅

theorem ensures_provisionExport_trails (ex : Export) (acc : EnclaveState × List ReportError)
    (h : w.Trails w₁ none) :
    Prog.Ensures (system A) w.Trailing (fun _ w₂ => w.Trails w₂ none)
      (provisionExport driver enc acc ex) w₁ := by
  rw [provisionExport]
  refine Prog.Ensures.bind (P := fun r w₂ => w.Trails w₂
    (r.toOption.map fun _ => .exportWired enc.id ex.name)) (ensures_perform fun r _ _ => ?_)
    fun r w₂ _ h₂ => ?_
  · cases r with
    | error e => exact ⟨⟨none, h.silent rfl rfl⟩, h.silent rfl rfl⟩
    | ok result => exact ⟨⟨_, h.owe rfl rfl⟩, h.owe rfl rfl⟩
  cases r with
  | error e => exact Prog.Ensures.pure ⟨none, h₂⟩ h₂
  | ok result =>
    exact (ensures_appendEvent_tells h₂ (fun _ _ => rfl) fun _ _ => rfl).bind
      fun _ w₃ hw₃ h₃ => Prog.Ensures.pure hw₃ h₃

theorem ensures_provisionEnclave_trails (errors : List ReportError) (enc : Enclave)
    (h : w.Trails w₁ none) :
    Prog.Ensures (system A) w.Trailing (fun _ w₂ => w.Trails w₂ none)
      (provisionEnclave run errors enc) w₁ := by
  rw [provisionEnclave]
  split
  · exact Prog.Ensures.pure ⟨none, h⟩ h
  refine (ensures_upsertEnclave_trails h).bind fun _ w₂ _ h₂ => ?_
  refine Prog.Ensures.bind (P := fun r w₃ => w.Trails w₃ (enclaveOutcome enc r))
    (ensures_perform fun r _ _ => ?_) fun r w₃ _ h₃ => ?_
  · cases r with
    | error e => exact ⟨⟨_, h₂.owe rfl rfl⟩, h₂.owe rfl rfl⟩
    | ok result => exact ⟨⟨none, h₂.silent rfl rfl⟩, h₂.silent rfl rfl⟩
  refine (ensures_perform (P := fun _ w₄ => w.Trails w₄ _) fun now _ _ =>
    ⟨⟨_, h₃.silent rfl rfl⟩, h₃.silent rfl rfl⟩).bind fun now w₄ _ h₄ => ?_
  cases r with
  | error e =>
    refine (ensures_upsertEnclave_trails h₄).bind fun _ w₅ _ h₅ => ?_
    exact (ensures_appendEvent_tells h₅ (fun _ _ => rfl) fun _ _ => rfl).bind
      fun _ w₆ hw₆ h₆ => Prog.Ensures.pure hw₆ h₆
  | ok result =>
    refine (Prog.Ensures.foldlM (fun _ _ w₅ => w.Trails w₅ none)
      (fun _ part _ acc w₅ _ _ h₅ => ensures_provisionPartition_trails part acc h₅)
      ⟨none, h₄⟩ h₄).bind fun acc w₅ hw₅ h₅ => ?_
    refine (Prog.Ensures.foldlM (fun _ _ w₆ => w.Trails w₆ none)
      (fun _ ex _ acc w₆ _ _ h₆ => ensures_provisionExport_trails ex acc h₆) hw₅ h₅).bind
      fun acc w₆ _ h₆ => ?_
    refine (ensures_appendEvent_tells h₆ (fun _ _ => rfl) fun _ _ => rfl).bind
      fun _ w₇ _ h₇ => ?_
    exact (ensures_upsertEnclave_trails h₇).bind fun _ w₈ hw₈ h₈ => Prog.Ensures.pure hw₈ h₈

theorem ensures_getEnclave_trails {id : EnclaveId} (h : w.Trails w₁ none) :
    Prog.Ensures (system A) w.Trailing (fun _ w₂ => w.Trails w₂ none)
      (storeCall (perform (.getEnclave id))) w₁ := by
  intro r _
  have h₂ : w.Trails (w₁.next (.getEnclave id) r) none := h.silent rfl rfl
  exact ⟨⟨none, h₂⟩, fun _ _ => h₂⟩

theorem ensures_wireImport_trails (im : Import) (acc : WiringState) (h : w.Trails w₁ none) :
    Prog.Ensures (system A) w.Trailing (fun _ w₂ => w.Trails w₂ none)
      (wireImport driver enc acc im) w₁ := by
  rw [wireImport]
  split
  · exact Prog.Ensures.pure ⟨none, h⟩ h
  refine (ensures_getEnclave_trails h).bind fun exporter w₂ hw₂ h₂ => ?_
  split
  · exact Prog.Ensures.pure hw₂ h₂
  refine Prog.Ensures.bind (P := fun r w₃ => w.Trails w₃
    (r.toOption.map fun _ => .importWired enc.id im.exportName)) (ensures_perform fun r _ _ => ?_)
    fun r w₃ _ h₃ => ?_
  · cases r with
    | error e => exact ⟨⟨none, h₂.silent rfl rfl⟩, h₂.silent rfl rfl⟩
    | ok result => exact ⟨⟨_, h₂.owe rfl rfl⟩, h₂.owe rfl rfl⟩
  cases r with
  | error e => exact Prog.Ensures.pure ⟨none, h₃⟩ h₃
  | ok result =>
    exact (ensures_appendEvent_tells h₃ (fun _ _ => rfl) fun _ _ => rfl).bind
      fun _ w₄ hw₄ h₄ => Prog.Ensures.pure hw₄ h₄

theorem ensures_wireEnclave_trails (errors : List ReportError) (enc : Enclave)
    (h : w.Trails w₁ none) :
    Prog.Ensures (system A) w.Trailing (fun _ w₂ => w.Trails w₂ none)
      (wireEnclave run errors enc) w₁ := by
  rw [wireEnclave]
  split
  · exact Prog.Ensures.pure ⟨none, h⟩ h
  refine (ensures_getEnclave_trails h).bind fun stored w₂ hw₂ h₂ => ?_
  split
  · exact Prog.Ensures.pure hw₂ h₂
  refine (Prog.Ensures.foldlM (fun _ _ w₃ => w.Trails w₃ none)
    (fun _ im _ acc w₃ _ _ h₃ => ensures_wireImport_trails im acc h₃) hw₂ h₂).bind
    fun acc w₃ hw₃ h₃ => ?_
  split
  · exact (ensures_upsertEnclave_trails h₃).bind fun _ w₄ hw₄ h₄ => Prog.Ensures.pure hw₄ h₄
  · exact Prog.Ensures.pure hw₃ h₃

/-- Of a teardown nothing is told. -/
theorem ensures_teardownRemoved_trails {id : EnclaveId}
    (hkeyed : ∀ s, run.existing id = some s → s.desired.id = id) (errors : List ReportError)
    (h : w.Trails w₁ none) :
    Prog.Ensures (system A) w.Trailing (fun _ w₂ => w.Trails w₂ none)
      (teardownRemoved run errors id) w₁ := by
  have hsilent : ∀ c, c.TearsDown id ∨ c = .deleteEnclave id →
      ∀ r : Resp c, outcomeOf c r = none ∧ appended c r = none := by
    rintro c (hc | rfl) r
    · cases hc <;> exact ⟨rfl, rfl⟩
    · exact ⟨rfl, rfl⟩
  refine Prog.wpE_mono ((teardownRemoved_calls hkeyed errors).wpE (I := fun w₂ => w.Trails w₂ none)
    (fun w₂ c r hc _ h₂ => h₂.silent (hsilent c hc r).1 (hsilent c hc r).2) h)
    fun r w₂ h₂ => ⟨⟨none, h₂.2⟩, fun _ _ => h₂.2⟩

theorem ensures_passes_trails {removed : List EnclaveId} {ordered : List Enclave}
    (hkeyed : ∀ id s, run.existing id = some s → s.desired.id = id) (h : w.Trails w₁ none) :
    Prog.Ensures (system A) w.Trailing (fun _ w₂ => w.Trails w₂ none)
      (passes run removed ordered) w₁ := by
  refine (Prog.Ensures.foldlM (fun _ _ w₂ => w.Trails w₂ none) (fun _ id _ errors w₂ _ _ h₂ =>
    ensures_teardownRemoved_trails (hkeyed id) errors h₂) ⟨none, h⟩ h).bind
    fun errors w₂ hw₂ h₂ => ?_
  refine (Prog.Ensures.foldlM (fun _ _ w₃ => w.Trails w₃ none) (fun _ enc _ errors w₃ _ _ h₃ =>
    ensures_provisionEnclave_trails errors enc h₃) hw₂ h₂).bind fun errors w₃ hw₃ h₃ => ?_
  exact Prog.Ensures.foldlM (fun _ _ w₄ => w.Trails w₄ none) (fun _ enc _ errors w₄ _ _ h₄ =>
    ensures_wireEnclave_trails errors enc h₄) hw₃ h₃

end

/-! ## Runs -/

/-- Since `w` the trail was behind by one outcome at most, whenever a call had been answered. -/
def World.Behind (w w' : World) : Prop :=
  ∃ evs, w'.log = evs ++ w.log ∧ ∀ l, l <:+ evs → ∃ owed, Owes owed l

/-- The trail of a run that was started in `w`: what came of its calls, between the event that
starts the run and the one that ends it, with the number of changes. -/
def World.Complete (w w' : World) (changes : Nat) : Prop :=
  ∃ runId startedAt completedAt before during,
    w'.log = ⟨.appendEvent (.reconcileCompleted runId completedAt changes false), .ok ()⟩ ::
      (during ++ ⟨.appendEvent (.reconcileStarted runId startedAt false), .ok ()⟩ ::
        (before ++ w.log)) ∧
    callOutcomes before = [] ∧ auditEvents before = [] ∧
    callOutcomes during = told during ∧ ∀ event ∈ auditEvents during, event.frames = false

section

variable {A : (c : Call) → Resp c → Prop} {w w₁ w₂ : World} {owed : Option Outcome}

theorem World.Behind.refl (w : World) : w.Behind w := by
  refine ⟨[], rfl, fun l hl => ⟨none, ?_⟩⟩
  rw [List.suffix_nil.mp hl]
  rfl

/-- A call of which nothing comes and which tells nothing. -/
theorem World.Behind.next (h : w.Behind w₁) {c : Call} {r : Resp c} (hnone : outcomeOf c r = none)
    (hevent : (appended c r).bind (·.outcome) = none) : w.Behind (w₁.next c r) := by
  obtain ⟨evs, hlog, hpast⟩ := h
  refine ⟨⟨c, r⟩ :: evs, by rw [next_log, hlog, List.cons_append], fun l hl => ?_⟩
  rcases List.suffix_cons_iff.mp hl with rfl | hl
  · obtain ⟨owed, howed⟩ := hpast evs (List.suffix_refl _)
    refine ⟨owed, ?_⟩
    rw [Owes, callOutcomes_cons, told_cons, hnone, hevent, howed]
    rfl
  · exact hpast l hl

/-- What is behind since `w₁` is behind since `w`, if by then nothing had come of anything. -/
theorem World.Trails.behind (h : w₁.Trails w₂ owed) {before : List Event}
    (hlog : w₁.log = before ++ w.log) (hnone : callOutcomes before = [])
    (htold : told before = []) :
    w.Behind w₂ := by
  obtain ⟨evs, hlog', -, hpast, -⟩ := h
  refine ⟨evs ++ before, by rw [hlog', hlog, List.append_assoc], fun l hl => ?_⟩
  have hquiet : ∀ l, l <:+ before → ∃ owed, Owes owed l := by
    rintro l ⟨l', rfl⟩
    rw [callOutcomes, List.filterMap_append] at hnone
    rw [told, auditEvents, List.filterMap_append, List.filterMap_append] at htold
    refine ⟨none, ?_⟩
    rw [Owes, callOutcomes, told, auditEvents, (List.append_eq_nil_iff.mp hnone).2,
      (List.append_eq_nil_iff.mp htold).2]
    rfl
  rcases List.suffix_or_suffix_of_suffix hl (List.suffix_append evs before) with hshort | ⟨l', rfl⟩
  · exact hquiet l hshort
  · obtain ⟨owed, howed⟩ := hpast l' (List.suffix_append_self_iff.mp hl)
    refine ⟨owed, ?_⟩
    rw [Owes, callOutcomes, told, auditEvents, List.filterMap_append, List.filterMap_append,
      List.filterMap_append, ← callOutcomes, ← auditEvents, ← told, howed, ← callOutcomes, hnone,
      ← auditEvents, ← told, htold, List.append_nil, List.append_nil]

variable {host : Host} {req : ReconcileRequest} {registry : DriverRegistry} {desired : List Enclave}

/-- The passes, with the two events around them. -/
theorem ensures_applyPasses_complete {run : Run} {removed : List EnclaveId} {ordered : List Enclave}
    {changes : List Change} (before : List Event)
    (hkeyed : ∀ id s, run.existing id = some s → s.desired.id = id)
    (hlog : w₁.log = before ++ w.log) (hnone : callOutcomes before = [])
    (hevents : auditEvents before = []) :
    Prog.Ensures (system A) w.Behind (fun _ w₂ => w.Complete w₂ changes.length)
      (applyPasses run removed ordered changes) w₁ := by
  have htold : told before = [] := by
    rw [told, hevents]
    rfl
  have hbehind : w.Behind w₁ := ((World.Trails.refl w₁).behind hlog hnone htold)
  rw [applyPasses]
  refine (ensures_perform (P := fun now w₂ => w₂ = w₁.next .now now) fun now _ _ =>
    ⟨hbehind.next rfl rfl, rfl⟩).bind fun startedAt w₂ hw₂ h₂ => ?_
  refine Prog.Ensures.bind (P := fun _ w₃ =>
    w₃ = w₂.next (.appendEvent (.reconcileStarted run.runId startedAt false)) (.ok ())) ?_
    fun _ w₃ _ h₃ => ?_
  · rintro (e | ⟨⟩) -
    · refine ⟨hw₂.next rfl rfl, ?_⟩
      rintro _ ⟨⟩
    · exact ⟨hw₂.next rfl rfl, fun _ _ => rfl⟩
  have hlog₃ : w₃.log = (⟨.appendEvent (.reconcileStarted run.runId startedAt false), .ok ()⟩ ::
      ⟨.now, startedAt⟩ :: before) ++ w.log := by
    rw [h₃, h₂, World.next_log, World.next_log, hlog]
    rfl
  have hend : ∀ {owed w₄}, w₃.Trails w₄ owed → w.Behind w₄ := fun h => h.behind hlog₃ hnone htold
  refine Prog.Ensures.bind (P := fun _ w₄ => w₃.Trails w₄ none) (Prog.wpE_mono
    (ensures_passes_trails hkeyed (.refl w₃)) fun _ w₄ h₄ => ⟨?_, h₄.2⟩) fun errors w₄ _ h₄ => ?_
  · obtain ⟨owed, h⟩ := h₄.1
    exact hend h
  refine (ensures_perform (P := fun _ w₅ => w₃.Trails w₅ none) fun now _ _ =>
    ⟨hend (h₄.silent rfl rfl), h₄.silent rfl rfl⟩).bind fun completedAt w₅ hw₅ h₅ => ?_
  refine Prog.Ensures.bind (P := fun _ w₆ => w.Complete w₆ changes.length) ?_
    fun _ w₆ hw₆ h₆ => Prog.Ensures.pure hw₆ h₆
  rintro (e | ⟨⟩) -
  · refine ⟨hw₅.next rfl rfl, ?_⟩
    rintro _ ⟨⟩
  · refine ⟨hw₅.next rfl rfl, fun _ _ => ?_⟩
    obtain ⟨during, hlog₅, howed, -, hframes⟩ := h₅
    refine ⟨run.runId, startedAt, completedAt, ⟨.now, startedAt⟩ :: before, during, ?_, hnone,
      hevents, howed, hframes⟩
    rw [system_next, World.next_log, hlog₅, hlog₃]
    rfl

theorem ensures_reconcileLoaded_complete :
    Prog.Ensures (system A) w.Behind
      (fun report w₁ => req.dryRun = false → w.Complete w₁ report.changes.length)
      (reconcileLoaded host req registry desired) w := by
  rw [reconcileLoaded]
  split
  · refine ⟨.refl w, ?_⟩
    rintro _ ⟨⟩
  refine Prog.Ensures.bind (P := fun records w₁ => (∀ id : EnclaveId, (actualStates records)[id]? =
      w.store.get? id) ∧ w₁ = w.next .listEnclaves (.ok records)) ?_ fun records w₁ hw₁ h₁ => ?_
  · rintro (e | records) hrecords
    · refine ⟨(World.Behind.refl w).next rfl rfl, ?_⟩
      rintro _ ⟨⟩
    · refine ⟨(World.Behind.refl w).next rfl rfl, ?_⟩
      rintro _ ⟨⟩
      exact ⟨get?_actualStates hrecords.1, rfl⟩
  refine (ensures_perform (P := fun removed w₂ => w₂ = w₁.next (.enclaveOrder _) removed)
    fun removed _ _ => ⟨hw₁.next rfl rfl, rfl⟩).bind fun removed w₂ hw₂ h₂ => ?_
  split
  · rename_i hdry
    refine Prog.Ensures.pure hw₂ fun hnot => ?_
    rw [hdry] at hnot
    cases hnot
  refine (ensures_perform (P := fun runId w₃ => w₃ = w₂.next .newUuid runId) fun runId _ _ =>
    ⟨hw₂.next rfl rfl, rfl⟩).bind fun runId w₃ hw₃ h₃ => ?_
  refine (ensures_applyPasses_complete [⟨.newUuid, runId⟩, ⟨.enclaveOrder _, removed⟩,
    ⟨.listEnclaves, .ok records⟩] (fun id s hs => ?_) ?_ rfl rfl).bind
    fun errors w₄ hw₄ h₄ => Prog.Ensures.pure hw₄ fun _ => h₄
  · exact Store.id_of_get? ((h₁.1 id).symm.trans hs)
  · rw [h₃, h₂, h₁.2]
    rfl

end

/-- **The audit trail.** Wherever a reconcile is cut off, what drivers and Terraform have come to is
told by its audit events in the same order, but for the last outcome. Where it reports, all of it is
told, between the event that starts the run and the one that ends it with the number of changes. -/
theorem audit_trail (host : Host) (fs : FileSystem) (root : Dir) (req : ReconcileRequest)
    (registry : DriverRegistry) (w w' : World) :
    (Prog.Visits (system anyAnswer) (reconcile host fs root req registry).run w w' → w.Behind w') ∧
    ∀ report, req.dryRun = false →
      Prog.Exec (system anyAnswer) (reconcile host fs root req registry).run w (.ok report) w' →
      w.Complete w' report.changes.length := by
  have hensures : Prog.Ensures (system anyAnswer) w.Behind
      (fun report w₁ => req.dryRun = false → w.Complete w₁ report.changes.length)
      (reconcile host fs root req registry) w := by
    rw [reconcile]
    split
    · refine ⟨.refl w, ?_⟩
      rintro _ ⟨⟩
    · exact ensures_reconcileLoaded_complete
  constructor
  · intro hv
    have hback : w.log <:+ w'.log → w.Behind w' := by
      refine hv.of_exec (J := fun v => w.log <:+ v.log → w.Behind v)
        (fun w c => answerable_anyAnswer w c) (fun v c r hnext hlog => ?_)
        fun _ _ hrun _ => (hrun.wp hensures).1
      obtain ⟨evs, hevs, hpast⟩ := hnext (hlog.trans (List.suffix_cons _ _))
      obtain ⟨evs', hevs'⟩ := hlog
      rw [system_next, World.next_log, ← hevs', ← List.cons_append] at hevs
      obtain rfl := List.append_cancel_right hevs
      exact ⟨evs', hevs'.symm, fun l hl => hpast l (hl.trans (List.suffix_cons _ _))⟩
    exact hback (log_suffix_visits hv)
  · exact fun report hdry hrun => (hrun.wp hensures).2 report rfl hdry

/-- A first apply in which a partition is applied, another is refused, and an export and an import
are wired: all four are told. -/
theorem sharedWorld_complete :
    World.empty.Behind sharedWorld ∧ World.empty.Complete sharedWorld 6 ∧
      callOutcomes sharedWorld.log =
        [.importWired ⟨"b"⟩ "x", .exportWired ⟨"a"⟩ "x",
          .partitionError ⟨"a"⟩ ⟨"q"⟩ "provision failed: refused",
          .partitionProvisioned ⟨"a"⟩ ⟨"p"⟩] := by
  have hrun := exec_sharedRun
  have hchanges : (sharedRun.1.toOption.map fun report => report.changes.length) = some 6 := by
    decide +kernel
  rcases hreport : sharedRun.1 with e | report
  · rw [hreport] at hchanges
    cases hchanges
  rw [hreport] at hchanges hrun
  have htrail := audit_trail plainHost sharedFiles sharedRoot enclavesRequest gcpOnly .empty
    sharedWorld
  refine ⟨htrail.1 hrun.visits, ?_, by decide +kernel⟩
  rw [← Option.some.inj hchanges]
  exact htrail.2 report rfl hrun

end Nclav
