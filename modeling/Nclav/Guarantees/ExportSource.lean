import Nclav.Effect.Makes
import Nclav.Guarantees.AliasScope
import Nclav.Reconciler.Applied

/-!
# What an export is wired from

The export loop of an enclave follows its partition loop and asks for no partition's state: an
export is wired whatever became of its target. The record of the target at that moment is told
here by the outcomes of the partition loop, and by the snapshot where the loop passed it over.
-/

namespace Nclav

open Effect Effect.Prog

/-! ## Outcomes -/

/-- The outcome of an attempt at a partition: the driver fails, or Terraform tells. -/
def Event.outcome (id : EnclaveId) (pid : PartitionId) : Event → Option Bool
  | ⟨.provisionPartition _ enc part _ _, .error _⟩ =>
    if enc.id = id ∧ part.id = pid then some false else none
  | ⟨.tfProvision _ enc part _ _ _, .error _⟩ =>
    if enc.id = id ∧ part.id = pid then some false else none
  | ⟨.tfProvision _ enc part _ _ _, .ok _⟩ =>
    if enc.id = id ∧ part.id = pid then some true else none
  | _ => none

namespace World

/-- The newest outcome of a partition since `w`. -/
def outcomeSince (w' w : World) (id : EnclaveId) (pid : PartitionId) : Option Bool :=
  (w'.log.take (w'.log.length - w.log.length)).findSome? (Event.outcome id pid)

/-- The log has grown, by these outcomes. -/
def Outcomes (id : EnclaveId) (w w' : World) (o : PartitionId → Option Bool) : Prop :=
  ∃ evs, w'.log = evs ++ w.log ∧ ∀ pid, evs.findSome? (Event.outcome id pid) = o pid

section

variable {id : EnclaveId} {w w' w'' : World} {o o' : PartitionId → Option Bool}

theorem Outcomes.eq (h : Outcomes id w w' o) (pid : PartitionId) :
    w'.outcomeSince w id pid = o pid := by
  obtain ⟨evs, hlog, ho⟩ := h
  rw [outcomeSince, hlog, List.length_append, Nat.add_sub_cancel, List.take_left, ho]

theorem Outcomes.refl (id : EnclaveId) (w : World) : Outcomes id w w fun _ => none :=
  ⟨[], rfl, fun _ => rfl⟩

theorem Outcomes.trans (h : Outcomes id w w' o) (h' : Outcomes id w' w'' o') :
    Outcomes id w w'' fun pid => (o' pid).or (o pid) := by
  obtain ⟨evs, hlog, ho⟩ := h
  obtain ⟨evs', hlog', ho'⟩ := h'
  refine ⟨evs' ++ evs, by rw [hlog', hlog, List.append_assoc], fun pid => ?_⟩
  rw [List.findSome?_append, ho, ho']

theorem outcomes_next (id : EnclaveId) (w : World) (c : Call) (r : Resp c) :
    Outcomes id w (w.next c r) fun pid => Event.outcome id pid ⟨c, r⟩ := by
  refine ⟨[⟨c, r⟩], by rw [next_log]; rfl, fun pid => ?_⟩
  rw [List.findSome?_singleton]

theorem Outcomes.next_none (h : Outcomes id w w' o) {c : Call} {r : Resp c}
    (hc : ∀ pid, Event.outcome id pid ⟨c, r⟩ = none) : Outcomes id w (w'.next c r) o := by
  have hnext := h.trans (outcomes_next id w' c r)
  simp only [hc, Option.none_or] at hnext
  exact hnext

/-- The outcome of the partition `target` is the newest there is. -/
theorem Outcomes.next_some (h : Outcomes id w w' fun _ => none) {c : Call} {r : Resp c}
    {target : PartitionId} {ok : Bool}
    (hc : ∀ pid, Event.outcome id pid ⟨c, r⟩ = if target = pid then some ok else none) :
    Outcomes id w (w'.next c r) fun pid => if target = pid then some ok else none := by
  have hnext := h.trans (outcomes_next id w' c r)
  simp only [hc, Option.or_none] at hnext
  exact hnext

theorem outcome_of_isQuiet {ev : Event} (hev : ev.1.isQuiet = true) (pid : PartitionId) :
    Event.outcome id pid ev = none := by
  obtain ⟨c, r⟩ := ev
  cases c <;> first | rfl | cases hev

theorem Outcomes.quiet (h : Outcomes id w w' o) (hw : w'.Quiet w'') : Outcomes id w w'' o := by
  obtain ⟨-, evs, hlog, hevs⟩ := hw
  have hquiet : Outcomes id w' w'' fun _ => none := by
    refine ⟨evs, hlog, fun pid => ?_⟩
    exact List.findSome?_eq_none_iff.mpr fun ev hev => outcome_of_isQuiet (hevs ev hev) pid
  have hnext := h.trans hquiet
  simp only [Option.none_or] at hnext
  exact hnext

end

end World

/-! ## The partition loop -/

section

variable {A : (c : Call) → Resp c → Prop} {run : Run} {driver : Driver} {enc : Enclave}
  {part : Partition} {w : World}

/-- The status that an outcome leaves. -/
def statusAfter (ok : Bool) : ProvisioningStatus := if ok then .active else .error

/-- The rule for the visit of a partition with its outcome: it is passed over, or its record is
that of the outcome. -/
theorem wpE_provisionPartition_outcome {acc : EnclaveState × List ReportError}
    {Q : EnclaveState × List ReportError → World → Prop}
    (hskip : hashUnchanged ((acc.1.partitions[part.id]?).map (·.meta_))
      (run.host.partitionHash part) = true → Q acc w)
    (hdone : ∀ ok ps errors w',
      World.Outcomes enc.id w w' (fun pid => if part.id = pid then some ok else none) →
      ps.meta_.status = statusAfter ok →
      (ok = true → ps.meta_.desiredHash = some (run.host.partitionHash part)) →
      Q ({ acc.1 with partitions := acc.1.partitions.insert part.id ps }, errors) w') :
    Prog.wpE (system A) (provisionPartition run driver enc acc part)
      (fun r w' => ∀ a, r = .ok a → Q a w') w := by
  simp only [provisionPartition]
  split
  · rename_i hhash
    rintro _ ⟨⟩
    exact hskip hhash
  refine Prog.wpE_bind_ok (wpE_upsertEnclave_ok ?_)
  set w₁ := w.next (.upsertEnclave _) (.ok ()) with hw₁
  have hstart : World.Outcomes enc.id w w₁ fun _ => none :=
    (World.Outcomes.refl enc.id w).next_none fun _ => rfl
  refine Prog.wpE_bind_ok ?_
  rw [Prog.wpE_monadLift]
  -- what is recorded of an outcome, once it is known
  have hrecord : ∀ (ps : PartitionState) outcome w₂ ok, outcome.isOk = ok →
      World.Outcomes enc.id w w₂ (fun pid => if part.id = pid then some ok else none) →
      Prog.wpE (system A) (recordPartition run enc part
          { acc.1 with partitions := acc.1.partitions.insert part.id ps } acc.2 outcome)
        (fun r w' => ∀ a, r = .ok a → Q a w') w₂ := by
    rintro ps outcome w₂ ok hok hw₂
    rw [recordPartition]
    refine Prog.wpE_bind_ok ?_
    rw [Prog.wpE_monadLift, Prog.wp_perform]
    rintro now - _ ⟨⟩
    have hnow := hw₂.next_none (c := .now) (r := now) fun _ => rfl
    cases outcome with
    | ok result =>
      subst hok
      refine Prog.wpE_bind_ok (wpE_appendEvent_ok fun w₃ hw₃ => ?_)
      rintro _ ⟨⟩
      rw [EnclaveState.updatePartition_insert]
      exact hdone true _ _ w₃ (hnow.quiet hw₃) rfl fun _ => rfl
    | error msg =>
      subst hok
      refine Prog.wpE_bind_ok (wpE_appendEvent_ok fun w₃ hw₃ => ?_)
      rintro _ ⟨⟩
      rw [EnclaveState.updatePartition_insert]
      exact hdone false _ _ w₃ (hnow.quiet hw₃) rfl (by rintro ⟨⟩)
  have hsubject : ∀ (ok : Bool) (pid : PartitionId),
      (if enc.id = enc.id ∧ part.id = pid then some ok else none) =
        if part.id = pid then some ok else none := by simp
  rintro (e | sa) ⟨-, -⟩
  · rintro _ ⟨⟩
    exact hrecord _ _ _ false rfl (hstart.next_some (hsubject false))
  intro r _ outputs _
  rcases outputs with e | outputs
  · rintro _ ⟨⟩
    rw [EnclaveState.updatePartition_insert]
    refine hrecord _ _ _ false rfl (World.Outcomes.next_some ?_ (hsubject false))
    exact (hstart.next_none fun _ => rfl).next_none fun _ => rfl
  · rintro _ ⟨⟩
    rw [EnclaveState.updatePartition_insert]
    refine hrecord _ _ _ true rfl (World.Outcomes.next_some ?_ (hsubject true))
    exact (hstart.next_none fun _ => rfl).next_none fun _ => rfl

/-- The last declaration of a partition id. -/
def declared (parts : List Partition) (pid : PartitionId) : Option Partition :=
  parts.reverse.find? (·.id = pid)

/-- What the partition loop after `pre` has made of the partitions of `base`, by their
outcomes. -/
structure Attempted (run : Run) (base : EnclaveState) (pre : List Partition) (s : EnclaveState)
    (o : PartitionId → Option Bool) : Prop where
  untouched : ∀ pid, o pid = none → s.partitions[pid]? = base.partitions[pid]?
  status : ∀ pid ok, o pid = some ok →
    ∃ ps, s.partitions[pid]? = some ps ∧ ps.meta_.status = statusAfter ok
  hash : ∀ pid part, declared pre pid = some part → o pid ≠ some false →
    ∃ ps, s.partitions[pid]? = some ps ∧
      ps.meta_.desiredHash = some (run.host.partitionHash part)

section

variable {base s : EnclaveState} {pre : List Partition} {o : PartitionId → Option Bool}

theorem declared_append (pre : List Partition) (part : Partition) (pid : PartitionId) :
    declared (pre ++ [part]) pid = if part.id = pid then some part else declared pre pid := by
  rw [declared, List.reverse_append, List.reverse_singleton, List.singleton_append,
    List.find?_cons]
  by_cases hid : part.id = pid
  · rw [if_pos hid, decide_eq_true hid]
  · rw [if_neg hid, decide_eq_false hid, declared]

theorem Attempted.skip (h : Attempted run base pre s o)
    (hhash : hashUnchanged ((s.partitions[part.id]?).map (·.meta_))
      (run.host.partitionHash part) = true) : Attempted run base (pre ++ [part]) s o := by
  refine ⟨h.untouched, h.status, fun pid p hp hok => ?_⟩
  rw [declared_append] at hp
  split at hp
  · rename_i hid
    obtain rfl := Option.some.inj hp
    subst hid
    exact hashUnchanged_map_iff.mp hhash
  · exact h.hash pid p hp hok

theorem Attempted.done (h : Attempted run base pre s o) {ok : Bool} {ps : PartitionState}
    (hstatus : ps.meta_.status = statusAfter ok)
    (hhash : ok = true → ps.meta_.desiredHash = some (run.host.partitionHash part)) :
    Attempted run base (pre ++ [part])
      { s with partitions := s.partitions.insert part.id ps }
      (fun pid => (if part.id = pid then some ok else none).or (o pid)) := by
  have hget : ∀ pid, (s.partitions.insert part.id ps)[pid]? =
      if part.id = pid then some ps else s.partitions[pid]? := by
    intro pid
    rw [HashMap.get?_insert]
    simp only [eq_comm]
  refine ⟨fun pid ho => ?_, fun pid ok' ho => ?_, fun pid p hp ho => ?_⟩
  · rw [hget]
    by_cases hid : part.id = pid
    · simp [hid] at ho
    · rw [if_neg hid, Option.none_or] at ho
      rw [if_neg hid]
      exact h.untouched pid ho
  · rw [hget]
    by_cases hid : part.id = pid
    · rw [if_pos hid, Option.some_or] at ho
      obtain rfl := Option.some.inj ho
      exact ⟨ps, if_pos hid, hstatus⟩
    · rw [if_neg hid, Option.none_or] at ho
      rw [if_neg hid]
      exact h.status pid ok' ho
  · rw [hget]
    rw [declared_append] at hp
    by_cases hid : part.id = pid
    · rw [if_pos hid] at hp
      obtain rfl := Option.some.inj hp
      rw [if_pos hid, Option.some_or] at ho
      exact ⟨ps, if_pos hid, hhash (by simpa using ho)⟩
    · rw [if_neg hid] at hp
      rw [if_neg hid, Option.none_or] at ho
      rw [if_neg hid]
      exact h.hash pid p hp ho

end

/-- **The partitions of an enclave and their outcomes.** -/
theorem wpE_partitions_attempted (base : EnclaveState) (errors : List ReportError) (w : World) :
    Prog.wpE (system A) (enc.partitions.foldlM (provisionPartition run driver enc) (base, errors))
      (fun r w' => ∀ acc, r = .ok acc → ∃ o, World.Outcomes enc.id w w' o ∧
        Attempted run base enc.partitions acc.1 o) w := by
  let I (pre : List Partition) (acc : EnclaveState × List ReportError) (w' : World) : Prop :=
    ∃ o, World.Outcomes enc.id w w' o ∧ Attempted run base pre acc.1 o
  have hinit : I [] (base, errors) w :=
    ⟨_, .refl enc.id w, fun _ _ => rfl, fun _ _ => nofun, fun _ _ => nofun⟩
  refine Prog.wp_foldlM_ok I ?_ (fun _ _ h => h) hinit
  rintro pre part post ⟨s, errors'⟩ w₁ - ⟨o, hw₁, hattempted⟩
  refine wpE_provisionPartition_outcome (fun hhash => ?_) fun ok ps errors'' w₂ hw₂ hstatus hhash => ?_
  · exact ⟨o, hw₁, hattempted.skip hhash⟩
  · exact ⟨_, hw₁.trans hw₂, hattempted.done hstatus hhash⟩

end

/-! ## The moment of an export -/

/-- The boundary of an enclave is provisioned, and `base` is its record. -/
def Enters (A : (c : Call) → Resp c → Prop) (run : Run) (driver : Driver) (enc : Enclave) (w : World)
    (base : EnclaveState) (w' : World) : Prop :=
  run.registry.forEnclave enc = .ok driver ∧ ∃ w₁ w₂ result now,
    Exec (system A) (upsertEnclave (.inFlight run enc)).run w (.ok ()) w₁ ∧
      Exec (system A) (perform (.provisionEnclave driver enc
        ((run.existing enc.id).bind (·.enclaveHandle)))) w₁ (.ok result) w₂ ∧
      Exec (system A) (perform .now) w₂ now w' ∧
      base = { EnclaveState.inFlight run enc with
        enclaveHandle := some result.handle
        meta_ := (EnclaveState.inFlight run enc).meta_.markActive now (run.host.enclaveHash enc) }

/-- The passes of a run come to the export `x` of `enc` with the copy `s` of its record in `v`; the
partitions of the enclave were begun in `w₃`. -/
inductive ExportMoment (A : (c : Call) → Resp c → Prop) (run : Run) (removed : List EnclaveId)
    (ordered : List Enclave) (w : World) (driver : Driver) (enc : Enclave) (x : Export)
    (s : EnclaveState) (w₃ v : World) : Prop
  | intro {errors errors' errors'' : List ReportError} {w₁ w₂ w₄ : World} {base : EnclaveState}
    {acc : EnclaveState × List ReportError}
    (teardown : Exec (system A) (teardownPass run removed).run w (.ok errors) w₁)
    (visit : Comes (system A) (provisionEnclave run) ordered errors w₁ enc errors' w₂)
    (enters : Enters A run driver enc w₂ base w₃)
    (partitions : Exec (system A)
      (enc.partitions.foldlM (provisionPartition run driver enc) (base, errors')).run w₃ (.ok acc) w₄)
    (comes : Comes (system A) (provisionExport driver enc) enc.exports acc w₄ x (s, errors'') v)

/-- The call wires an export. -/
def Call.isExport : Call → Bool
  | .provisionExport _ _ _ _ _ => true
  | _ => false

theorem callsE_appendEvent_noExport {event : Uuid → DateTime → AuditEvent} :
    CallsE (fun c => c.isExport = false) (fun _ => True) (appendEvent event) :=
  callsE_appendEvent rfl rfl fun _ => rfl

theorem provisionPartition_noExport (run : Run) (driver : Driver) (enc : Enclave)
    (acc : EnclaveState × List ReportError) (part : Partition) :
    CallsE (fun c => c.isExport = false) (fun _ => True)
      (provisionPartition run driver enc acc part) := by
  simp only [provisionPartition]
  split
  · exact .pure trivial
  refine CallsE.bind (callsE_upsertEnclave rfl) fun _ _ => ?_
  refine CallsE.bind (Q := fun _ => True) (.monadLift ?_) fun applied _ => ?_
  · refine Calls.bind (Calls.perform rfl) fun sa _ => ?_
    cases sa with
    | error e => trivial
    | ok sa =>
      refine Calls.bind (Calls.perform rfl) fun _ _ => ?_
      refine Calls.bind (Q := fun _ => True) ?_ fun tf _ => ?_
      · exact Calls.bind (Calls.perform rfl) fun _ _ => trivial
      · cases tf with
        | error e => trivial
        | ok tf => trivial
  · rw [recordPartition]
    refine CallsE.bind (callsE_perform rfl) fun now _ => ?_
    split
    · exact CallsE.bind callsE_appendEvent_noExport fun _ _ => .pure trivial
    · exact CallsE.bind callsE_appendEvent_noExport fun _ _ => .pure trivial

section

variable {A : (c : Call) → Resp c → Prop} {run : Run} {driver driver' : Driver} {enc enc' : Enclave}
  {x : Export} {outputs : HashMap String String} {existing : Option Handle} {w v : World}

theorem exec_of_monadLift {α : Type} {p : Sys α} {a : α} {w w' : World}
    (h : Exec (system A) (monadLift p : Rec α).run w (.ok a) w') : Exec (system A) p w a w' := by
  refine h.wp (Q := fun r w' => ∀ a, r = .ok a → Exec (system A) p w a w') ?_ a rfl
  show wpE (system A) (monadLift p : Rec α) _ w
  rw [wpE_monadLift]
  refine wp_iff.mpr ?_
  rintro a w' hrun _ ⟨⟩
  exact hrun

theorem eq_next_of_exec {c : Call} {r : Resp c} {w w' : World}
    (h : Exec (system A) (monadLift (perform c) : Rec (Resp c)).run w (.ok r) w') :
    w' = w.next c r := by
  refine h.wp (Q := fun a w' => ∀ r, a = .ok r → w' = w.next c r) ?_ r rfl
  rintro r - _ ⟨⟩
  rfl

theorem makes_of_storeCall {α : Type} {p : Sys (Except StoreError α)} {c : Call}
    (h : Makes (system A) (storeCall p).run w c v) : Makes (system A) p w c v := by
  rcases Makes.bind h with hmakes | ⟨_, _, _, hret⟩
  · exact hmakes
  · cases hret

/-- The step of the export loop that wires an export. -/
theorem makes_provisionExport {acc : EnclaveState × List ReportError} {x' : Export}
    (h : Makes (system A) (provisionExport driver' enc' acc x').run w
      (.provisionExport driver enc x outputs existing) v) :
    driver = driver' ∧ enc = enc' ∧ x = x' ∧ outputs = acc.1.outputsFor x' ∧
      existing = acc.1.exportHandles[x'.name]? ∧ v = w := by
  rcases Makes.bindE h with hmakes | ⟨result, w', -, hmakes⟩
  · have hcall : Makes (system A) (perform (.provisionExport driver' enc' x' (acc.1.outputsFor x')
        acc.1.exportHandles[x'.name]?) : Sys _) w (.provisionExport driver enc x outputs existing) v := by
      rcases Makes.bind hmakes with hcall | ⟨_, _, _, hret⟩
      · exact hcall
      · cases hret
    obtain ⟨hc, hv⟩ := hcall.of_perform
    obtain ⟨rfl, rfl, rfl, rfl, rfl⟩ := Call.provisionExport.inj hc
    exact ⟨rfl, rfl, rfl, rfl, rfl, hv⟩
  · cases result with
    | ok result =>
      have hnot : CallsE (fun c => c.isExport = false) (fun _ => True) (do
          appendEvent fun id at_ => .exportWired id at_ enc'.id x'.name
          return ({ acc.1 with
            exportHandles := acc.1.exportHandles.insert x'.name result.handle }, acc.2)) :=
        CallsE.bind callsE_appendEvent_noExport fun _ _ => .pure trivial
      cases hmakes.callsE hnot
    | error e => cases hmakes

/-- Each export is wired at its moment. -/
theorem exportMoment_of_makes {removed : List EnclaveId} {ordered : List Enclave}
    (hkeyed : ∀ id s, run.existing id = some s → s.desired.id = id)
    (h : Makes (system A) (passes run removed ordered).run w
      (.provisionExport driver enc x outputs existing) v) :
    ∃ s w₃, ExportMoment A run removed ordered w driver enc x s w₃ v ∧
      outputs = s.outputsFor x ∧ existing = s.exportHandles[x.name]? := by
  rcases Makes.bindE h with hmakes | ⟨errors, w₁, hteardown, hmakes⟩
  · obtain ⟨id, errors, w', -, hmakes⟩ := hmakes.foldlM
    have hcall := hmakes.callsE (teardownRemoved_calls (hkeyed id) errors)
    rcases hcall with hcall | hcall <;> cases hcall
  rcases Makes.bindE hmakes with hmakes | ⟨errors', w₂, -, hmakes⟩
  swap
  · obtain ⟨enc', errors'', w', -, hmakes⟩ := hmakes.foldlM
    cases hmakes.callsE (wireEnclave_calls errors'')
  obtain ⟨enc', errors', w₂, hvisit, hmakes⟩ := hmakes.foldlM
  rw [provisionEnclave] at hmakes
  split at hmakes
  · cases hmakes
  rename_i driver' hdriver
  rcases Makes.bindE hmakes with hmakes | ⟨_, w', hupsert, hmakes⟩
  · cases hmakes.callsE (P := fun c : Call => c.isExport = false) (callsE_upsertEnclave rfl)
  rcases Makes.bindE hmakes with hmakes | ⟨result, w'', hboundary, hmakes⟩
  · cases hmakes.callsE (P := fun c : Call => c.isExport = false) (callsE_perform rfl)
  rcases Makes.bindE hmakes with hmakes | ⟨now, w₃, hnow, hmakes⟩
  · cases hmakes.callsE (P := fun c : Call => c.isExport = false) (callsE_perform rfl)
  have hboundary := exec_of_monadLift hboundary
  have hnow := exec_of_monadLift hnow
  cases result with
  | error e =>
    have hnot : CallsE (fun c => c.isExport = false) (fun _ => True) (do
        upsertEnclave { EnclaveState.inFlight run enc' with
          meta_ := (EnclaveState.inFlight run enc').meta_.markError now (toString e) }
        appendEvent fun id at_ => .enclaveError id at_ enc'.id (toString e)
        return errors' ++ [.enclave enc'.id (toString e)]) :=
      CallsE.bind (callsE_upsertEnclave rfl) fun _ _ =>
        CallsE.bind callsE_appendEvent_noExport fun _ _ => .pure trivial
    cases hmakes.callsE hnot
  | ok result =>
    simp only [provisionContents] at hmakes
    rcases Makes.bindE hmakes with hmakes | ⟨acc, w₄, hparts, hmakes⟩
    · obtain ⟨part, acc, _, -, hmakes⟩ := hmakes.foldlM
      cases hmakes.callsE (provisionPartition_noExport run driver' enc' acc part)
    rcases Makes.bindE hmakes with hmakes | ⟨acc', w₅, -, hmakes⟩
    · obtain ⟨x', ⟨s, errors''⟩, v', hcomes, hmakes⟩ := hmakes.foldlM
      obtain ⟨rfl, rfl, rfl, rfl, rfl, rfl⟩ := makes_provisionExport hmakes
      exact ⟨s, _, .intro hteardown hvisit ⟨hdriver, w', w'', result, now, hupsert, hboundary, hnow, rfl⟩
        hparts hcomes, rfl, rfl⟩
    · have hnot : CallsE (fun c => c.isExport = false) (fun _ => True) (do
          appendEvent fun id at_ => .enclaveProvisioned id at_ enc'.id
          upsertEnclave acc'.1
          return acc'.2) :=
        CallsE.bind callsE_appendEvent_noExport fun _ _ =>
          CallsE.bind (callsE_upsertEnclave rfl) fun _ _ => .pure trivial
      cases hmakes.callsE hnot

end

/-! ## When the target is active -/

/-- The record of the target, as the partition just declared. -/
def EnclaveState.Ready (s : EnclaveState) (host : Host) (enc : Enclave) (x : Export) : Prop :=
  ∃ part, declared enc.partitions x.targetPartition = some part ∧
    ∃ ps, s.partitions[x.targetPartition]? = some ps ∧ ps.meta_.status = .active ∧
      ps.meta_.desiredHash = some (host.partitionHash part)

/-- The target is declared, and its newest outcome in this visit of the enclave is a success; where
there is none, it was active before the run. -/
def TargetApplied (st : Store) (enc : Enclave) (x : Export) (newest : Option Bool) : Prop :=
  (∃ part ∈ enc.partitions, part.id = x.targetPartition) ∧
    (newest = some true ∨ newest = none ∧
      ∃ ps, st.partition enc.id x.targetPartition = some ps ∧ ps.meta_.status = .active)

section

variable {A : (c : Call) → Resp c → Prop} {host : Host} {req : ReconcileRequest}
  {registry : DriverRegistry} {desired : List Enclave} {run : Run} {driver : Driver} {enc : Enclave}
  {x : Export} {w v w₃ : World} {s : EnclaveState}

/-- Wiring exports leaves the partitions and their outcomes alone. -/
theorem wpE_exports_outcomes (pre : List Export) (acc : EnclaveState × List ReportError)
    (w : World) :
    Prog.wpE (system A) (pre.foldlM (provisionExport driver enc) acc)
      (fun r w' => ∀ acc', r = .ok acc' → World.Outcomes enc.id w w' (fun _ => none) ∧
        acc'.1.partitions = acc.1.partitions) w := by
  let I (_ : List Export) (acc' : EnclaveState × List ReportError) (w' : World) : Prop :=
    World.Outcomes enc.id w w' (fun _ => none) ∧ acc'.1.partitions = acc.1.partitions
  refine Prog.wp_foldlM_ok I ?_ (fun _ _ h => h) ⟨.refl enc.id w, rfl⟩
  rintro pre y post acc' w₁ - ⟨hw₁, hparts⟩
  refine wpE_provisionExport_ok (fun existing result w₂ _ hw₂ => ?_) fun existing e _ => ?_
  · exact ⟨(hw₁.next_none fun _ => rfl).quiet hw₂, hparts⟩
  · exact ⟨hw₁.next_none fun _ => rfl, hparts⟩

theorem declared_eq_some {parts : List Partition} {pid : PartitionId} {part : Partition}
    (h : declared parts pid = some part) : part ∈ parts ∧ part.id = pid :=
  ⟨List.mem_reverse.mp (List.mem_of_find?_eq_some h), by simpa using List.find?_some h⟩

theorem exists_declared {parts : List Partition} {pid : PartitionId}
    (h : ∃ part ∈ parts, part.id = pid) : ∃ part, declared parts pid = some part := by
  obtain ⟨part, hpart, rfl⟩ := h
  refine Option.isSome_iff_exists.mp ?_
  rw [declared, List.find?_isSome]
  exact ⟨part, List.mem_reverse.mpr hpart, by simp⟩

/-- The record at the moment of an export, by the outcomes. -/
theorem ExportMoment.ready_iff {removed : List EnclaveId} {ordered : List Enclave} {st : Store}
    (h : ExportMoment A run removed ordered w driver enc x s w₃ v)
    (hexisting : run.existing enc.id = st.get? enc.id) :
    s.Ready run.host enc x ↔
      TargetApplied st enc x (v.outcomeSince w₃ enc.id x.targetPartition) := by
  obtain ⟨-, -, ⟨-, w₁, w₂, result, now, -, -, -, hbase⟩, hparts, pre, post, -, hpre⟩ := h
  obtain ⟨o, ho, hattempted⟩ := hparts.wp (wpE_partitions_attempted _ _ _) _ rfl
  obtain ⟨hnone, hsame⟩ := hpre.wp (wpE_exports_outcomes pre _ _) _ rfl
  have hnewest : v.outcomeSince w₃ enc.id x.targetPartition = o x.targetPartition := by
    rw [(ho.trans hnone).eq, Option.none_or]
  rw [hnewest, EnclaveState.Ready, TargetApplied, hsame]
  have hstored : ∀ {base : EnclaveState} {pid}, base = { EnclaveState.inFlight run enc with
        enclaveHandle := some result.handle
        meta_ := (EnclaveState.inFlight run enc).meta_.markActive now (run.host.enclaveHash enc) } →
      base.partitions[pid]? = st.partition enc.id pid := by
    rintro _ pid rfl
    exact partitions_inFlight hexisting pid
  constructor
  · rintro ⟨part, hpart, ps, hps, hactive, -⟩
    refine ⟨⟨part, declared_eq_some hpart⟩, ?_⟩
    rcases houtcome : o x.targetPartition with _ | ok
    · rw [hattempted.untouched _ houtcome, hstored hbase] at hps
      exact .inr ⟨rfl, ps, hps, hactive⟩
    · obtain ⟨ps', hps', hstatus⟩ := hattempted.status _ ok houtcome
      obtain rfl := Option.some.inj (hps.symm.trans hps')
      cases ok with
      | true => exact .inl rfl
      | false => cases hactive.symm.trans hstatus
  · rintro ⟨hdeclared, hnewest⟩
    obtain ⟨part, hpart⟩ := exists_declared hdeclared
    have hok : o x.targetPartition ≠ some false := by
      rintro hfalse
      rw [hfalse] at hnewest
      rcases hnewest with h | ⟨h, -⟩ <;> cases h
    obtain ⟨ps, hps, hhash⟩ := hattempted.hash _ part hpart hok
    refine ⟨part, hpart, ps, hps, ?_, hhash⟩
    rcases hnewest with htrue | ⟨hnone, ps', hps', hactive⟩
    · obtain ⟨ps', hps', hstatus⟩ := hattempted.status _ true htrue
      obtain rfl := Option.some.inj (hps.symm.trans hps')
      exact hstatus
    · rw [hattempted.untouched _ hnone, hstored hbase] at hps
      obtain rfl := Option.some.inj (hps.symm.trans hps')
      exact hactive

/-- The run comes to the export in `v`, with the copy `s` of the record of its enclave. -/
def ComesToExport (A : (c : Call) → Resp c → Prop) (host : Host) (req : ReconcileRequest)
    (registry : DriverRegistry) (desired : List Enclave) (w : World) (driver : Driver)
    (enc : Enclave) (x : Export) (s : EnclaveState) (w₃ v : World) : Prop :=
  ∃ run resolved removed w₀, RunStart host req registry desired w run resolved removed ∧
    w.Quiet w₀ ∧
    ExportMoment A run removed (orderedDesired resolved desired) w₀ driver enc x s w₃ v

/-- Every export that a run wires, it wires at its moment. -/
theorem comesToExport_of_makes {outputs : HashMap String String} {existing : Option Handle}
    (h : Makes (system A) (reconcileLoaded host req registry desired).run w
      (.provisionExport driver enc x outputs existing) v) :
    ∃ s w₃, ComesToExport A host req registry desired w driver enc x s w₃ v ∧
      outputs = s.outputsFor x ∧ existing = s.exportHandles[x.name]? := by
  rw [reconcileLoaded] at h
  rcases hvalid : validate host.topo desired with e | resolved
  · rw [hvalid] at h
    cases h
  rw [hvalid] at h
  rcases Makes.bindE h with hmakes | ⟨records, w₁, hlist, hmakes⟩
  · cases (makes_of_storeCall hmakes).of_perform.1
  obtain ⟨rfl, hrecords⟩ : w₁ = w.next .listEnclaves (.ok records) ∧
      (system A).adm w .listEnclaves (.ok records) := by
    refine hlist.wp (Q := fun r w' => ∀ records, r = .ok records →
      w' = w.next .listEnclaves (.ok records) ∧ (system A).adm w .listEnclaves (.ok records)) ?_ _ rfl
    show wpE (system A) (storeCall (perform .listEnclaves)) _ w
    rw [wpE_orFail, wp_perform]
    rintro (e | records) hr _ hok
    · cases hok
    · obtain rfl := Except.ok.inj hok
      exact ⟨rfl, hr⟩
  have hquiet₁ := (World.Quiet.refl w).next (c := .listEnclaves) rfl (.ok records)
  rcases Makes.bindE hmakes with hmakes | ⟨removed, w₁, horder, hmakes⟩
  · cases hmakes.callsE (P := fun c : Call => c.isExport = false) (callsE_perform rfl)
  obtain rfl := eq_next_of_exec horder
  have hquiet₂ := hquiet₁.next (c := .enclaveOrder _) rfl removed
  dsimp only at hmakes
  split at hmakes
  · cases hmakes
  rcases Makes.bindE hmakes with hmakes | ⟨runId, w₁, hrunId, hmakes⟩
  · cases hmakes.callsE (P := fun c : Call => c.isExport = false) (callsE_perform rfl)
  obtain rfl := eq_next_of_exec hrunId
  have hquiet₃ := hquiet₂.next (c := .newUuid) rfl runId
  rcases Makes.bindE hmakes with hmakes | ⟨errors, w₁, -, hmakes⟩
  swap
  · cases hmakes
  let run : Run := ⟨host, req, registry, actualStates records, runId⟩
  have hsnapshot : ∀ id, run.existing id = w.store.get? id := get?_actualStates hrecords.1
  have hstart : RunStart host req registry desired w run resolved removed.val := by
    refine ⟨rfl, rfl, rfl, hvalid, hsnapshot, fun id => ?_,
      removed.property.nodup_iff.mpr (nodup_removedIds _ _)⟩
    rw [removed.property.mem_iff, mem_removedIds, ← hsnapshot]
    rfl
  rw [applyPasses] at hmakes
  rcases Makes.bindE hmakes with hmakes | ⟨now, w₁, hnow, hmakes⟩
  · cases hmakes.callsE (P := fun c : Call => c.isExport = false) (callsE_perform rfl)
  obtain rfl := eq_next_of_exec hnow
  have hquiet₄ := hquiet₃.next (c := .now) rfl now
  rcases Makes.bindE hmakes with hmakes | ⟨_, w₁, hevent, hmakes⟩
  · cases (makes_of_storeCall hmakes).of_perform.1
  have hquiet₅ : w.Quiet w₁ := by
    refine hquiet₄.trans (hevent.wp (Q := fun _ w' => World.Quiet _ w') ?_)
    show wpE (system A) (storeCall (perform (.appendEvent _))) _ _
    rw [wpE_orFail, wp_perform]
    exact fun r _ => (World.Quiet.refl _).next (c := .appendEvent _) rfl r
  rcases Makes.bindE hmakes with hmakes | ⟨errors, w₂, -, hmakes⟩
  · obtain ⟨s, w₃, hmoment, houtputs, hhandle⟩ := exportMoment_of_makes (fun _ _ => hstart.keyed) hmakes
    exact ⟨s, w₃, ⟨run, resolved, removed.val, w₁, hstart, hquiet₅, hmoment⟩, houtputs, hhandle⟩
  rcases Makes.bindE hmakes with hmakes | ⟨now, w₃, -, hmakes⟩
  · cases hmakes.callsE (P := fun c : Call => c.isExport = false) (callsE_perform rfl)
  rcases Makes.bindE hmakes with hmakes | ⟨_, w₄, -, hmakes⟩
  · cases (makes_of_storeCall hmakes).of_perform.1
  · cases hmakes

/-- **What an export is wired from.** Every call that wires an export is made at its moment, with
the outputs and the handle of the record at hand; the record of its target is then active and as
just declared exactly where the target was applied. -/
theorem export_ready_iff (A : (c : Call) → Resp c → Prop) (host : Host) (req : ReconcileRequest)
    (registry : DriverRegistry) (desired : List Enclave) (w : World) :
    (∀ driver enc x outputs existing v,
      Makes (system A) (reconcileLoaded host req registry desired).run w
        (.provisionExport driver enc x outputs existing) v →
      ∃ s w₃, ComesToExport A host req registry desired w driver enc x s w₃ v ∧
        outputs = s.outputsFor x ∧ existing = s.exportHandles[x.name]?) ∧
    ∀ driver enc x s w₃ v, ComesToExport A host req registry desired w driver enc x s w₃ v →
      (s.Ready host enc x ↔
        TargetApplied w.store enc x (v.outcomeSince w₃ enc.id x.targetPartition)) := by
  refine ⟨fun driver enc x outputs existing v hmakes => comesToExport_of_makes hmakes, ?_⟩
  rintro driver enc x s w₃ v ⟨run, resolved, removed, w₀, hstart, -, hmoment⟩
  rw [← hstart.host_eq]
  exact hmoment.ready_iff (hstart.existing enc.id)

end

/-- A call on the log of a run was made. -/
theorem makes_of_mem_log {A : (c : Call) → Resp c → Prop} {α : Type} {p : Sys α} {w w' : World}
    {a : α} (h : Exec (system A) p w a w') {ev : Event} (hev : ev ∈ w'.log) (hnew : ev ∉ w.log) :
    ∃ v, Makes (system A) p w ev.1 v := by
  induction h with
  | ret => exact absurd hev hnew
  | @call c k w r a w' hr hrest ih =>
    by_cases hfirst : ev = ⟨c, r⟩
    · subst hfirst
      exact ⟨w, .here c k w⟩
    · obtain ⟨v, hmakes⟩ := ih hev (by
        rw [system_next, World.next_log]
        exact fun h => (List.mem_cons.mp h).elim hfirst hnew)
      exact ⟨v, .call r hr hmakes⟩

/-- Where nothing failed, no outcome is a failure. -/
theorem outcome_of_allOk {id : EnclaveId} {pid : PartitionId} {ev : Event} {ok : Bool}
    (hev : allOk ev.1 ev.2) (h : Event.outcome id pid ev = some ok) : ok = true := by
  unfold Event.outcome at h
  split at h
  · cases hev
  · cases hev
  · split at h <;> cases h
    rfl
  · cases h

/-- The store after a first run. -/
def exportedStore : Store := (okRun [exporter] .empty).2.store

/-- In a second run without errors the export is wired from a target that is active. -/
theorem export_from_applied : ∃ s w₃ v,
    ComesToExport allOk plainHost .default gcpOnly [exporter] (.ofStore exportedStore) plainDriver
      exporter (plainExport "x" .anyEnclave) s w₃ v ∧
    s.Ready plainHost exporter (plainExport "x" .anyEnclave) := by
  have hready := export_ready_iff allOk plainHost .default gcpOnly [exporter]
    (.ofStore exportedStore)
  have hrun : Exec (system allOk) (reconcileLoaded plainHost .default gcpOnly [exporter]).run
      (.ofStore exportedStore) _ (okRun [exporter] (.ofStore exportedStore)).2 :=
    exec_run (M := system allOk) (fun w c => ⟨answers_okAnswer w c, allOk_okAnswer w c⟩) _ _
  obtain ⟨outputs, existing, r, hlog⟩ : ∃ outputs existing r,
      (⟨.provisionExport plainDriver exporter (plainExport "x" .anyEnclave) outputs existing, r⟩ :
        Event) ∈ (okRun [exporter] (.ofStore exportedStore)).2.log :=
    ⟨_, _, _, List.mem_of_getElem? (i := 14) rfl⟩
  obtain ⟨v, hmakes⟩ := makes_of_mem_log hrun hlog List.not_mem_nil
  obtain ⟨s, w₃, hcomes, -⟩ := hready.1 _ _ _ _ _ v hmakes
  refine ⟨s, w₃, v, hcomes, (hready.2 _ _ _ s w₃ v hcomes).mpr ⟨⟨_, List.mem_cons_self .., rfl⟩, ?_⟩⟩
  have hanswers : ∀ ev ∈ v.log, allOk ev.1 ev.2 :=
    log_answers_visits hmakes.visits (List.forall_mem_nil _)
  rcases houtcome : v.outcomeSince w₃ exporter.id ⟨"p"⟩ with _ | ok
  · exact .inr ⟨houtcome, _, rfl, rfl⟩
  · obtain ⟨ev, hev, hok⟩ := List.exists_of_findSome?_eq_some houtcome
    obtain rfl := outcome_of_allOk (hanswers ev (List.mem_of_mem_take hev)) hok
    exact .inl houtcome

/-- The driver refuses every partition. -/
def partitionless (w : World) : (c : Call) → Resp c
  | .provisionPartition _ _ _ _ _ => .error (.provisionFailed "quota")
  | c => okAnswer w c

theorem answers_partitionless (w : World) (c : Call) : answers w c (partitionless w c) := by
  cases c with
  | provisionPartition => trivial
  | _ => exact answers_okAnswer w _

/-- The run of a list in which the driver refuses every partition. -/
def refusedRun (desired : List Enclave) (w : World) :
    Except ReconcileError ReconcileReport × World :=
  Prog.run World.next partitionless (reconcileLoaded plainHost .default gcpOnly desired).run w

/-- The exports of a partition that failed in its first run are wired, with no outputs; so is an
export whose target nobody declares, and the report names neither. -/
theorem exports_wired_from_nothing :
    (∃ report w' s, Exec (system anyAnswer)
        (reconcileLoaded plainHost .default gcpOnly [exporter]).run .empty (.ok report) w' ∧
      w'.store.get? ⟨"a"⟩ = some s ∧
      (s.partitions[(⟨"p"⟩ : PartitionId)]?).map (·.meta_.status) = some .error ∧
      s.exportHandles["x"]? = some (.str "x")) ∧
    ∃ report w' s, Exec (system anyAnswer) (reconcileLoaded plainHost .default gcpOnly
        [plainEnclave "a" [plainExport "x" .anyEnclave] []]).run .empty (.ok report) w' ∧
      w'.store.get? ⟨"a"⟩ = some s ∧ s.partitions[(⟨"p"⟩ : PartitionId)]? = none ∧
      s.exportHandles["x"]? = some (.str "x") ∧ report.errors = [] := by
  constructor
  · have hrun : Exec (system anyAnswer) _ _ (refusedRun [exporter] .empty).1
        (refusedRun [exporter] .empty).2 :=
      exec_run (M := system anyAnswer) (fun w c => ⟨answers_partitionless w c, trivial⟩) _ _
    obtain ⟨report, hreport⟩ : ∃ report, (refusedRun [exporter] .empty).1 = .ok report := ⟨_, rfl⟩
    rw [hreport] at hrun
    exact ⟨report, _, _, hrun, rfl, by decide +kernel, by decide +kernel⟩
  · have hrun := exec_okRun [plainEnclave "a" [plainExport "x" .anyEnclave] []] .empty
    obtain ⟨report, hreport, herrors⟩ : ∃ report,
        (okRun [plainEnclave "a" [plainExport "x" .anyEnclave] []] .empty).1 = .ok report ∧
          report.errors = [] := ⟨_, rfl, rfl⟩
    rw [hreport] at hrun
    exact ⟨report, _, _, hrun, rfl, by decide +kernel, by decide +kernel, herrors⟩

end Nclav
