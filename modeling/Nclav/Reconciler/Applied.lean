import Nclav.Reconciler.Handles
import Nclav.Reconciler.Records

/-!
# What a run without errors applies

A partition whose stored hash is the hash of its declaration is passed over: its record and its
last Terraform apply stay what they were. Any other is applied, and where that adds no error
its record is the one of the apply. The lemmas here say so of every partition of an enclave,
and of the rest of the record, after a run that reports no error.
-/

namespace Nclav

open Effect

/-! ## The last apply -/

/-- A Terraform apply of the partition. -/
def Event.applies (id : EnclaveId) (pid : PartitionId) : Event → Bool
  | ⟨.tfProvision _ enc part _ _ _, _⟩ => enc.id = id ∧ part.id = pid
  | _ => false

/-- The newest Terraform apply of a partition, with its outcome. -/
def World.lastApply (w : World) (id : EnclaveId) (pid : PartitionId) : Option Event :=
  w.log.find? (Event.applies id pid)

theorem Event.applies_of_subject_ne {id : EnclaveId} {ev : Event} (h : ev.1.subject ≠ some id)
    (pid : PartitionId) : ev.applies id pid = false := by
  rw [Event.applies.eq_def]
  split
  · rename_i enc part _ _ _ _
    exact decide_eq_false fun hcond => h (congrArg some hcond.1)
  · rfl

/-- The driver provisioned the partition. -/
def Event.provisions (id : EnclaveId) (pid : PartitionId) : Event → Bool
  | ⟨.provisionPartition _ enc part _ _, .ok _⟩ => enc.id = id ∧ part.id = pid
  | _ => false

/-- The newest call that provisioned the partition, with the driver's answer. -/
def World.lastProvision (w : World) (id : EnclaveId) (pid : PartitionId) : Option Event :=
  w.log.find? (Event.provisions id pid)

theorem Event.provisions_of_subject_ne {id : EnclaveId} {ev : Event} (h : ev.1.subject ≠ some id)
    (pid : PartitionId) : ev.provisions id pid = false := by
  rw [Event.provisions.eq_def]
  split
  · rename_i enc part _ _ _
    exact decide_eq_false fun hcond => h (congrArg some hcond.1)
  · rfl

namespace World

theorem SameView.lastProvision {id : EnclaveId} {w w' : World} (h : w.SameView id w')
    (pid : PartitionId) : w'.lastProvision id pid = w.lastProvision id pid := by
  have hf : ∀ ev : Event, ev.1.subject ≠ some id → ev.provisions id pid = false :=
    fun ev hev => Event.provisions_of_subject_ne hev pid
  rw [World.lastProvision, World.lastProvision, ← find?_trace hf, ← find?_trace hf, h.trace]

theorem lastProvision_next_of_not {w : World} {c : Call} {r : Resp c} {id : EnclaveId}
    {pid : PartitionId} (h : Event.provisions id pid ⟨c, r⟩ = false) :
    (w.next c r).lastProvision id pid = w.lastProvision id pid := by
  rw [lastProvision, next_log, List.find?_cons_of_neg]
  · rfl
  · rw [h]
    exact Bool.false_ne_true

theorem SameView.lastApply {id : EnclaveId} {w w' : World} (h : w.SameView id w')
    (pid : PartitionId) : w'.lastApply id pid = w.lastApply id pid := by
  have hf : ∀ ev : Event, ev.1.subject ≠ some id → ev.applies id pid = false :=
    fun ev hev => Event.applies_of_subject_ne hev pid
  rw [World.lastApply, World.lastApply, ← find?_trace hf, ← find?_trace hf, h.trace]

theorem lastApply_next_of_not {w : World} {c : Call} {r : Resp c} {id : EnclaveId}
    {pid : PartitionId} (h : Event.applies id pid ⟨c, r⟩ = false) :
    (w.next c r).lastApply id pid = w.lastApply id pid := by
  rw [lastApply, next_log, List.find?_cons_of_neg]
  · rfl
  · rw [h]
    exact Bool.false_ne_true

theorem Quiet.lastApply {w w' : World} (h : w.Quiet w') (id : EnclaveId) (pid : PartitionId) :
    w'.lastApply id pid = w.lastApply id pid :=
  (h.sameView id).lastApply pid

end World

/-! ## One partition -/

section

variable {A : (c : Call) → Resp c → Prop} {run : Run} {driver : Driver} {enc : Enclave}
  {part : Partition} {w : World}

/-- The record of a partition after its apply. -/
def PartitionState.applied (run : Run) (part : Partition) (m : ResourceMeta) (now : DateTime)
    (result : ProvisionResult) : PartitionState where
  desired := part
  partitionHandle := some result.handle
  resolvedOutputs := result.outputs
  meta_ := m.markActive now (run.host.partitionHash part)

/-- The Terraform call of an apply. -/
abbrev Run.applyCall (run : Run) (enc : Enclave) (part : Partition)
    (inputs authEnv : HashMap String String) : Call :=
  .tfProvision run.req.tfBackend enc part inputs authEnv (some run.runId)

/-- What the Terraform handle becomes. -/
def Run.appliedResult (run : Run) (enc : Enclave) (part : Partition) (sa : ProvisionResult)
    (outputs : HashMap String String) : ProvisionResult where
  handle := mergeSaHandle sa.handle (run.req.tfBackend.handle run.host enc part)
  outputs := outputs

theorem HashMap.insert_insert {K V : Type} [Ord K] [Std.TransOrd K] [Std.LawfulEqOrd K]
    [DecidableEq K] (m : HashMap K V) (k : K) (v v' : V) :
    (m.insert k v).insert k v' = m.insert k v' := by
  refine Std.ExtTreeMap.ext_getElem? fun a => ?_
  rw [HashMap.get?_insert, HashMap.get?_insert, HashMap.get?_insert]
  split
  · rfl
  · rfl

theorem EnclaveState.updatePartition_insert (s : EnclaveState) (part : Partition)
    (ps : PartitionState) (f : PartitionState → PartitionState) :
    EnclaveState.updatePartition { s with partitions := s.partitions.insert part.id ps } part f =
      { s with partitions := s.partitions.insert part.id (f ps) } := by
  rw [EnclaveState.updatePartition]
  simp only [HashMap.get?_insert, if_true, Option.getD_some, HashMap.insert_insert]

theorem lastApply_applyCall (w : World) (inputs authEnv : HashMap String String)
    (r : Resp (run.applyCall enc part inputs authEnv)) (pid : PartitionId) :
    (w.next (run.applyCall enc part inputs authEnv) r).lastApply enc.id pid =
      if pid = part.id then some ⟨run.applyCall enc part inputs authEnv, r⟩
      else w.lastApply enc.id pid := by
  by_cases hpid : pid = part.id
  · rw [if_pos hpid, World.lastApply, World.next_log, List.find?_cons_of_pos]
    exact decide_eq_true ⟨rfl, hpid.symm⟩
  · rw [if_neg hpid, World.lastApply_next_of_not]
    exact decide_eq_false fun h => hpid h.2.symm

/-- The rule for an apply: it fails, or the record holds the driver's handle and Terraform
answered. Between them no other apply is made. -/
theorem wp_applyPartition {inputs : HashMap String String} {existing : Option Handle}
    {s : EnclaveState} {Q : EnclaveState × Except String ProvisionResult → World → Prop}
    (hok : ∀ sa authEnv outputs w',
      A (.provisionPartition driver enc part inputs existing) (.ok sa) →
      w'.lastProvision enc.id part.id =
        some ⟨.provisionPartition driver enc part inputs existing, .ok sa⟩ →
      (∀ pid, w'.lastApply enc.id pid = if pid = part.id then
        some ⟨run.applyCall enc part inputs authEnv, .ok outputs⟩ else w.lastApply enc.id pid) →
      Q (s.updatePartition part ({ · with partitionHandle := some sa.handle }),
        .ok (run.appliedResult enc part sa outputs)) w')
    (herror : ∀ s' msg w', Q (s', .error msg) w') :
    Prog.wp (system A) (applyPartition run driver enc part inputs existing s) Q w := by
  rintro (e | sa) ⟨-, hsa⟩
  · exact herror _ _ _
  intro r _ outputs _
  rcases outputs with e | outputs
  · exact herror _ _ _
  let s' := s.updatePartition part ({ · with partitionHandle := some sa.handle })
  refine hok sa (partitionAuthEnv driver enc s' sa.handle) outputs _ hsa ?_ fun pid => ?_
  · rw [system_next, World.lastProvision_next_of_not rfl, World.lastProvision_next_of_not rfl,
      World.lastProvision, World.next_log, List.find?_cons_of_pos]
    exact decide_eq_true ⟨rfl, rfl⟩
  rw [system_next, lastApply_applyCall]
  split
  · rfl
  · rw [World.lastApply_next_of_not rfl, World.lastApply_next_of_not rfl]

/-- The rule for the visit of a partition: it is passed over, or applied, or reported. -/
theorem wpE_provisionPartition_ok {acc : EnclaveState × List ReportError}
    {Q : EnclaveState × List ReportError → World → Prop}
    (hskip : hashUnchanged ((acc.1.partitions[part.id]?).map (·.meta_))
      (run.host.partitionHash part) = true → Q acc w)
    (happlied : hashUnchanged ((acc.1.partitions[part.id]?).map (·.meta_))
        (run.host.partitionHash part) = false → ∀ m now sa existing authEnv outputs w',
      A (.provisionPartition driver enc part
        (resolveInputs part.inputs acc.1 (acc.1.contextVars driver enc)) existing) (.ok sa) →
      w'.lastProvision enc.id part.id = some ⟨.provisionPartition driver enc part
        (resolveInputs part.inputs acc.1 (acc.1.contextVars driver enc)) existing, .ok sa⟩ →
      (∀ pid, w'.lastApply enc.id pid = if pid = part.id then
        some ⟨run.applyCall enc part
          (resolveInputs part.inputs acc.1 (acc.1.contextVars driver enc)) authEnv, .ok outputs⟩
        else w.lastApply enc.id pid) →
      Q ({ acc.1 with
        partitions := acc.1.partitions.insert part.id
          (.applied run part m now (run.appliedResult enc part sa outputs)) }, acc.2) w')
    (hfailed : ∀ s msg w', Q (s, acc.2 ++ [.partition enc.id part.id msg]) w') :
    Prog.wpE (system A) (provisionPartition run driver enc acc part)
      (fun r w' => ∀ a, r = .ok a → Q a w') w := by
  simp only [provisionPartition]
  split
  · rename_i hhash
    rintro _ ⟨⟩
    exact hskip hhash
  rename_i hhash
  refine Prog.wpE_bind_ok (wpE_upsertEnclave_ok ?_)
  refine Prog.wpE_bind_ok ?_
  rw [Prog.wpE_monadLift]
  refine wp_applyPartition (fun sa authEnv outputs w₁ hsa hsent hlast => ?_) fun s msg w₁ => ?_
  · rintro _ ⟨⟩
    rw [recordPartition]
    refine Prog.wpE_bind_ok ?_
    rw [Prog.wpE_monadLift, Prog.wp_perform]
    rintro now - _ ⟨⟩
    refine Prog.wpE_bind_ok (wpE_appendEvent_ok fun w₂ hw₂ => ?_)
    rintro _ ⟨⟩
    rw [EnclaveState.updatePartition_insert, EnclaveState.updatePartition_insert]
    refine happlied (by simpa using hhash) _ now sa _ authEnv outputs w₂ hsa ?_ fun pid => ?_
    · rw [(hw₂.sameView enc.id).lastProvision, system_next, World.lastProvision_next_of_not rfl,
        hsent]
    rw [hw₂.lastApply, system_next, World.lastApply_next_of_not rfl, hlast]
    split
    · rfl
    · exact World.lastApply_next_of_not rfl
  · rintro _ ⟨⟩
    rw [recordPartition]
    refine Prog.wpE_bind_ok ?_
    rw [Prog.wpE_monadLift, Prog.wp_perform]
    rintro now - _ ⟨⟩
    refine Prog.wpE_bind_ok (wpE_appendEvent_ok fun w₂ hw₂ => ?_)
    rintro _ ⟨⟩
    exact hfailed _ _ _

end

/-! ## The partitions of an enclave -/

/-- What a clean visit does to a partition: `before` and `last` are its record and its last apply
before the visit, `after` and `last'` those after it. -/
inductive PartitionDone (run : Run) (enc : Enclave) (part : Partition)
    (inputs : HashMap String String) (before : Option PartitionState) (last : Option Event)
    (after : Option PartitionState) (last' : Option Event) : Prop
  | skipped (hash : hashUnchanged (before.map (·.meta_)) (run.host.partitionHash part) = true)
    (record : after = before) (apply : last' = last)
  | applied (hash : hashUnchanged (before.map (·.meta_)) (run.host.partitionHash part) = false)
    (m : ResourceMeta) (now : DateTime) (sa : ProvisionResult)
    (authEnv outputs : HashMap String String)
    (record : after = some (.applied run part m now (run.appliedResult enc part sa outputs)))
    (apply : last' = some ⟨run.applyCall enc part inputs authEnv, .ok outputs⟩)

theorem PartitionDone.isSome {run : Run} {enc : Enclave} {part : Partition}
    {inputs : HashMap String String} {before after : Option PartitionState}
    {last last' : Option Event}
    (h : PartitionDone run enc part inputs before last after last') : after.isSome = true := by
  cases h with
  | skipped hash record =>
    rw [record]
    cases before with
    | none => cases hash
    | some _ => rfl
  | applied _ _ _ _ _ _ record =>
    rw [record]
    rfl

/-- The partition loop of an enclave after `pre`, started on the record `base` in `w`. -/
structure PartitionLoop (run : Run) (driver : Driver) (enc : Enclave) (base : EnclaveState)
    (w : World) (pre : List Partition) (s : EnclaveState) (w' : World) : Prop where
  rest : s = { base with partitions := s.partitions }
  others : ∀ pid, (∀ part ∈ pre, part.id ≠ pid) →
    s.partitions[pid]? = base.partitions[pid]? ∧
      w'.lastApply enc.id pid = w.lastApply enc.id pid
  stored : ∀ part ∈ pre, (s.partitions[part.id]?).isSome = true
  done : (pre.map (·.id)).Nodup → ∀ part ∈ pre, PartitionDone run enc part
    (resolveInputs part.inputs base (base.contextVars driver enc)) base.partitions[part.id]?
    (w.lastApply enc.id part.id) s.partitions[part.id]? (w'.lastApply enc.id part.id)

section

variable {A : (c : Call) → Resp c → Prop} {run : Run} {driver : Driver} {enc : Enclave}

/-- The step of the loop. -/
theorem PartitionLoop.step {base s s' : EnclaveState} {w w₁ w₂ : World} {pre : List Partition}
    {part : Partition} (h : PartitionLoop run driver enc base w pre s w₁)
    (hrest : s' = { s with partitions := s'.partitions })
    (hothers : ∀ pid, pid ≠ part.id → s'.partitions[pid]? = s.partitions[pid]? ∧
      w₂.lastApply enc.id pid = w₁.lastApply enc.id pid)
    (hdone : PartitionDone run enc part
      (resolveInputs part.inputs base (base.contextVars driver enc)) s.partitions[part.id]?
      (w₁.lastApply enc.id part.id) s'.partitions[part.id]? (w₂.lastApply enc.id part.id)) :
    PartitionLoop run driver enc base w (pre ++ [part]) s' w₂ := by
  refine ⟨?_, fun pid hpid => ?_, fun p hp => ?_, fun hnodup p hp => ?_⟩
  · rw [hrest, h.rest]
  · have hne : pid ≠ part.id := fun heq => hpid part (by simp) heq.symm
    have hold := h.others pid fun p hp => hpid p (List.mem_append_left _ hp)
    exact ⟨(hothers pid hne).1.trans hold.1, (hothers pid hne).2.trans hold.2⟩
  · by_cases hid : p.id = part.id
    · rw [hid]
      exact hdone.isSome
    · have hpre := (List.mem_append.mp hp).resolve_right fun hmem =>
        hid (congrArg (·.id) (List.mem_singleton.mp hmem))
      rw [(hothers p.id hid).1]
      exact h.stored p hpre
  · rw [List.map_append, List.map_singleton, List.nodup_append] at hnodup
    have hnew : ∀ p ∈ pre, p.id ≠ part.id := fun p hp =>
      hnodup.2.2 p.id (List.mem_map_of_mem hp) part.id (List.mem_singleton_self _)
    rcases List.mem_append.mp hp with hp | hp
    · have hne := hnew p hp
      rw [(hothers p.id hne).1, (hothers p.id hne).2]
      exact h.done hnodup.1 p hp
    · obtain rfl := List.mem_singleton.mp hp
      have hold := h.others p.id hnew
      rw [hold.1, hold.2] at hdone
      exact hdone

/-- **The partitions of an enclave**, where visiting them adds no error. -/
theorem wpE_partitions_clean (base : EnclaveState) (errors : List ReportError) (w : World) :
    Prog.wpE (system A) (enc.partitions.foldlM (provisionPartition run driver enc) (base, errors))
      (fun r w' => ∀ acc, r = .ok acc → acc.2 = [] → errors = [] ∧
        PartitionLoop run driver enc base w enc.partitions acc.1 w') w := by
  have hinit : PartitionLoop run driver enc base w [] base w :=
    ⟨rfl, fun _ _ => ⟨rfl, rfl⟩, List.forall_mem_nil _, fun _ => List.forall_mem_nil _⟩
  refine wpE_foldlM_clean (b := (base, errors)) (w := w) (·.2 = [])
    (fun pre acc w' => PartitionLoop run driver enc base w pre acc.1 w')
    (fun acc part hpart => (provisionPartition_calls hpart acc).mono (fun _ _ => trivial)
      fun _ h => h.2.eq_nil) ?_ hinit
  rintro pre part post ⟨s, errors'⟩ w₁ - - hloop
  refine wpE_provisionPartition_ok (fun hhash _ => ?_)
    (fun hhash m now sa existing authEnv outputs w₂ _ _ hlast _ => ?_) fun s' msg w₂ herrors => ?_
  · exact hloop.step rfl (fun _ _ => ⟨rfl, rfl⟩) (.skipped hhash rfl rfl)
  · refine hloop.step rfl (fun pid hne => ⟨?_, ?_⟩) (.applied hhash m now sa authEnv outputs ?_ ?_)
    · simp only [HashMap.get?_insert, if_neg hne]
    · rw [hlast, if_neg hne]
    · simp only [HashMap.get?_insert, if_true]
    · rw [hlast, if_pos rfl, hloop.rest]
      rfl
  · exact absurd herrors (List.append_ne_nil_of_right_ne_nil _ (List.cons_ne_nil _ _))

end

/-! ## The visit of an enclave -/

/-- What a clean visit of an enclave makes of its record and of its partitions' applies, `st`
being the store before the run and `w` the world before the visit. -/
structure Visited (A : (c : Call) → Resp c → Prop) (run : Run) (driver : Driver) (st : Store)
    (enc : Enclave) (w : World) (s : EnclaveState) (w' : World) : Prop where
  desired : s.desired = enc
  cloud : s.resolvedCloud = some (run.registry.resolvedCloud enc)
  handle : ∃ existing result, A (.provisionEnclave driver enc existing) (.ok result) ∧
    s.enclaveHandle = some result.handle
  meta_ : ∃ now, s.meta_ =
    (EnclaveState.inFlight run enc).meta_.markActive now (run.host.enclaveHash enc)
  imports : ∀ a, s.importHandles[a]? = st.importHandle enc.id a
  exports : ∀ name x, enc.exports.reverse.find? (·.name = name) = some x →
    ∃ existing result, A (.provisionExport driver enc x (s.outputsFor x) existing) (.ok result) ∧
      s.exportHandles[name]? = some result.handle
  otherExports : ∀ name, (∀ x ∈ enc.exports, x.name ≠ name) →
    s.exportHandles[name]? = st.exportHandle enc.id name
  stored : ∀ part ∈ enc.partitions, (s.partitions[part.id]?).isSome = true
  partitions : (enc.partitions.map (·.id)).Nodup → ∀ part ∈ enc.partitions,
    PartitionDone run enc part (resolveInputs part.inputs s (s.contextVars driver enc))
      (st.partition enc.id part.id) (w.lastApply enc.id part.id) s.partitions[part.id]?
      (w'.lastApply enc.id part.id)
  otherPartitions : ∀ pid, (∀ part ∈ enc.partitions, part.id ≠ pid) →
    s.partitions[pid]? = st.partition enc.id pid ∧
      w'.lastApply enc.id pid = w.lastApply enc.id pid

section

variable {A : (c : Call) → Resp c → Prop} {run : Run} {driver : Driver} {enc : Enclave}
  {st : Store} {w w₁ w₂ w₃ : World} {s : EnclaveState}

theorem Visited.sameLast (h : Visited A run driver st enc w s w₁)
    (hw : ∀ pid, w₂.lastApply enc.id pid = w.lastApply enc.id pid)
    (hw₁ : ∀ pid, w₃.lastApply enc.id pid = w₁.lastApply enc.id pid) :
    Visited A run driver st enc w₂ s w₃ where
  desired := h.desired
  cloud := h.cloud
  handle := h.handle
  meta_ := h.meta_
  imports := h.imports
  exports := h.exports
  otherExports := h.otherExports
  stored := h.stored
  partitions hnodup part hpart := by
    rw [hw, hw₁]
    exact h.partitions hnodup part hpart
  otherPartitions pid hpid := by
    rw [hw, hw₁]
    exact h.otherPartitions pid hpid

theorem Visited.exportHandle_isSome (h : Visited A run driver st enc w s w₁) {x : Export}
    (hx : x ∈ enc.exports) : (s.exportHandles[x.name]?).isSome = true := by
  rcases hfind : enc.exports.reverse.find? (·.name = x.name) with _ | y
  · have hnone := List.find?_eq_none.mp hfind x (List.mem_reverse.mpr hx)
    simp at hnone
  · obtain ⟨existing, result, -, hhandle⟩ := h.exports x.name y hfind
    rw [hhandle]
    rfl

theorem partitions_inFlight (hexisting : run.existing enc.id = st.get? enc.id)
    (pid : PartitionId) :
    (EnclaveState.inFlight run enc).partitions[pid]? = st.partition enc.id pid := by
  rw [Store.partition, ← hexisting, EnclaveState.inFlight]
  cases run.existing enc.id with
  | none => simp [EnclaveState.new]
  | some s => rfl

/-- What the exports `pre` have made of the handles, started on `base` in `w`. -/
structure ExportLoop (A : (c : Call) → Resp c → Prop) (driver : Driver) (enc : Enclave)
    (base : EnclaveState) (w : World) (pre : List Export) (s : EnclaveState) (w' : World) :
    Prop where
  rest : s = { base with exportHandles := s.exportHandles }
  others : ∀ name, (∀ x ∈ pre, x.name ≠ name) → s.exportHandles[name]? = base.exportHandles[name]?
  /-- the last export of a name counts -/
  wired : ∀ name x, pre.reverse.find? (·.name = name) = some x →
    ∃ existing result, A (.provisionExport driver enc x (base.outputsFor x) existing) (.ok result) ∧
      s.exportHandles[name]? = some result.handle
  apply : ∀ pid, w'.lastApply enc.id pid = w.lastApply enc.id pid

/-- The exports of an enclave, where they add no error. -/
theorem wpE_exports_loop (base : EnclaveState) (errors : List ReportError) (w : World) :
    Prog.wpE (system A) (enc.exports.foldlM (provisionExport driver enc) (base, errors))
      (fun r w' => ∀ acc, r = .ok acc → acc.2 = [] → errors = [] ∧
        ExportLoop A driver enc base w enc.exports acc.1 w') w := by
  have hinit : ExportLoop A driver enc base w [] base w :=
    { rest := rfl, others := fun _ _ => rfl, wired := fun _ _ h => (nomatch h),
      apply := fun _ => rfl }
  refine wpE_foldlM_clean (b := (base, errors)) (w := w) (·.2 = [])
    (fun pre acc w' => ExportLoop A driver enc base w pre acc.1 w')
    (fun acc x hx => (provisionExport_calls hx).mono (fun _ _ => trivial) fun _ h => h.2.eq_nil)
    ?_ hinit
  rintro pre x post ⟨s, errors'⟩ w₁ - - hloop
  refine wpE_provisionExport_ok (fun existing result w₂ hresult hw₂ _ => ?_)
    fun _ _ _ herrors => absurd herrors (List.append_ne_nil_of_right_ne_nil _ (List.cons_ne_nil _ _))
  refine ⟨?_, fun name hname => ?_, fun name y hy => ?_, fun pid => ?_⟩
  · rw [hloop.rest]
  · simp only [HashMap.get?_insert]
    rw [if_neg fun h => hname x (by simp) h.symm]
    exact hloop.others name fun y hy => hname y (List.mem_append_left _ hy)
  · have houtputs : (s, errors').1.outputsFor = base.outputsFor := by
      have hpartitions : s.partitions = base.partitions := congrArg (·.partitions) hloop.rest
      funext y
      rw [EnclaveState.outputsFor, hpartitions]
      rfl
    rw [houtputs] at hresult
    rw [List.reverse_append, List.reverse_singleton, List.singleton_append, List.find?_cons] at hy
    simp only [HashMap.get?_insert]
    split at hy
    · rename_i hname
      obtain rfl := Option.some.inj hy
      rw [if_pos (by simpa using Eq.symm (by simpa using hname))]
      exact ⟨existing, result, hresult, rfl⟩
    · rename_i hname
      rw [if_neg (by simpa using Ne.symm (by simpa using hname))]
      exact hloop.wired name y hy
  · rw [hw₂.lastApply, World.lastApply_next_of_not rfl, hloop.apply]

/-- The visit of an enclave, where it adds no error. -/
theorem wpE_provisionEnclave_visited (hexisting : run.existing enc.id = st.get? enc.id)
    (w : World) :
    Prog.wpE (system A) (provisionEnclave run [] enc)
      (fun r w' => ∀ errors, r = .ok errors → errors = [] →
        ∃ driver s, run.registry.forEnclave enc = .ok driver ∧
          w'.store.get? enc.id = some s ∧ Visited A run driver st enc w s w') w := by
  rcases hdriver : run.registry.forEnclave enc with e | driver
  · rw [provisionEnclave, hdriver]
    rintro _ ⟨⟩ ⟨⟩
  refine wpE_provisionEnclave_ok hdriver (fun existing result now w₁ hresult hw₁ => ?_)
    fun _ _ _ _ _ _ _ _ herrors =>
      absurd herrors (List.append_ne_nil_of_right_ne_nil _ (List.cons_ne_nil _ _))
  refine wpE_provisionContents_ok ?_
  refine Prog.wpE_mono (wpE_partitions_clean _ [] w₁) fun _ w₂ h₂ acc hacc => ?_
  refine Prog.wpE_mono (wpE_exports_loop acc.1 acc.2 w₂)
    fun _ w₃ h₃ acc' hacc' w₄ hw₄ hnil => ?_
  obtain ⟨hnil₂, hrest, hothers, hwired, hlast⟩ := h₃ acc' hacc' hnil
  obtain ⟨-, hloop⟩ := h₂ acc hacc hnil₂
  have hid : acc'.1.desired = enc := by
    rw [hrest, hloop.rest]
    rfl
  refine ⟨driver, acc'.1, rfl, (Store.get?_upsert ..).trans (if_pos (by rw [hid])), ?_⟩
  have hend : ∀ pid, (w₄.next (.upsertEnclave acc'.1) (.ok ())).lastApply enc.id pid =
      w₂.lastApply enc.id pid := fun pid => by
    rw [World.lastApply_next_of_not rfl, hw₄.lastApply, hlast]
  have hstart : ∀ pid, w₁.lastApply enc.id pid = w.lastApply enc.id pid := fun pid => by
    rw [hw₁.lastApply, World.lastApply_next_of_not rfl, World.lastApply_next_of_not rfl]
  have hparts : acc'.1.partitions = acc.1.partitions := by rw [hrest]
  have houtputs : ∀ x, acc'.1.outputsFor x = acc.1.outputsFor x := fun x => by
    rw [hrest]
    rfl
  refine ⟨hid, ?_, ⟨existing, result, hresult, ?_⟩, ⟨now, ?_⟩, fun a => ?_, fun name x hx => ?_,
    fun name hname => ?_, fun part hpart => ?_, fun hnodup part hpart => ?_, fun pid hpid => ?_⟩
  · rw [hrest, hloop.rest]
    rfl
  · rw [hrest, hloop.rest]
  · rw [hrest, hloop.rest]
  · rw [hrest, hloop.rest]
    exact importHandles_inFlight hexisting a
  · rw [houtputs]
    exact hwired name x hx
  · rw [hothers name hname, hloop.rest]
    exact exportHandles_inFlight hexisting name
  · rw [hparts]
    exact hloop.stored part hpart
  · have hdone := hloop.done hnodup part hpart
    rw [hstart, ← hend] at hdone
    rw [hparts, ← partitions_inFlight hexisting]
    have hbase : ∀ base : EnclaveState, acc.1 = { base with partitions := acc.1.partitions } →
        resolveInputs part.inputs acc'.1 (acc'.1.contextVars driver enc) =
          resolveInputs part.inputs base (base.contextVars driver enc) := by
      intro base hacc
      rw [hrest, hacc]
      rfl
    rw [hbase _ hloop.rest]
    exact hdone
  · have hother := hloop.others pid hpid
    rw [hstart, ← hend] at hother
    rw [hparts, ← partitions_inFlight hexisting]
    exact hother

end

/-! ## Runs without errors -/

section

variable {A : (c : Call) → Resp c → Prop} {host : Host} {req : ReconcileRequest}
  {registry : DriverRegistry} {desired : List Enclave} {run : Run} {w : World}

theorem wpE_teardownRemoved_gone {id : EnclaveId} (hex : (run.existing id).isSome = true)
    (errors : List ReportError) (w : World) :
    Prog.wpE (system A) (teardownRemoved run errors id)
      (fun r w' => ∀ a, r = .ok a → w'.store.get? id = none) w := by
  obtain ⟨existing, hrec⟩ := Option.isSome_iff_exists.mp hex
  rw [teardownRemoved, hrec]
  refine Prog.wpE_bind_ok (Prog.wp_iff.mpr fun _ w₁ _ errors' _ => Prog.wpE_bind_ok ?_)
  rw [wpE_orFail, Prog.wp_perform]
  rintro (e | ⟨⟩) -
  · rintro _ ⟨⟩
  rintro _ ⟨⟩ _ ⟨⟩
  rw [system_next, World.next_store, World.nextStore, Store.get?_delete, if_pos rfl]

/-- The teardown pass drops the records of the removed enclaves and touches no other. -/
theorem wpE_teardownPass_gone {removed : List EnclaveId}
    (hkeyed : ∀ id s, run.existing id = some s → s.desired.id = id)
    (hstored : ∀ id ∈ removed, (run.existing id).isSome = true) (w : World) :
    Prog.wpE (system A) (teardownPass run removed)
      (fun r w' => ∀ errors, r = .ok errors → (∀ id ∈ removed, w'.store.get? id = none) ∧
        ∀ id, id ∉ removed → w.SameView id w') w := by
  let I (pre : List EnclaveId) (_ : List ReportError) (w' : World) : Prop :=
    (∀ id ∈ pre, w'.store.get? id = none) ∧ ∀ id, id ∉ pre → w.SameView id w'
  refine Prog.wp_foldlM_ok I ?_ (fun _ _ h => h)
    ⟨fun _ h => absurd h List.not_mem_nil, fun id _ => .refl id w⟩
  rintro pre x post errors w₁ hsplit ⟨hgone, hview⟩
  have hx : x ∈ removed := by simp [hsplit]
  refine Prog.wp_iff.mpr fun r w₂ hrun errors' hr => ?_
  have hother : ∀ id, id ≠ x → w₁.SameView id w₂ := fun id hid =>
    hrun.wp (sameView_teardownRemoved (A := A) (hkeyed x) hid errors w₁ (.refl id w₁))
  refine ⟨fun id hid => ?_, fun id hid => ?_⟩
  · by_cases heq : id = x
    · rw [heq]
      exact hrun.wp (wpE_teardownRemoved_gone (hstored x hx) errors w₁) errors' hr
    · rw [(hother id heq).store]
      exact hgone id ((List.mem_append.mp hid).resolve_right (by simpa using heq))
  · rw [List.mem_append, not_or] at hid
    exact (hview id hid.1).trans (hother id (by simpa using hid.2))

/-- Wiring applies no partition. -/
theorem lastApply_wiringPass {ordered : List Enclave} (errors : List ReportError)
    (id : EnclaveId) (pid : PartitionId) (last : Option Event) :
    Prog.Keeps (system A) (fun w => w.lastApply id pid = last)
      (wiringPass run ordered errors) := by
  refine Prog.Keeps.foldlM (fun errors enc _ => ?_) errors
  refine (wireEnclave_calls errors).keeps _ fun w c r hc _ hw => ?_
  rw [system_next, World.lastApply_next_of_not, hw]
  cases hc <;> rfl

/-- What a run without errors makes of the store and of the partitions' applies: the listed
enclaves are visited, the others gone. The wiring pass has left `s'` of the record `s`. -/
structure Settled (A : (c : Call) → Resp c → Prop) (run : Run) (desired : List Enclave)
    (w w' : World) : Prop where
  gone : ∀ id, id ∉ desired.map (·.id) → w'.store.get? id = none
  visited : ∀ enc ∈ desired, ∃ driver s s', run.registry.forEnclave enc = .ok driver ∧
    w'.store.get? enc.id = some s' ∧ s'.rest = s.rest ∧ Visited A run driver w.store enc w s w'

theorem Settled.quiet {w₁ w₂ w₃ : World} (h : Settled A run desired w₁ w₂) (hw : w.Quiet w₁)
    (hw' : w₂.Quiet w₃) : Settled A run desired w w₃ where
  gone id hid := by
    rw [hw'.store]
    exact h.gone id hid
  visited enc henc := by
    obtain ⟨driver, s, s', hdriver, hs', hrest, hvisited⟩ := h.visited enc henc
    refine ⟨driver, s, s', hdriver, by rw [hw'.store]; exact hs', hrest, ?_⟩
    rw [hw.store] at hvisited
    exact hvisited.sameLast (fun pid => (hw.lastApply enc.id pid).symm)
      fun pid => hw'.lastApply enc.id pid

/-- The provision pass over distinct enclaves, where it adds no error. -/
theorem wpE_provisionPass_visited {ordered : List Enclave} {st : Store}
    (hnodup : (ordered.map (·.id)).Nodup)
    (hexisting : ∀ id, run.existing id = st.get? id) (errors : List ReportError) :
    Prog.wpE (system A) (provisionPass run ordered errors)
      (fun r w' => ∀ errors', r = .ok errors' → errors' = [] → errors = [] ∧
        ∀ enc ∈ ordered, ∃ driver s, run.registry.forEnclave enc = .ok driver ∧
          w'.store.get? enc.id = some s ∧ Visited A run driver st enc w s w') w := by
  refine wpE_provisionPass_once (· = []) (fun enc w' => ∃ driver s,
    run.registry.forEnclave enc = .ok driver ∧ w'.store.get? enc.id = some s ∧
      Visited A run driver st enc w s w') hnodup (fun h => h.eq_nil) ?_ ?_ errors
  · rintro enc w₁ w₂ ⟨driver, s, hdriver, hs, hvisited⟩ hview -
    exact ⟨driver, s, hdriver, by rw [hview.store]; exact hs,
      hvisited.sameLast (fun _ => rfl) fun pid => hview.lastApply pid⟩
  · rintro enc henc errors w₁ hview rfl
    refine Prog.wpE_mono (wpE_provisionEnclave_visited (hexisting enc.id) w₁)
      fun r w₂ h errors' hr hnil => ?_
    obtain ⟨driver, s, hdriver, hs, hvisited⟩ := h errors' hr hnil
    exact ⟨driver, s, hdriver, hs,
      hvisited.sameLast (fun pid => (hview.lastApply pid).symm) fun _ => rfl⟩

/-- The passes of a run, where they add no error. -/
theorem wpE_passes_settled {resolved : ResolvedGraph} {removed : List EnclaveId}
    (hlawful : host.topo.Lawful) (hnodup : (desired.map (·.id)).Nodup)
    (hstart : RunStart host req registry desired w run resolved removed) :
    Prog.wpE (system A) (passes run removed (orderedDesired resolved desired))
      (fun r w' => ∀ errors, r = .ok errors → errors = [] → Settled A run desired w w') w := by
  let R (s : EnclaveState) : Prop := s.desired.id ∈ desired.map (·.id)
  have hperm := orderedDesired_perm hlawful hstart.valid hnodup
  have hordered : ∀ enc ∈ orderedDesired resolved desired, enc ∈ desired := fun enc henc =>
    hperm.mem_iff.mp henc
  have hstored : ∀ id ∈ removed, (run.existing id).isSome = true := fun id hid => by
    rw [hstart.existing]
    exact ((hstart.mem_removed id).mp hid).1
  refine Prog.wpE_bind_ok (Prog.wpE_mono (wpE_teardownPass_gone (fun id s => hstart.keyed) hstored w)
    fun r₁ w₁ h₁ errors₁ hr₁ => ?_)
  obtain ⟨hgone, hview⟩ := h₁ errors₁ hr₁
  have hdesired : ∀ enc ∈ desired, w.SameView enc.id w₁ := fun enc henc => hview enc.id fun hid =>
    ((hstart.mem_removed _).mp hid).2 (List.mem_map_of_mem henc)
  have hrecords : w₁.Records R := by
    intro id s hs
    rw [← show s.desired.id = id from Store.id_of_get? hs] at hs
    by_contra hid
    by_cases hrem : s.desired.id ∈ removed
    · rw [hgone _ hrem] at hs
      cases hs
    · rw [(hview _ hrem).store] at hs
      exact hrem ((hstart.mem_removed _).mpr ⟨Option.isSome_iff_exists.mpr ⟨s, hs⟩, hid⟩)
  have hkeepsProvision : Prog.Keeps (system A) (World.Records R)
      (provisionPass run (orderedDesired resolved desired) errors₁) :=
    Prog.Keeps.foldlM (fun errors enc henc => keeps_provisionEnclave (stores_records R)
      (enclaveSteps_desired.mono fun s hs => by
        show s.desired.id ∈ _
        rw [hs]
        exact List.mem_map_of_mem (hordered enc henc)) errors) errors₁
  have hkeepsWiring : ∀ errors, Prog.Keeps (system A) (World.Records R)
      (wiringPass run (orderedDesired resolved desired) errors) := fun errors =>
    Prog.Keeps.foldlM (fun errors enc _ => keeps_wireEnclave (stores_records R)
      (fun _ _ hs => hs) errors) errors
  refine Prog.wpE_bind_ok (Prog.wpE_mono (Prog.wp_and.mpr ⟨hkeepsProvision hrecords,
    wpE_provisionPass_visited ((hperm.map _).nodup_iff.mpr hnodup) hstart.existing errors₁⟩)
    fun r₂ w₂ h₂ errors₂ hr₂ => ?_)
  refine Prog.wp_iff.mpr fun r₃ w₃ hrun errors₃ hr₃ hnil => ?_
  have hnil₂ := hrun.wp (wiringPass_adds errors₂ w₂) errors₃ hr₃ hnil
  have hkeepsRest : Prog.Keeps (system A) w₂.SameRest
      (wiringPass run (orderedDesired resolved desired) errors₂) :=
    Prog.Keeps.foldlM (fun errors _ _ => sameRest_wireEnclave errors w₂) errors₂
  have hrest := hrun.wp (hkeepsRest (.refl w₂))
  refine ⟨fun id hid => ?_, fun enc henc => ?_⟩
  · rcases hs : w₃.store.get? id with _ | s
    · rfl
    · have hmem := hrun.wp (hkeepsWiring errors₂ h₂.1) id s hs
      rw [show R s ↔ s.desired.id ∈ desired.map (·.id) from .rfl, Store.id_of_get? hs] at hmem
      exact absurd hmem hid
  · obtain ⟨driver, s, hdriver, hs, hvisited⟩ := (h₂.2 errors₂ hr₂ hnil₂).2 enc
      (hperm.mem_iff.mpr henc)
    obtain ⟨s', hs', hsame⟩ := World.SameRest.exists_record hrest hs
    refine ⟨driver, s, s', hdriver, hs', hsame, hvisited.sameLast
      (fun pid => ((hdesired enc henc).lastApply pid).symm) fun pid => ?_⟩
    exact hrun.wp (lastApply_wiringPass errors₂ enc.id pid _ rfl)

/-- **Runs without errors.** -/
theorem settled_of_run (hlawful : host.topo.Lawful) (hdry : req.dryRun = false)
    (hnodup : (desired.map (·.id)).Nodup) {report : ReconcileReport} {w' : World}
    (hrun : Prog.Exec (system A) (reconcileLoaded host req registry desired).run w
      (.ok report) w') (herrors : report.errors = []) :
    ∃ run resolved removed, RunStart host req registry desired w run resolved removed ∧
      Settled A run desired w w' := by
  let J (w' : World) (errors : List ReportError) : Prop := errors = [] →
    ∃ run resolved removed, RunStart host req registry desired w run resolved removed ∧
      Settled A run desired w w'
  refine (hrun.wp (wpE_reconcileLoaded_keeps (I := fun _ => True) (J := J) hdry
    (fun _ _ _ _ => trivial) ?_ ?_ trivial)).2 report rfl herrors
  · intro w₁ w₂ errors h hquiet hnil
    obtain ⟨run, resolved, removed, hstart, hsettled⟩ := h hnil
    exact ⟨run, resolved, removed, hstart, hsettled.quiet (.refl w) hquiet⟩
  · intro run resolved removed w₁ hstart hquiet _
    exact Prog.wpE_mono (wpE_passes_settled hlawful hnodup (hstart.quiet hquiet)) fun _ _ h =>
      ⟨trivial, fun errors hr hnil => ⟨run, resolved, removed, hstart,
        (h errors hr hnil).quiet hquiet (.refl _)⟩⟩

end

end Nclav
