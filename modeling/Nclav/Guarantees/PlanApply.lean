import Nclav.Guarantees.ErrorFree

/-!
# Plan and apply

The changes of a report are computed from the snapshot, and the partition loop asks again,
of its own copy of the record, whether to skip. Both ask about the same hash: the copy starts
as the snapshot's record, and a partition that was not visited yet is in it what it was.
-/

namespace Nclav

open Effect

/-! ## The builds of an enclave -/

/-- The call makes the enclave or a partition of it. -/
def Call.builds (id : EnclaveId) : Call → Bool
  | .provisionEnclave _ enc _ => enc.id = id
  | .provisionPartition _ enc _ _ _ => enc.id = id
  | _ => false

/-- The call makes this partition. -/
def Call.makes (id : EnclaveId) (pid : PartitionId) : Call → Bool
  | .provisionPartition _ enc part _ _ => enc.id = id ∧ part.id = pid
  | _ => false

theorem Call.builds_of_makes {id : EnclaveId} {pid : PartitionId} {c : Call}
    (h : c.makes id pid = true) : c.builds id = true := by
  cases c with
  | provisionPartition => exact decide_eq_true (of_decide_eq_true h).1
  | _ => cases h

namespace World

/-- The calls that made an enclave and its partitions. -/
def builds (w : World) (id : EnclaveId) : List Event := w.log.filter fun ev => ev.1.builds id

section

variable {w w' : World} {id : EnclaveId}

theorem builds_next_of_not {c : Call} (hc : c.builds id = false) (r : Resp c) :
    (w.next c r).builds id = w.builds id := by
  rw [builds, next_log, List.filter_cons, if_neg (by simpa using hc)]
  rfl

theorem builds_next {c : Call} (hc : c.builds id = true) (r : Resp c) :
    (w.next c r).builds id = ⟨c, r⟩ :: w.builds id := by
  rw [builds, next_log, List.filter_cons, if_pos hc]
  rfl

theorem SameView.builds (h : w.SameView id w') : w'.builds id = w.builds id := by
  have htrace : ∀ w : World, (w.trace id).filter (fun ev => ev.1.builds id) = w.builds id := by
    intro w
    rw [World.trace, List.filter_filter, World.builds]
    refine List.filter_congr fun ev _ => ?_
    obtain ⟨c, r⟩ := ev
    cases c with
    | provisionEnclave | provisionPartition => simp [Call.builds, Call.subject]
    | _ => simp [Call.builds]
  rw [← htrace, h.trace, htrace]

theorem Quiet.builds (h : w.Quiet w') (id : EnclaveId) : w'.builds id = w.builds id :=
  (h.sameView id).builds

end

end World

/-- Calls that build nothing of the enclave. -/
theorem keeps_builds {A : (c : Call) → Resp c → Prop} {α : Type} {P : Call → Prop} {Q : α → Prop}
    {p : Sys α} (hp : Prog.Calls P Q p) {id : EnclaveId} (hP : ∀ c, P c → c.builds id = false)
    (w : World) : Prog.wp (system A) p (fun _ w' => w'.builds id = w.builds id) w := by
  have hkeep : ∀ w' c r, P c → (system A).adm w' c r → World.builds w' id = w.builds id →
      World.builds (World.next w' c r) id = w.builds id := fun w' c r hc _ hw' => by
    rw [World.builds_next_of_not (hP c hc), hw']
  exact Prog.wp_mono (hp.wp (M := system A) hkeep rfl) fun _ _ h => h.2

/-! ## One partition -/

/-- The event is a provision of this partition. -/
def Event.IsProvision (driver : Driver) (enc : Enclave) (ev : Event) (part : Partition) : Prop :=
  ∃ inputs existing, ev.1 = .provisionPartition driver enc part inputs existing

/-- The snapshot has another hash for the partition, or none. -/
def Run.due (run : Run) (enc : Enclave) (part : Partition) : Bool :=
  !hashUnchanged (((run.existing enc.id).bind (·.partitions[part.id]?)).map (·.meta_))
    (run.host.partitionHash part)

section

variable {A : (c : Call) → Resp c → Prop} {run : Run} {driver : Driver} {enc : Enclave}

/-- The visit of a partition makes it, unless its hash is unchanged. -/
theorem wpE_provisionPartition_builds (acc : EnclaveState × List ReportError) (part : Partition)
    (w : World) :
    Prog.wpE (system A) (provisionPartition run driver enc acc part)
      (fun r w' => ∀ a, r = .ok a →
        if hashUnchanged ((acc.1.partitions[part.id]?).map (·.meta_))
          (run.host.partitionHash part) then w'.builds enc.id = w.builds enc.id
        else ∃ ev, Event.IsProvision driver enc ev part ∧
          w'.builds enc.id = ev :: w.builds enc.id) w := by
  simp only [provisionPartition]
  split
  · rintro _ ⟨⟩
    rfl
  refine Prog.wpE_bind_ok (wpE_upsertEnclave_ok ?_)
  refine Prog.wpE_bind_ok ?_
  rw [Prog.wpE_monadLift, applyPartition, Prog.bind_eq, Prog.wp_bind, Prog.wp_perform]
  intro sa _
  -- past the driver call nothing more is built
  let P (c : Call) : Prop := c.builds enc.id = false
  refine Prog.wp_mono (keeps_builds (P := P) (Q := fun _ => True) ?_ (fun _ h => h) _)
    fun applied w₁ hw₁ => ?_
  · cases sa with
    | error e => trivial
    | ok sa =>
      refine ⟨rfl, fun _ => ⟨rfl, fun tf => ?_⟩⟩
      cases tf with
      | error e => trivial
      | ok tf => trivial
  · rintro _ ⟨⟩
    have hbuilds : ∃ ev, Event.IsProvision driver enc ev part ∧
        w₁.builds enc.id = ev :: w.builds enc.id := by
      refine ⟨⟨_, sa⟩, ⟨_, _, rfl⟩, hw₁.trans ?_⟩
      refine (World.builds_next ?_ sa).trans (congrArg _ (World.builds_next_of_not rfl _))
      exact decide_eq_true rfl
    obtain ⟨ev, hev, hevs⟩ := hbuilds
    rw [recordPartition]
    refine Prog.wpE_bind_ok ?_
    rw [Prog.wpE_monadLift, Prog.wp_perform]
    rintro now - _ ⟨⟩
    have hnow : ((system A).next w₁ .now now).builds enc.id = ev :: w.builds enc.id :=
      (World.builds_next_of_not rfl now).trans hevs
    cases applied.2 with
    | ok result =>
      refine Prog.wpE_bind_ok (wpE_appendEvent_ok fun w₂ hw₂ => ?_)
      rintro _ ⟨⟩
      exact ⟨ev, hev, (hw₂.builds enc.id).trans hnow⟩
    | error msg =>
      refine Prog.wpE_bind_ok (wpE_appendEvent_ok fun w₂ hw₂ => ?_)
      rintro _ ⟨⟩
      exact ⟨ev, hev, (hw₂.builds enc.id).trans hnow⟩

/-- The visit of a partition leaves the others of the copy alone. -/
theorem wpE_provisionPartition_others {acc : EnclaveState × List ReportError} {part : Partition}
    (hpart : part ∈ enc.partitions) (w : World) :
    Prog.wpE (system A) (provisionPartition run driver enc acc part)
      (fun r _ => ∀ a, r = .ok a →
        ∀ pid, pid ≠ part.id → a.1.partitions[pid]? = acc.1.partitions[pid]?) w := by
  let R (s : EnclaveState) : Prop :=
    ∀ pid, pid ≠ part.id → s.partitions[pid]? = acc.1.partitions[pid]?
  have hinsert : ∀ (s : EnclaveState) ps, R s →
      R { s with partitions := s.partitions.insert part.id ps } := by
    intro s ps hs pid hne
    simp only [HashMap.get?_insert, if_neg hne]
    exact hs pid hne
  have hsteps : PartitionSteps run part R R :=
    ⟨fun s hs => hinsert s _ hs, fun s _ hs => hinsert s _ hs, fun s _ _ hs => hinsert s _ hs,
      fun s _ _ hs => hinsert s _ hs⟩
  have hcalls : Prog.CallsE (Call.Provisions enc R)
      (fun a => R a.1 ∧ ReportError.Adds enc.id acc.2 a.2)
      (provisionPartition run driver enc acc part) :=
    provisionPartition_records hpart hsteps fun _ _ => rfl
  exact Prog.wpE_mono (hcalls.wpE (M := system A) (I := fun _ => True) (fun _ _ _ _ _ h => h)
    trivial) fun r _ h a hr => (h.1 a hr).1

/-! ## The partitions of an enclave -/

/-- The partition loop after `pre`: what was due was made, the newest first, and what is to come
is in the copy as in the record that the loop began with. -/
structure BuildLoop (run : Run) (driver : Driver) (enc : Enclave) (base : EnclaveState) (w : World)
    (pre : List Partition) (s : EnclaveState) (w' : World) : Prop where
  others : ∀ pid, (∀ part ∈ pre, part.id ≠ pid) → s.partitions[pid]? = base.partitions[pid]?
  built : ∃ evs, w'.builds enc.id = evs ++ w.builds enc.id ∧
    List.Forall₂ (Event.IsProvision driver enc) evs (pre.filter (run.due enc)).reverse

theorem BuildLoop.skip {base s s' : EnclaveState} {w w₁ w₂ : World} {pre : List Partition}
    {part : Partition} (h : BuildLoop run driver enc base w pre s w₁)
    (hdue : run.due enc part = false)
    (hothers : ∀ pid, pid ≠ part.id → s'.partitions[pid]? = s.partitions[pid]?)
    (hbuilds : w₂.builds enc.id = w₁.builds enc.id) :
    BuildLoop run driver enc base w (pre ++ [part]) s' w₂ := by
  obtain ⟨evs, hevs, hall⟩ := h.built
  refine ⟨fun pid hpid => ?_, evs, by rw [hbuilds, hevs], ?_⟩
  · rw [hothers pid fun heq => hpid part (by simp) heq.symm]
    exact h.others pid fun p hp => hpid p (List.mem_append_left _ hp)
  · rw [List.filter_append, List.filter_singleton, hdue]
    simpa using hall

theorem BuildLoop.make {base s s' : EnclaveState} {w w₁ w₂ : World} {pre : List Partition}
    {part : Partition} {ev : Event} (h : BuildLoop run driver enc base w pre s w₁)
    (hdue : run.due enc part = true)
    (hothers : ∀ pid, pid ≠ part.id → s'.partitions[pid]? = s.partitions[pid]?)
    (hev : Event.IsProvision driver enc ev part)
    (hbuilds : w₂.builds enc.id = ev :: w₁.builds enc.id) :
    BuildLoop run driver enc base w (pre ++ [part]) s' w₂ := by
  obtain ⟨evs, hevs, hall⟩ := h.built
  refine ⟨fun pid hpid => ?_, ev :: evs, by rw [hbuilds, hevs, List.cons_append], ?_⟩
  · rw [hothers pid fun heq => hpid part (by simp) heq.symm]
    exact h.others pid fun p hp => hpid p (List.mem_append_left _ hp)
  · rw [List.filter_append, List.filter_singleton, hdue, List.reverse_append]
    exact .cons hev hall

/-- **The partition loop makes what is due**, once each, in the order of the declaration. -/
theorem wpE_partitions_builds (hnodup : (enc.partitions.map (·.id)).Nodup) (base : EnclaveState)
    (hbase : ∀ pid : PartitionId,
      base.partitions[pid]? = (run.existing enc.id).bind (·.partitions[pid]?))
    (errors : List ReportError) (w : World) :
    Prog.wpE (system A) (enc.partitions.foldlM (provisionPartition run driver enc) (base, errors))
      (fun r w' => ∀ acc, r = .ok acc →
        BuildLoop run driver enc base w enc.partitions acc.1 w') w := by
  let I (pre : List Partition) (acc : EnclaveState × List ReportError) (w' : World) : Prop :=
    BuildLoop run driver enc base w pre acc.1 w'
  refine Prog.wp_foldlM_ok I ?_ (fun _ _ h => h) ⟨fun _ _ => rfl, [], rfl, .nil⟩
  rintro pre part post ⟨s, errors'⟩ w₁ hsplit hloop
  have hnew : ∀ p ∈ pre, p.id ≠ part.id := by
    rw [hsplit, List.map_append, List.map_cons, List.nodup_append] at hnodup
    exact fun p hp => hnodup.2.2 p.id (List.mem_map_of_mem hp) part.id (List.mem_cons_self ..)
  have hsame : s.partitions[part.id]? = (run.existing enc.id).bind (·.partitions[part.id]?) := by
    rw [hloop.others part.id hnew, hbase]
  refine Prog.wpE_mono (Prog.wp_and.mpr ⟨wpE_provisionPartition_builds (s, errors') part w₁,
    wpE_provisionPartition_others (by simp [hsplit]) w₁⟩) fun r w₂ h acc hacc => ?_
  have hbuilds := h.1 acc hacc
  have hothers := h.2 acc hacc
  simp only [hsame] at hbuilds
  split at hbuilds
  · rename_i hhash
    exact hloop.skip (by rw [Run.due, hhash]; rfl) hothers hbuilds
  · rename_i hhash
    obtain ⟨ev, hev, hevs⟩ := hbuilds
    exact hloop.make (by rw [Run.due, Bool.eq_false_iff.mpr hhash]; rfl) hothers hev hevs

/-! ## An enclave -/

/-- What the visit of an enclave builds, newest first. -/
inductive EnclaveBuilt (run : Run) (enc : Enclave) : List Event → Prop
  | noDriver {e : DriverError} (h : run.registry.forEnclave enc = .error e) : EnclaveBuilt run enc []
  | failed {driver : Driver} (h : run.registry.forEnclave enc = .ok driver)
    (existing : Option Handle) (e : DriverError) :
    EnclaveBuilt run enc [⟨.provisionEnclave driver enc existing, .error e⟩]
  | provisioned {driver : Driver} (h : run.registry.forEnclave enc = .ok driver)
    (existing : Option Handle) (result : ProvisionResult) {evs : List Event}
    (hevs : List.Forall₂ (Event.IsProvision driver enc) evs
      (enc.partitions.filter (run.due enc)).reverse) :
    EnclaveBuilt run enc (evs ++ [⟨.provisionEnclave driver enc existing, .ok result⟩])

theorem builds_exports (acc : EnclaveState × List ReportError) (w : World) :
    Prog.wpE (system A) (enc.exports.foldlM (provisionExport driver enc) acc)
      (fun r w' => ∀ a, r = .ok a → w'.builds enc.id = w.builds enc.id) w := by
  let I (_ : List Export) (_ : EnclaveState × List ReportError) (w' : World) : Prop :=
    w'.builds enc.id = w.builds enc.id
  refine Prog.wp_foldlM_ok I ?_ (fun _ _ h => h) rfl
  intro pre ex post acc w₁ _ hw₁
  refine wpE_provisionExport_ok (fun existing result w₂ _ hw₂ => ?_) fun existing e _ => ?_
  · exact (hw₂.builds enc.id).trans ((World.builds_next_of_not rfl _).trans hw₁)
  · exact (World.builds_next_of_not rfl _).trans hw₁

theorem wpE_provisionEnclave_builds (hnodup : (enc.partitions.map (·.id)).Nodup)
    (errors : List ReportError) (w : World) :
    Prog.wpE (system A) (provisionEnclave run errors enc)
      (fun r w' => ∀ a, r = .ok a →
        ∃ evs, w'.builds enc.id = evs ++ w.builds enc.id ∧ EnclaveBuilt run enc evs) w := by
  rcases hdriver : run.registry.forEnclave enc with e | driver
  · rw [provisionEnclave, hdriver]
    rintro _ ⟨⟩
    exact ⟨[], rfl, .noDriver hdriver⟩
  have hbuilds : ∀ existing r, ((w.next (.upsertEnclave (.inFlight run enc)) (.ok ())).next
      (.provisionEnclave driver enc existing) r).builds enc.id =
        ⟨.provisionEnclave driver enc existing, r⟩ :: w.builds enc.id := fun existing r => by
    rw [World.builds_next (by simp [Call.builds]), World.builds_next_of_not rfl]
  refine wpE_provisionEnclave_ok hdriver (fun existing result now w₁ _ hw₁ => ?_)
    fun existing e now w₁ w₂ _ hw₁ hw₂ => ?_
  · have hbase : ∀ pid : PartitionId, (EnclaveState.inFlight run enc).partitions[pid]? =
        (run.existing enc.id).bind (·.partitions[pid]?) := by
      intro pid
      rw [EnclaveState.inFlight]
      cases run.existing enc.id with
      | none => simp [EnclaveState.new]
      | some s => rfl
    refine wpE_provisionContents_ok ?_
    refine Prog.wpE_mono (wpE_partitions_builds hnodup _ (by exact hbase) errors w₁)
      fun _ w₂ h₂ acc hacc => ?_
    refine Prog.wpE_mono (builds_exports acc w₂) fun _ w₃ h₃ acc' hacc' w₄ hw₄ => ?_
    obtain ⟨evs, hevs, hall⟩ := (h₂ acc hacc).built
    refine ⟨_, ?_, .provisioned hdriver existing result hall⟩
    rw [World.builds_next_of_not rfl, hw₄.builds, h₃ acc' hacc', hevs, hw₁.builds, hbuilds,
      List.append_assoc, List.singleton_append]
  · refine ⟨_, ?_, .failed hdriver existing e⟩
    rw [hw₂.builds, World.builds_next_of_not rfl, hw₁.builds, hbuilds, List.singleton_append]

/-- What a list of builds has of one partition. -/
theorem length_filter_makes {parts : List Partition} {evs : List Event}
    (h : List.Forall₂ (Event.IsProvision driver enc) evs parts) (pid : PartitionId) :
    (evs.filter fun ev => ev.1.makes enc.id pid).length =
      (parts.filter fun part => part.id = pid).length := by
  induction h with
  | nil => rfl
  | @cons ev part evs parts hev _ ih =>
    obtain ⟨inputs, existing, hcall⟩ := hev
    have hmakes : ev.1.makes enc.id pid = decide (part.id = pid) := by
      rw [hcall]
      simp [Call.makes]
    rw [List.filter_cons, List.filter_cons, hmakes]
    split
    · rw [List.length_cons, List.length_cons, ih]
    · exact ih

theorem exists_provision_of_mem {parts : List Partition} {evs : List Event}
    (h : List.Forall₂ (Event.IsProvision driver enc) evs parts) {ev : Event} (hev : ev ∈ evs) :
    ∃ part ∈ parts, Event.IsProvision driver enc ev part := by
  induction h with
  | nil => cases hev
  | @cons ev' part evs parts hprov _ ih =>
    rcases List.mem_cons.mp hev with rfl | hev
    · exact ⟨part, List.mem_cons_self .., hprov⟩
    · obtain ⟨part', hpart', hprov'⟩ := ih hev
      exact ⟨part', List.mem_cons_of_mem _ hpart', hprov'⟩

/-- With distinct ids a list has at most one partition of an id. -/
theorem length_filter_id {parts : List Partition} (hnodup : (parts.map (·.id)).Nodup)
    (pid : PartitionId) : (parts.filter fun part => part.id = pid).length =
      if pid ∈ parts.map (·.id) then 1 else 0 := by
  rw [← List.countP_eq_length_filter]
  have hcount : parts.countP (fun part => part.id = pid) = (parts.map (·.id)).count pid := by
    rw [List.count, List.countP_map]
    exact List.countP_congr fun part _ => by simp
  rw [hcount]
  split
  · rename_i hmem
    exact List.count_eq_one_of_mem hnodup hmem
  · rename_i hmem
    exact List.count_eq_zero_of_not_mem hmem

/-- Where the enclave itself was provisioned, each partition that was due was made, once. -/
theorem EnclaveBuilt.makes {driver : Driver} {evs : List Event} (h : EnclaveBuilt run enc evs)
    (hdriver : run.registry.forEnclave enc = .ok driver)
    (hok : ∃ existing result, ⟨.provisionEnclave driver enc existing, .ok result⟩ ∈ evs)
    (hnodup : (enc.partitions.map (·.id)).Nodup) (pid : PartitionId) :
    (evs.filter fun ev => ev.1.makes enc.id pid).length =
        (if pid ∈ (enc.partitions.filter (run.due enc)).map (·.id) then 1 else 0) ∧
      ∀ ev ∈ evs, ev.1.makes enc.id pid = true →
        ∃ part ∈ enc.partitions, part.id = pid ∧ Event.IsProvision driver enc ev part := by
  obtain ⟨existing, result, hmem⟩ := hok
  cases h with
  | noDriver h => cases hmem
  | failed h existing' e =>
    cases List.mem_singleton.mp hmem
  | @provisioned driver' h existing' result' evs' hevs =>
    obtain rfl : driver = driver' := Except.ok.inj (hdriver.symm.trans h)
    constructor
    · have hlast : [(⟨.provisionEnclave driver enc existing', .ok result'⟩ : Event)].filter
          (fun ev => ev.1.makes enc.id pid) = [] := rfl
      rw [List.filter_append, hlast, List.append_nil, length_filter_makes hevs,
        length_filter_id]
      · simp only [List.map_reverse, List.mem_reverse]
      · rw [List.map_reverse, List.nodup_reverse]
        exact hnodup.sublist (List.filter_sublist.map _)
    · intro ev hev hmakes
      rcases List.mem_append.mp hev with hev | hev
      · obtain ⟨part, hpart, hprov⟩ := exists_provision_of_mem hevs hev
        have hdecl := (List.mem_filter.mp (List.mem_reverse.mp hpart)).1
        obtain ⟨inputs, existing, hcall⟩ := hprov
        rw [hcall] at hmakes
        exact ⟨part, hdecl, (of_decide_eq_true hmakes).2, inputs, existing, hcall⟩
      · rw [List.mem_singleton.mp hev] at hmakes
        cases hmakes

end

/-! ## The report -/

/-- The report lists the partition as created or updated. -/
def ReconcileReport.Lists (report : ReconcileReport) (id : EnclaveId) (pid : PartitionId) : Prop :=
  .partitionCreated id pid ∈ report.changes ∨ .partitionUpdated id pid ∈ report.changes

instance (report : ReconcileReport) (id : EnclaveId) (pid : PartitionId) :
    Decidable (report.Lists id pid) :=
  inferInstanceAs (Decidable (_ ∨ _))

theorem mem_hashChanges {m : Option ResourceMeta} {hash : String} {created updated c : Change} :
    c ∈ hashChanges m hash created updated ↔
      hashUnchanged m hash = false ∧ ((m = none ∧ c = created) ∨ (m ≠ none ∧ c = updated)) := by
  rw [hashChanges]
  cases m with
  | none => simp [hashUnchanged]
  | some m =>
    cases hhash : hashUnchanged (some m) hash with
    | true => simp
    | false => simp

section

variable {run : Run} {removed : List EnclaveId} {ordered : List Enclave} {enc : Enclave}

/-- The diff lists what is due. -/
theorem mem_diff_partition {id : EnclaveId} {pid : PartitionId} :
    (Change.partitionCreated id pid ∈ diff run.host run.actualStates removed ordered ∨
      Change.partitionUpdated id pid ∈ diff run.host run.actualStates removed ordered) ↔
      ∃ enc ∈ ordered, enc.id = id ∧ ∃ part ∈ enc.partitions, part.id = pid ∧
        run.due enc part = true := by
  have hmem : ∀ c, (c = .partitionCreated id pid ∨ c = .partitionUpdated id pid) →
      (c ∈ diff run.host run.actualStates removed ordered ↔
        ∃ enc ∈ ordered, ∃ part ∈ enc.partitions,
          c ∈ hashChanges (((run.existing enc.id).bind (·.partitions[part.id]?)).map (·.meta_))
            (run.host.partitionHash part) (.partitionCreated enc.id part.id)
            (.partitionUpdated enc.id part.id)) := by
    intro c hc
    rw [diff, List.mem_append, List.mem_append, List.mem_flatMap, List.mem_flatMap]
    constructor
    · rintro ((h | ⟨enc, henc, h⟩) | ⟨enc, -, h⟩)
      · obtain ⟨_, -, rfl⟩ := List.mem_map.mp h
        exact hc.elim nofun nofun
      · rw [enclaveChanges, List.mem_append, List.mem_append, List.mem_flatMap] at h
        rcases h with (h | h) | h
        · obtain ⟨-, ⟨-, rfl⟩ | ⟨-, rfl⟩⟩ := mem_hashChanges.mp h
          · exact hc.elim nofun nofun
          · exact hc.elim nofun nofun
        · exact ⟨enc, henc, h⟩
        · obtain ⟨_, -, rfl⟩ := List.mem_map.mp h
          exact hc.elim nofun nofun
      · obtain ⟨_, -, rfl⟩ := List.mem_map.mp h
        exact hc.elim nofun nofun
    · rintro ⟨enc, henc, h⟩
      refine .inl (.inr ⟨enc, henc, ?_⟩)
      rw [enclaveChanges, List.mem_append, List.mem_append, List.mem_flatMap]
      exact .inl (.inr h)
  rw [hmem _ (.inl rfl), hmem _ (.inr rfl)]
  constructor
  · rintro (⟨enc, henc, part, hpart, h⟩ | ⟨enc, henc, part, hpart, h⟩)
    · obtain ⟨hhash, ⟨-, h⟩ | ⟨-, h⟩⟩ := mem_hashChanges.mp h
      · cases h
        exact ⟨enc, henc, rfl, part, hpart, rfl, by rw [Run.due, hhash]; rfl⟩
      · cases h
    · obtain ⟨hhash, ⟨-, h⟩ | ⟨-, h⟩⟩ := mem_hashChanges.mp h
      · cases h
      · cases h
        exact ⟨enc, henc, rfl, part, hpart, rfl, by rw [Run.due, hhash]; rfl⟩
  · rintro ⟨enc, henc, rfl, part, hpart, rfl, hdue⟩
    have hhash : hashUnchanged (((run.existing enc.id).bind (·.partitions[part.id]?)).map (·.meta_))
        (run.host.partitionHash part) = false := by
      simpa [Run.due] using hdue
    by_cases hnone : ((run.existing enc.id).bind (·.partitions[part.id]?)).map (·.meta_) = none
    · exact .inl ⟨enc, henc, part, hpart, mem_hashChanges.mpr ⟨hhash, .inl ⟨hnone, rfl⟩⟩⟩
    · exact .inr ⟨enc, henc, part, hpart, mem_hashChanges.mpr ⟨hhash, .inr ⟨hnone, rfl⟩⟩⟩

end

/-! ## Runs -/

section

variable {A : (c : Call) → Resp c → Prop} {host : Host} {req : ReconcileRequest}
  {registry : DriverRegistry} {desired : List Enclave} {run : Run} {w : World}

/-- What the passes build of the desired enclaves is what their visits build. -/
theorem wpE_passes_builds {resolved : ResolvedGraph} {removed : List EnclaveId}
    (hlawful : host.topo.Lawful) (hnodup : (desired.map (·.id)).Nodup)
    (hparts : ∀ enc ∈ desired, (enc.partitions.map (·.id)).Nodup)
    (hstart : RunStart host req registry desired w run resolved removed) (w₀ : World) :
    Prog.wpE (system A) (passes run removed (orderedDesired resolved desired))
      (fun r w' => ∀ errors, r = .ok errors → ∀ enc ∈ desired,
        ∃ evs, w'.builds enc.id = evs ++ w₀.builds enc.id ∧ EnclaveBuilt run enc evs) w₀ := by
  have hperm := orderedDesired_perm hlawful hstart.valid hnodup
  have hstored : ∀ id ∈ removed, (run.existing id).isSome = true := fun id hid => by
    rw [hstart.existing]
    exact ((hstart.mem_removed id).mp hid).1
  refine Prog.wpE_bind_ok (Prog.wpE_mono
    (wpE_teardownPass_gone (fun id s => hstart.keyed) hstored w₀) fun r₁ w₁ h₁ errors₁ hr₁ => ?_)
  have hview : ∀ enc ∈ desired, w₁.builds enc.id = w₀.builds enc.id := fun enc henc =>
    ((h₁ errors₁ hr₁).2 enc.id fun hid =>
      ((hstart.mem_removed _).mp hid).2 (List.mem_map_of_mem henc)).builds
  let Q (enc : Enclave) (w' : World) : Prop :=
    ∃ evs, w'.builds enc.id = evs ++ w₁.builds enc.id ∧ EnclaveBuilt run enc evs
  refine Prog.wpE_bind_ok (Prog.wpE_mono (wpE_provisionPass_once (fun _ => True) Q
    ((hperm.map _).nodup_iff.mpr hnodup) (fun _ _ => trivial) ?_ ?_ errors₁)
    fun r₂ w₂ h₂ errors₂ hr₂ => ?_)
  · rintro enc w' w'' ⟨evs, hevs, hbuilt⟩ hsame -
    exact ⟨evs, by rw [hsame.builds, hevs], hbuilt⟩
  · intro enc henc errors w' hsame _
    refine Prog.wpE_mono (wpE_provisionEnclave_builds (hparts enc (hperm.mem_iff.mp henc)) errors w')
      fun r w'' h errors' hr _ => ?_
    obtain ⟨evs, hevs, hbuilt⟩ := h errors' hr
    exact ⟨evs, by rw [hevs, hsame.builds], hbuilt⟩
  · refine Prog.wp_iff.mpr fun r₃ w₃ hrun errors₃ _ enc henc => ?_
    obtain ⟨evs, hevs, hbuilt⟩ := (h₂ errors₂ hr₂ trivial).2 enc (hperm.mem_iff.mpr henc)
    have hwires : Prog.Keeps (system A) (fun w' => w'.builds enc.id = w₂.builds enc.id)
        (wiringPass run (orderedDesired resolved desired) errors₂) := by
      refine Prog.Keeps.foldlM (fun errors enc _ => ?_) errors₂
      refine (wireEnclave_calls errors).keeps _ fun w' c r hc _ hw' => ?_
      rw [system_next, World.builds_next_of_not _ r, hw']
      cases hc <;> rfl
    exact ⟨evs, by rw [hrun.wp (hwires rfl), hevs, hview enc henc], hbuilt⟩

/-- What a run built of its enclaves, and the changes that it reported. -/
theorem builds_of_run (hlawful : host.topo.Lawful) (hdry : req.dryRun = false)
    (hnodup : (desired.map (·.id)).Nodup)
    (hparts : ∀ enc ∈ desired, (enc.partitions.map (·.id)).Nodup)
    {report : ReconcileReport} {w' : World}
    (hrun : Prog.Exec (system A) (reconcileLoaded host req registry desired).run w
      (.ok report) w') :
    ∃ run resolved removed, RunStart host req registry desired w run resolved removed ∧
      report.changes = diff host run.actualStates removed (orderedDesired resolved desired) ∧
      ∀ enc ∈ desired, ∃ evs, w'.builds enc.id = evs ++ w.builds enc.id ∧
        EnclaveBuilt run enc evs := by
  let Q (r : Except ReconcileError ReconcileReport) (w' : World) : Prop := ∀ report, r = .ok report →
    ∃ run resolved removed, RunStart host req registry desired w run resolved removed ∧
      report.changes = diff host run.actualStates removed (orderedDesired resolved desired) ∧
      ∀ enc ∈ desired, ∃ evs, w'.builds enc.id = evs ++ w.builds enc.id ∧
        EnclaveBuilt run enc evs
  refine hrun.wp (Q := Q) (wpE_reconcileLoaded hdry (fun _ _ => nofun) (fun _ _ _ _ => nofun) ?_)
    report rfl
  intro run resolved removed w₁ hstart hw₁
  refine wpE_applyPasses (fun _ _ _ _ => nofun) fun w₂ hw₂ => ?_
  refine Prog.wpE_mono (wpE_passes_builds hlawful hnodup hparts hstart w₂)
    fun r w₃ h₃ w₄ hw₄ => ⟨fun report hreport => ?_, fun _ _ => nofun⟩
  cases r with
  | error e => cases hreport
  | ok errors =>
    obtain rfl := Except.ok.inj hreport
    refine ⟨run, resolved, removed, hstart, rfl, fun enc henc => ?_⟩
    obtain ⟨evs, hevs, hbuilt⟩ := h₃ errors rfl enc henc
    refine ⟨evs, ?_, hbuilt⟩
    rw [hw₄.builds, hevs, hw₂.builds, hw₁.builds]

end

/-! ## Dry runs -/

/-- The call only reads: the store, the clock, the random source, the order of a set. -/
def Call.reads : Call → Bool
  | .getEnclave _ | .listEnclaves | .now | .newUuid | .enclaveOrder _ | .partitionOrder _ => true
  | _ => false

/-- Only reading calls lie between the two worlds. -/
structure World.OnlyReads (w w' : World) : Prop where
  store : w'.store = w.store
  log : ∃ evs, w'.log = evs ++ w.log ∧ ∀ ev ∈ evs, ev.1.reads = true

theorem World.OnlyReads.refl (w : World) : w.OnlyReads w :=
  ⟨rfl, [], rfl, fun _ h => absurd h List.not_mem_nil⟩

theorem World.OnlyReads.next {w w' : World} (h : w.OnlyReads w') {c : Call} (hc : c.reads = true)
    (r : Resp c) : w.OnlyReads (w'.next c r) := by
  obtain ⟨hstore, evs, hlog, hevs⟩ := h
  refine ⟨Eq.trans ?_ hstore, ⟨c, r⟩ :: evs, ?_, List.forall_mem_cons.mpr ⟨hc, hevs⟩⟩
  · cases c <;> first | rfl | cases hc
  · rw [next_log, hlog, List.cons_append]

section

variable {host : Host} {req : ReconcileRequest} {registry : DriverRegistry}
  {desired : List Enclave} {w : World}

theorem reconcileLoaded_dry_calls (hdry : req.dryRun = true) :
    Prog.CallsE (fun c => c.reads = true) (fun _ => True)
      (reconcileLoaded host req registry desired) := by
  rw [reconcileLoaded]
  split
  · exact Prog.CallsE.throw
  simp only [hdry, if_true]
  let P (c : Call) : Prop := c.reads = true
  have hread : ∀ c, P c → Prog.Calls P (fun _ => True) (perform c) := fun _ => Prog.Calls.perform
  refine Prog.CallsE.bind (callsE_orFail (hread _ rfl)) fun records _ => ?_
  exact Prog.CallsE.bind (Prog.CallsE.monadLift (hread _ rfl)) fun removed _ =>
    Prog.CallsE.pure trivial

/-- Two runs of a list from one store plan the same. -/
theorem perm_changes {A : (c : Call) → Resp c → Prop} {req' : ReconcileRequest}
    {w₁ w₂ w₁' w₂' : World} {report₁ report₂ : ReconcileReport} (hstore : w₁.store = w₂.store)
    (hrun₁ : Prog.Exec (system A) (reconcileLoaded host req registry desired).run w₁
      (.ok report₁) w₁')
    (hrun₂ : Prog.Exec (system A) (reconcileLoaded host req' registry desired).run w₂
      (.ok report₂) w₂') : report₁.changes.Perm report₂.changes := by
  obtain ⟨resolved₁, actual₁, removed₁, hvalid₁, hactual₁, hremoved₁, hchanges₁⟩ :=
    planned_of_run hrun₁
  obtain ⟨resolved₂, actual₂, removed₂, hvalid₂, hactual₂, hremoved₂, hchanges₂⟩ :=
    planned_of_run hrun₂
  obtain rfl : resolved₁ = resolved₂ := Except.ok.inj (hvalid₁.symm.trans hvalid₂)
  obtain rfl : actual₁ = actual₂ := Std.ExtTreeMap.ext_getElem? fun id => by
    rw [hactual₁, hactual₂, hstore]
  rw [hchanges₁, hchanges₂, diff, diff]
  exact (((hremoved₁.trans hremoved₂.symm).map _).append_right _).append_right _

/-- A dry run on a valid list fails only where the store does. -/
theorem error_of_dry_run {A : (c : Call) → Resp c → Prop} (hdry : req.dryRun = true)
    {resolved : ResolvedGraph} (hvalid : validate host.topo desired = .ok resolved)
    {e : ReconcileError} {w' : World}
    (hrun : Prog.Exec (system A) (reconcileLoaded host req registry desired).run w
      (.error e) w') : ∃ e', e = .store e' := by
  refine hrun.wp (Q := fun r _ => ∀ e, r = .error e → ∃ e', e = .store e') ?_ e rfl
  show Prog.wpE (system A) (reconcileLoaded host req registry desired) _ w
  rw [reconcileLoaded, hvalid]
  simp only [hdry, if_true]
  rw [Prog.wpE_bind, wpE_orFail, Prog.wp_perform]
  rintro (e | records) -
  · rintro _ ⟨⟩
    exact ⟨e, rfl⟩
  · rintro removed - _ ⟨⟩

end

theorem onlyReads_of_dry_run {A : (c : Call) → Resp c → Prop} {host : Host}
    {req : ReconcileRequest} {registry : DriverRegistry} {desired : List Enclave}
    (hdry : req.dryRun = true) {w w' : World} {r : Except ReconcileError ReconcileReport}
    (hrun : Prog.Exec (system A) (reconcileLoaded host req registry desired).run w r w') :
    w.OnlyReads w' :=
  hrun.wp ((reconcileLoaded_dry_calls hdry).keeps w.OnlyReads
    (fun _ _ r hc _ hw => hw.next hc r) (.refl w))

/-- What a dry run reports, an apply from the same store reports as well, and an error of it that is
not the store's the apply has too. -/
theorem dry_run_agrees {A : (c : Call) → Resp c → Prop} {host : Host} {fs : FileSystem} {root : Dir}
    {req : ReconcileRequest} {registry : DriverRegistry} {w₁ w₂ w₁' w₂' : World}
    {r₁ r₂ : Except ReconcileError ReconcileReport} (hstore : w₁.store = w₂.store)
    (hdry : req.dryRun = true)
    (hrun₁ : Prog.Exec (system A) (reconcile host fs root req registry).run w₁ r₁ w₁')
    (hrun₂ : Prog.Exec (system A)
      (reconcile host fs root { req with dryRun := false } registry).run w₂ r₂ w₂') :
    (∀ report₁ report₂, r₁ = .ok report₁ → r₂ = .ok report₂ →
      report₁.changes.Perm report₂.changes) ∧
    ∀ e, r₁ = .error e → (∃ e', e = .store e') ∨ r₂ = .error e := by
  rcases hload : loadEnclaves fs req.enclavesDir root with e | desired
  · rw [reconcile_of_load_error hload] at hrun₁
    have hload' : loadEnclaves fs { req with dryRun := false }.enclavesDir root = .error e := hload
    rw [reconcile_of_load_error hload'] at hrun₂
    cases hrun₁
    cases hrun₂
    refine ⟨?_, fun e he => .inr he⟩
    rintro _ _ ⟨⟩
  rw [reconcile_of_loaded hload] at hrun₁
  have hload' : loadEnclaves fs { req with dryRun := false }.enclavesDir root = .ok desired := hload
  rw [reconcile_of_loaded hload'] at hrun₂
  refine ⟨?_, ?_⟩
  · rintro report₁ report₂ rfl rfl
    exact perm_changes hstore hrun₁ hrun₂
  · rintro e rfl
    rcases hvalid : validate host.topo desired with e' | resolved
    · rw [reconcileLoaded_of_invalid hvalid] at hrun₁ hrun₂
      cases hrun₁
      cases hrun₂
      exact .inr rfl
    · exact .inl (error_of_dry_run hdry hvalid hrun₁)

/-- The calls that make a partition are among those of its enclave. -/
theorem filter_makes_of_builds {evs built : List Event} {id : EnclaveId}
    (h : evs.filter (fun ev => ev.1.builds id) = built) (pid : PartitionId) :
    evs.filter (fun ev => ev.1.makes id pid) = built.filter fun ev => ev.1.makes id pid := by
  rw [← h, List.filter_filter]
  refine List.filter_congr fun ev _ => ?_
  cases hmakes : ev.1.makes id pid with
  | true => rw [Call.builds_of_makes hmakes]; rfl
  | false => rfl

/-- A report lists a partition iff it is due in the run. -/
theorem mem_due_iff_lists {host : Host} (hlawful : host.topo.Lawful) {req : ReconcileRequest}
    {registry : DriverRegistry} {desired : List Enclave} (hnodup : (desired.map (·.id)).Nodup)
    {w : World} {run : Run} {resolved : ResolvedGraph} {removed : List EnclaveId}
    (hstart : RunStart host req registry desired w run resolved removed) {report : ReconcileReport}
    (hchanges : report.changes =
      diff host run.actualStates removed (orderedDesired resolved desired))
    {enc : Enclave} (henc : enc ∈ desired) (pid : PartitionId) :
    pid ∈ (enc.partitions.filter (run.due enc)).map (·.id) ↔ report.Lists enc.id pid := by
  rw [ReconcileReport.Lists, hchanges, ← hstart.host_eq, mem_diff_partition, List.mem_map]
  constructor
  · rintro ⟨part, hpart, hpid⟩
    obtain ⟨hpart, hdue⟩ := List.mem_filter.mp hpart
    exact ⟨enc, (orderedDesired_perm hlawful hstart.valid hnodup).mem_iff.mpr henc, rfl, part,
      hpart, hpid, hdue⟩
  · rintro ⟨enc', henc', hid, part, hpart, hpid, hdue⟩
    obtain rfl := List.inj_on_of_nodup_map hnodup (mem_of_mem_orderedDesired henc') henc hid
    exact ⟨part, List.mem_filter.mpr ⟨hpart, hdue⟩, hpid⟩

/-- **Plan and apply agree.** A dry run reads, and does nothing else. What it reports, an apply from
the same store reports as well, and an error of it that is not the store's the apply has too. An apply
that reports, of distinct enclaves with distinct partitions, makes in an enclave that was itself
provisioned exactly the partitions that the report lists, each once, with the driver of the enclave. -/
theorem plan_and_apply_agree {host : Host} (hlawful : host.topo.Lawful) (fs : FileSystem)
    (root : Dir) (req : ReconcileRequest) (registry : DriverRegistry) :
    (∀ w r w', req.dryRun = true →
      Prog.Exec (system anyAnswer) (reconcile host fs root req registry).run w r w' →
      w.OnlyReads w') ∧
    (∀ w₁ w₂ r₁ r₂ w₁' w₂', w₁.store = w₂.store → req.dryRun = true →
      Prog.Exec (system anyAnswer) (reconcile host fs root req registry).run w₁ r₁ w₁' →
      Prog.Exec (system anyAnswer)
        (reconcile host fs root { req with dryRun := false } registry).run w₂ r₂ w₂' →
      (∀ report₁ report₂, r₁ = .ok report₁ → r₂ = .ok report₂ →
        report₁.changes.Perm report₂.changes) ∧
      ∀ e, r₁ = .error e → (∃ e', e = .store e') ∨ r₂ = .error e) ∧
    (∀ desired w report w' evs, req.dryRun = false →
      loadEnclaves fs req.enclavesDir root = .ok desired → (desired.map (·.id)).Nodup →
      (∀ enc ∈ desired, (enc.partitions.map (·.id)).Nodup) →
      Prog.Exec (system anyAnswer) (reconcile host fs root req registry).run w (.ok report) w' →
      w'.log = evs ++ w.log →
      ∀ enc ∈ desired, ∀ driver, registry.forEnclave enc = .ok driver →
        (∃ existing result, ⟨.provisionEnclave driver enc existing, .ok result⟩ ∈ evs) →
        ∀ pid, (evs.filter fun ev => ev.1.makes enc.id pid).length =
            (if report.Lists enc.id pid then 1 else 0) ∧
          ∀ ev ∈ evs, ev.1.makes enc.id pid = true →
            ∃ part ∈ enc.partitions, part.id = pid ∧ Event.IsProvision driver enc ev part) := by
  refine ⟨fun w r w' hdry hrun => ?_, fun w₁ w₂ r₁ r₂ w₁' w₂' hstore hdry hrun₁ hrun₂ => ?_,
    fun desired w report w' evs hdry hload hnodup hparts hrun hlog enc henc driver hdriver hok => ?_⟩
  · rcases hload : loadEnclaves fs req.enclavesDir root with e | desired
    · rw [reconcile_of_load_error hload] at hrun
      cases hrun
      exact .refl w
    · rw [reconcile_of_loaded hload] at hrun
      exact onlyReads_of_dry_run hdry hrun
  · exact dry_run_agrees hstore hdry hrun₁ hrun₂
  · rw [reconcile_of_loaded hload] at hrun
    obtain ⟨run, resolved, removed, hstart, hchanges, hbuilt⟩ :=
      builds_of_run hlawful hdry hnodup hparts hrun
    obtain ⟨built, hbuilds, hvisit⟩ := hbuilt enc henc
    have hnew : evs.filter (fun ev => ev.1.builds enc.id) = built := by
      rw [World.builds, World.builds, hlog, List.filter_append] at hbuilds
      exact List.append_cancel_right hbuilds
    have hok' : ∃ existing result, ⟨.provisionEnclave driver enc existing, .ok result⟩ ∈ built := by
      obtain ⟨existing, result, hmem⟩ := hok
      refine ⟨existing, result, ?_⟩
      rw [← hnew]
      exact List.mem_filter.mpr ⟨hmem, decide_eq_true rfl⟩
    rw [← hstart.registry_eq] at hdriver
    intro pid
    obtain ⟨hcount, hcalls⟩ := hvisit.makes hdriver hok' (hparts enc henc) pid
    constructor
    · have hmakes := filter_makes_of_builds hnew pid
      have hlists := mem_due_iff_lists hlawful hnodup hstart hchanges henc pid
      rw [hmakes, hcount]
      exact if_congr hlists rfl rfl
    · intro ev hev hmakes
      refine hcalls ev ?_ hmakes
      rw [← hnew]
      exact List.mem_filter.mpr ⟨hev, Call.builds_of_makes hmakes⟩

/-- A first apply of one partition: the report lists it, and it is made once. -/
theorem named_made_once :
    ∃ report, (namedRun "p" .empty).1 = .ok report ∧ report.Lists ⟨"a"⟩ ⟨"p"⟩ ∧
      ((namedRun "p" .empty).2.log.filter fun ev => ev.1.makes ⟨"a"⟩ ⟨"p"⟩).length = 1 := by
  have hlists : ((namedRun "p" .empty).1.toOption.map fun report =>
      decide (report.Lists ⟨"a"⟩ ⟨"p"⟩)) = some true := by decide +kernel
  rcases hreport : (namedRun "p" .empty).1 with e | report
  · rw [hreport] at hlists
    cases hlists
  rw [hreport] at hlists
  have hlisted : report.Lists ⟨"a"⟩ ⟨"p"⟩ := of_decide_eq_true (Option.some.inj hlists)
  have hrun := exec_namedRun "p" .empty
  rw [hreport] at hrun
  have hprovisioned : (namedRun "p" .empty).2.log[16]? =
      some ⟨.provisionEnclave plainDriver (namedEnclave "p") none, .ok ⟨.null, ∅⟩⟩ := rfl
  refine ⟨report, rfl, hlisted, ?_⟩
  have hmade := (plan_and_apply_agree Topo.kahn_lawful (named "p") regionlessRoot enclavesRequest
    gcpOnly).2.2 [namedEnclave "p"] .empty report _ _ rfl load_first (by decide)
    (nodup_partitions_named "p") hrun (List.append_nil _).symm (namedEnclave "p")
    (List.mem_singleton_self _) _ rfl ⟨_, _, List.mem_of_getElem? hprovisioned⟩ ⟨"p"⟩
  exact hmade.1.trans (if_pos hlisted)

end Nclav
