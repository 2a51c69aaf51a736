import Nclav.Guarantees.ErrorFree

/-!
# The life of a record

Between two writes of a record each enclave and partition in it has moved by one transition at most:
what was in flight came to an end, and what is worked on next is put in flight. A partition that its
enclave lists twice may do both at once. So no resource is stored as active or failed that was not
stored in flight before, and over any stretch of time in which a resource stays recorded its
generation never falls, a creation time stays what it is, and two records of one generation differ
in nothing but the status.
-/

namespace Nclav

open Effect

/-! ## Transitions -/

/-- The driver or Terraform is at work. -/
def ProvisioningStatus.InFlight (status : ProvisioningStatus) : Prop :=
  status = .provisioning ∨ status = .updating

/-- What is in flight may come to an end. -/
inductive ResourceMeta.Settles (m : ResourceMeta) : ResourceMeta → Prop
  | refl : Settles m m
  | active (now : DateTime) (hash : String) (h : m.status.InFlight) :
    Settles m (m.markActive now hash)
  | error (now : DateTime) (msg : String) (h : m.status.InFlight) :
    Settles m (m.markError now msg)

/-- Anything may be put in flight. -/
inductive ResourceMeta.Starts (m : ResourceMeta) : ResourceMeta → Prop
  | refl : Starts m m
  | inFlight (status : ProvisioningStatus) (h : status.InFlight) : Starts m { m with status }

/-- The metadata of a resource before and after a call, `none` where it is not recorded. What came to
an end may have been put in flight again by the same call: so it is with the second of two listed
partitions of one id. -/
inductive ResourceMove : Option ResourceMeta → Option ResourceMeta → Prop
  | gone (m : Option ResourceMeta) : ResourceMove m none
  | created : ResourceMove none (some { ResourceMeta.default with status := .provisioning })
  | moved {m m₁ m' : ResourceMeta} (hsettles : m.Settles m₁) (hstarts : m₁.Starts m') :
    ResourceMove (some m) (some m')

/-- The metadata of the enclave itself, or of one of its partitions. -/
def EnclaveState.metaOf (s : EnclaveState) : Option PartitionId → Option ResourceMeta
  | none => some s.meta_
  | some pid => s.partitions[pid]?.map (·.meta_)

def Store.metaOf (st : Store) (id : EnclaveId) (k : Option PartitionId) : Option ResourceMeta :=
  (st.get? id).bind (·.metaOf k)

/-- Every resource has moved: it came to an end, was put in flight, or one after the other. -/
def Store.Moves (st st' : Store) : Prop := ∀ id k, ResourceMove (st.metaOf id k) (st'.metaOf id k)

/-- The last call has moved each resource so. -/
def World.Moved (w : World) : Prop := ∀ ev l, w.log = ev :: l → (replay l).Moves w.store

section

variable {m m' : ResourceMeta} {st st' : Store} {w : World}

theorem ResourceMove.refl : (m : Option ResourceMeta) → ResourceMove m m
  | none => .gone none
  | some _ => .moved .refl .refl

theorem Store.Moves.refl (st : Store) : st.Moves st := fun _ _ => .refl _

theorem Store.metaOf_of_get? {id : EnclaveId} {s : EnclaveState} (h : st.get? id = some s)
    (k : Option PartitionId) : st.metaOf id k = s.metaOf k := by
  rw [Store.metaOf, h, Option.bind_some]

theorem Store.moves_upsert {s : EnclaveState}
    (h : ∀ k, ResourceMove (st.metaOf s.desired.id k) (s.metaOf k)) : st.Moves (st.upsert s) := by
  intro id k
  by_cases hid : id = s.desired.id
  · have hget : (st.upsert s).get? s.desired.id = some s := (Store.get?_upsert ..).trans (if_pos rfl)
    rw [hid, Store.metaOf_of_get? hget]
    exact h k
  · rw [Store.metaOf, Store.metaOf, Store.get?_upsert, if_neg hid]
    exact .refl _

theorem Store.moves_delete (id : EnclaveId) : st.Moves (st.delete id) := by
  intro id' k
  rw [Store.metaOf, Store.metaOf, Store.get?_delete]
  split
  · exact .gone _
  · exact .refl _

theorem Store.moves_deletePartition (id : EnclaveId) (pid : PartitionId) :
    st.Moves (st.deletePartition id pid) := by
  intro id' k
  rw [Store.metaOf, Store.metaOf, Store.get?_deletePartition]
  split
  · rename_i heq
    rw [heq]
    rcases st.get? id with _ | s
    · exact .gone _
    · cases k with
      | none => exact .refl _
      | some pid' =>
        show ResourceMove (s.metaOf (some pid')) ((s.partitions.erase pid)[pid']?.map (·.meta_))
        rw [HashMap.get?_erase]
        split
        · exact .gone _
        · exact .refl _
  · exact .refl _

/-- What a call does to the store, if it writes no record. -/
theorem moves_nextStore (c : Call) (r : Resp c) (hwrite : ∀ s, c ≠ .upsertEnclave s) :
    st.Moves (World.nextStore st c r) := by
  cases c with
  | upsertEnclave s => exact absurd rfl (hwrite s)
  | deleteEnclave id =>
    cases r with
    | ok _ => exact Store.moves_delete id
    | error e => exact .refl st
  | deletePartition id pid =>
    cases r with
    | ok _ => exact Store.moves_deletePartition id pid
    | error e => exact .refl st
  | _ => exact .refl st

theorem World.Always.moved (h : w.Always World.Moved) {c : Call} {r : Resp c}
    (hmoves : w.store.Moves (w.next c r).store) : (w.next c r).Always World.Moved := by
  refine h.next fun ev l hlog => ?_
  obtain ⟨-, rfl⟩ := List.cons.inj hlog
  rw [← show w.store = replay w.log from h.replayed]
  exact hmoves

/-- A call that writes no record. -/
theorem World.Always.moved_call (h : w.Always World.Moved) (c : Call) (r : Resp c)
    (hwrite : ∀ s, c ≠ .upsertEnclave s) : (w.next c r).Always World.Moved :=
  h.moved (moves_nextStore c r hwrite)

/-- A record is written. -/
theorem World.Always.moved_upsert (h : w.Always World.Moved) {s : EnclaveState}
    (hs : ∀ k, ResourceMove (w.store.metaOf s.desired.id k) (s.metaOf k))
    (r : Except StoreError Unit) : (w.next (.upsertEnclave s) r).Always World.Moved := by
  refine h.moved ?_
  cases r with
  | ok _ => exact Store.moves_upsert hs
  | error e => exact .refl _

theorem World.Always.moved_quiet {w' : World} (h : w.Always World.Moved) (hquiet : w.Quiet w') :
    w'.Always World.Moved := by
  refine hquiet.keeps (fun w c r hc hw => hw.moved_call c r ?_) h
  rintro s rfl
  cases hc

end

/-! ## The record at hand -/

/-- A resource is put in flight. -/
inductive ResourceStart : Option ResourceMeta → Option ResourceMeta → Prop
  | new : ResourceStart none (some { ResourceMeta.default with status := .provisioning })
  | known {m : ResourceMeta} {status : ProvisioningStatus} (h : status.InFlight) :
    ResourceStart (some m) (some { m with status })

/-- The record at hand is what is stored, but that what was in flight may have come to an end. -/
structure Pending (enc : Enclave) (w : World) (s : EnclaveState) : Prop where
  id : s.desired.id = enc.id
  settles : ∀ k, Option.Rel ResourceMeta.Settles (w.store.metaOf enc.id k) (s.metaOf k)

/-- The record at hand is what is stored, with a resource in flight. -/
structure Flying (enc : Enclave) (k : Option PartitionId) (w : World) (s : EnclaveState) : Prop where
  id : s.desired.id = enc.id
  stored : ∀ k', w.store.metaOf enc.id k' = s.metaOf k'
  inFlight : ∃ m, s.metaOf k = some m ∧ m.status.InFlight

theorem EnclaveState.metaOf_insert (s : EnclaveState) (pid : PartitionId) (ps : PartitionState)
    (k : Option PartitionId) :
    EnclaveState.metaOf { s with partitions := s.partitions.insert pid ps } k =
      if k = some pid then some ps.meta_ else s.metaOf k := by
  cases k with
  | none => rfl
  | some pid' =>
    show ((s.partitions.insert pid ps)[pid']?).map (·.meta_) = _
    rw [HashMap.get?_insert]
    by_cases hpid : pid' = pid
    · rw [if_pos hpid, if_pos (congrArg some hpid)]
      rfl
    · rw [if_neg hpid, if_neg fun h => hpid (Option.some.inj h)]
      rfl

section

variable {enc : Enclave} {k : Option PartitionId} {w w' : World} {s s' : EnclaveState}

theorem Pending.of_store (h : Pending enc w s) (hstore : w'.store = w.store) : Pending enc w' s where
  id := h.id
  settles k := hstore ▸ h.settles k

theorem Flying.of_store (h : Flying enc k w s) (hstore : w'.store = w.store) :
    Flying enc k w' s where
  id := h.id
  stored k' := hstore ▸ h.stored k'
  inFlight := h.inFlight

/-- Writing the record at hand. -/
theorem Pending.moves (h : Pending enc w s) (k : Option PartitionId) :
    ResourceMove (w.store.metaOf enc.id k) (s.metaOf k) := by
  have hsettles := h.settles k
  generalize w.store.metaOf enc.id k = o at hsettles ⊢
  generalize s.metaOf k = o' at hsettles ⊢
  cases hsettles with
  | some hsettles => exact .moved hsettles .refl
  | none => exact .gone _

theorem Flying.pending (h : Flying enc k w s) : Pending enc w s := by
  refine ⟨h.id, fun k' => ?_⟩
  rw [h.stored k']
  cases s.metaOf k' with
  | none => exact .none
  | some m => exact .some .refl

/-- A change that the metadata does not show. -/
theorem Pending.same (h : Pending enc w s) (hid : s'.desired.id = s.desired.id)
    (hmetas : ∀ k, s'.metaOf k = s.metaOf k) : Pending enc w s' where
  id := hid.trans h.id
  settles k := by
    rw [hmetas k]
    exact h.settles k

/-- Writing the record at hand with a resource put in flight. -/
theorem Pending.start (h : Pending enc w s) (hk : ResourceStart (s.metaOf k) (s'.metaOf k))
    (hother : ∀ k', k' ≠ k → s'.metaOf k' = s.metaOf k') (k' : Option PartitionId) :
    ResourceMove (w.store.metaOf enc.id k') (s'.metaOf k') := by
  by_cases hk' : k' = k
  · subst hk'
    have hsettles := h.settles k'
    generalize w.store.metaOf enc.id k' = o at hsettles ⊢
    generalize s.metaOf k' = o₁ at hsettles hk
    generalize s'.metaOf k' = o₂ at hk
    cases hk with
    | new =>
      cases hsettles
      exact .created
    | known hstatus =>
      cases hsettles with
      | some hsettles => exact .moved hsettles (.inFlight _ hstatus)
  · rw [hother k' hk']
    exact h.moves k'

/-- After the write the record at hand is the stored one. -/
theorem Flying.of_upsert (hid : s.desired.id = enc.id)
    (hinFlight : ∃ m, s.metaOf k = some m ∧ m.status.InFlight) :
    Flying enc k (w.next (.upsertEnclave s) (.ok ())) s where
  id := hid
  stored _ := Store.metaOf_of_get? ((Store.get?_upsert ..).trans (if_pos hid.symm)) _
  inFlight := hinFlight

/-- The write of a record that differs in no metadata, whether it fails or not. -/
theorem Flying.upsert (h : Flying enc k w s) (r : Except StoreError Unit) :
    Flying enc k (w.next (.upsertEnclave s) r) s := by
  cases r with
  | ok _ => exact .of_upsert h.id h.inFlight
  | error e => exact h.of_store rfl

theorem Flying.same (h : Flying enc k w s) (hid : s'.desired.id = s.desired.id)
    (hmetas : ∀ k, s'.metaOf k = s.metaOf k) : Flying enc k w s' where
  id := hid.trans h.id
  stored k' := (h.stored k').trans (hmetas k').symm
  inFlight := by
    rw [hmetas k]
    exact h.inFlight

/-- The resource in flight comes to an end. -/
theorem Flying.settle (h : Flying enc k w s) (hid : s'.desired.id = s.desired.id)
    (hk : ∀ m, s.metaOf k = some m → m.status.InFlight →
      ∃ m', s'.metaOf k = some m' ∧ m.Settles m')
    (hother : ∀ k', k' ≠ k → s'.metaOf k' = s.metaOf k') : Pending enc w s' := by
  refine ⟨hid.trans h.id, fun k' => ?_⟩
  rw [h.stored k']
  by_cases hk' : k' = k
  · obtain ⟨m, hm, hstatus⟩ := h.inFlight
    obtain ⟨m', hm', hsettles⟩ := hk m hm hstatus
    rw [hk', hm, hm']
    exact .some hsettles
  · rw [hother k' hk']
    cases s.metaOf k' with
    | none => exact .none
    | some m => exact .some .refl

/-- An update of the partition in flight. -/
theorem Flying.metaOf_update {part : Partition} (h : Flying enc (some part.id) w s)
    (f : PartitionState → PartitionState) :
    ∃ ps, s.partitions[part.id]? = some ps ∧ ps.meta_.status.InFlight ∧
      ∀ k, (s.updatePartition part f).metaOf k =
        if k = some part.id then some (f ps).meta_ else s.metaOf k := by
  obtain ⟨m, hm, hstatus⟩ := h.inFlight
  obtain ⟨ps, hps, rfl⟩ := Option.map_eq_some_iff.mp hm
  refine ⟨ps, hps, hstatus, fun k => ?_⟩
  rw [EnclaveState.updatePartition, EnclaveState.metaOf_insert, hps, Option.getD_some]

theorem Flying.settle_update {part : Partition} (h : Flying enc (some part.id) w s)
    {f : PartitionState → PartitionState}
    (hf : ∀ ps : PartitionState, ps.meta_.status.InFlight → ps.meta_.Settles (f ps).meta_) :
    Pending enc w (s.updatePartition part f) := by
  obtain ⟨ps, hps, hstatus, hmetas⟩ := h.metaOf_update f
  refine h.settle rfl (fun m hm _ => ⟨(f ps).meta_, ?_, ?_⟩) fun k' hk' => ?_
  · rw [hmetas, if_pos rfl]
  · obtain ⟨ps', hps', rfl⟩ := Option.map_eq_some_iff.mp hm
    obtain rfl := Option.some.inj (hps.symm.trans hps')
    exact hf ps hstatus
  · rw [hmetas, if_neg hk']

/-- The handle of a partition is no metadata. -/
theorem Flying.withHandle {part : Partition} (h : Flying enc (some part.id) w s) (handle : Handle) :
    Flying enc (some part.id) w
      (s.updatePartition part ({ · with partitionHandle := some handle })) := by
  obtain ⟨ps, hps, -, hmetas⟩ := h.metaOf_update ({ · with partitionHandle := some handle })
  refine h.same rfl fun k => ?_
  rw [hmetas]
  split
  · rename_i hk
    rw [hk]
    exact (congrArg (Option.map (·.meta_)) hps).symm
  · rfl

end

/-! ## The passes -/

section

variable {A : (c : Call) → Resp c → Prop} {run : Run} {driver : Driver} {enc : Enclave} {w : World}

/-- The status in which a resource with a handle, or without one, is put in flight. -/
theorem inFlight_of_handle (handle : Bool) :
    (if handle then .updating else .provisioning : ProvisioningStatus).InFlight := by
  cases handle
  · exact .inl rfl
  · exact .inr rfl

theorem ensures_appendEvent_moved {event : Uuid → DateTime → AuditEvent}
    (h : w.Always World.Moved) :
    Prog.Ensures (system A) (World.Always World.Moved) (fun _ w₁ => w₁.store = w.store)
      (appendEvent event) w :=
  (ensures_appendEvent fun _ hquiet => h.moved_quiet hquiet).mono fun _ _ _ hquiet => hquiet.store

theorem wp_applyPartition_moved {part : Partition} {inputs : HashMap String String}
    {existing : Option Handle} {s : EnclaveState} (hw : w.Always World.Moved)
    (h : Flying enc (some part.id) w s) :
    Prog.wp (system A) (applyPartition run driver enc part inputs existing s)
      (fun a w₁ => w₁.Always World.Moved ∧ Flying enc (some part.id) w₁ a.1) w := by
  intro sa _
  have hw₁ := hw.moved_call (.provisionPartition driver enc part inputs existing) sa
    (by rintro _ ⟨⟩)
  have h₁ : Flying enc (some part.id)
      (w.next (.provisionPartition driver enc part inputs existing) sa) s := h.of_store rfl
  rcases sa with e | sa
  · exact ⟨hw₁, h₁⟩
  -- the handle is stored, or the write of it fails
  have hs := h₁.withHandle sa.handle
  intro r _ outputs _
  have hw₂ := hw₁.moved_upsert (hs.id ▸ hs.pending.moves) r
  have h₂ := hs.upsert r
  have hw₃ := hw₂.moved_call (.tfProvision run.req.tfBackend enc part inputs
    (partitionAuthEnv driver enc _ sa.handle) (some run.runId)) outputs (by rintro _ ⟨⟩)
  cases outputs with
  | error e => exact ⟨hw₃, h₂.of_store rfl⟩
  | ok outputs => exact ⟨hw₃, h₂.of_store rfl⟩

theorem ensures_provisionPartition_moved (part : Partition) (acc : EnclaveState × List ReportError)
    (hw : w.Always World.Moved) (h : Pending enc w acc.1) :
    Prog.Ensures (system A) (World.Always World.Moved) (fun a w₁ => Pending enc w₁ a.1)
      (provisionPartition run driver enc acc part) w := by
  simp only [provisionPartition]
  split
  · exact Prog.Ensures.pure hw h
  have hmetas := EnclaveState.metaOf_insert acc.1 part.id
    (PartitionState.inFlight acc.1.partitions[part.id]? part)
  have hstart : ResourceStart (acc.1.metaOf (some part.id)) (EnclaveState.metaOf { acc.1 with
      partitions := acc.1.partitions.insert part.id
        (PartitionState.inFlight acc.1.partitions[part.id]? part) } (some part.id)) := by
    rw [hmetas, if_pos rfl]
    show ResourceStart (acc.1.partitions[part.id]?.map (·.meta_)) _
    rcases acc.1.partitions[part.id]? with _ | ps
    · exact .new
    · exact .known (inFlight_of_handle _)
  have hmoves := h.start hstart fun k' hk' => (hmetas k').trans (if_neg hk')
  refine (ensures_upsertEnclave fun r => hw.moved_upsert (h.id ▸ hmoves) r).bind
    fun _ w₁ hw₁ h₁ => ?_
  have hflying : Flying enc (some part.id) w₁ { acc.1 with
      partitions := acc.1.partitions.insert part.id
        (PartitionState.inFlight acc.1.partitions[part.id]? part) } := by
    rw [h₁]
    refine .of_upsert h.id ⟨_, (hmetas _).trans (if_pos rfl), ?_⟩
    exact inFlight_of_handle _
  refine (Prog.Ensures.monadLift (Prog.wp_mono (wp_applyPartition_moved hw₁ hflying)
    fun _ _ h => h)).bind fun a w₂ hw₂ h₂ => ?_
  rw [recordPartition]
  refine (ensures_perform (P := fun _ w₃ => Flying enc (some part.id) w₃ a.1) fun now _ _ =>
    ⟨hw₂.moved_call .now now (by rintro _ ⟨⟩), h₂.of_store rfl⟩).bind fun now w₃ hw₃ h₃ => ?_
  split
  · refine (ensures_appendEvent_moved hw₃).bind fun _ w₄ hw₄ hstore => Prog.Ensures.pure hw₄ ?_
    dsimp only
    exact (h₃.settle_update fun ps hstatus => .active now _ hstatus).of_store hstore
  · refine (ensures_appendEvent_moved hw₃).bind fun _ w₄ hw₄ hstore => Prog.Ensures.pure hw₄ ?_
    dsimp only
    exact (h₃.settle_update fun ps hstatus => .error now _ hstatus).of_store hstore

theorem ensures_provisionExport_moved (ex : Export) (acc : EnclaveState × List ReportError)
    (hw : w.Always World.Moved) (h : Pending enc w acc.1) :
    Prog.Ensures (system A) (World.Always World.Moved) (fun a w₁ => Pending enc w₁ a.1)
      (provisionExport driver enc acc ex) w := by
  rw [provisionExport]
  refine (ensures_perform (P := fun _ w₁ => Pending enc w₁ acc.1) fun r _ _ =>
    ⟨hw.moved_call _ r (by rintro _ ⟨⟩), h.of_store rfl⟩).bind fun r w₁ hw₁ h₁ => ?_
  cases r with
  | error e => exact Prog.Ensures.pure hw₁ h₁
  | ok result =>
    refine (ensures_appendEvent_moved hw₁).bind fun _ w₂ hw₂ hstore => Prog.Ensures.pure hw₂ ?_
    exact (h₁.of_store hstore).same rfl fun k => by cases k <;> rfl

theorem ensures_provisionContents_moved {s : EnclaveState} (hw : w.Always World.Moved)
    (h : Pending enc w s) (errors : List ReportError) :
    Prog.Ensures (system A) (World.Always World.Moved) (fun _ _ => True)
      (provisionContents run driver enc s errors) w := by
  refine (Prog.Ensures.foldlM (I := World.Always World.Moved) (fun _ acc w₁ => Pending enc w₁ acc.1)
    (fun _ part _ acc w₁ _ hw₁ h₁ => ensures_provisionPartition_moved part acc hw₁ h₁) hw h).bind
    fun acc w₁ hw₁ h₁ => ?_
  refine (Prog.Ensures.foldlM (I := World.Always World.Moved) (fun _ acc w₂ => Pending enc w₂ acc.1)
    (fun _ ex _ acc w₂ _ hw₂ h₂ => ensures_provisionExport_moved ex acc hw₂ h₂) hw₁ h₁).bind
    fun acc w₂ hw₂ h₂ => ?_
  refine (ensures_appendEvent_moved hw₂).bind fun _ w₃ hw₃ hstore => ?_
  have h₃ := h₂.of_store hstore
  exact (ensures_upsertEnclave fun r => hw₃.moved_upsert (h₃.id ▸ h₃.moves) r).bind
    fun _ w₄ hw₄ _ => Prog.Ensures.pure hw₄ trivial

/-- The visit of an enclave whose record is the one that the run has read. -/
theorem ensures_provisionEnclave_moved (hw : w.Always World.Moved)
    (hexisting : run.existing enc.id = w.store.get? enc.id) (errors : List ReportError) :
    Prog.Ensures (system A) (World.Always World.Moved) (fun _ _ => True)
      (provisionEnclave run errors enc) w := by
  rw [provisionEnclave]
  split
  · exact Prog.Ensures.pure hw trivial
  have hmoves : ∀ k, ResourceMove (w.store.metaOf enc.id k)
      ((EnclaveState.inFlight run enc).metaOf k) := by
    intro k
    rw [Store.metaOf, ← hexisting, EnclaveState.inFlight]
    rcases run.existing enc.id with _ | s
    · cases k with
      | none => exact .created
      | some pid => exact .gone _
    · cases k with
      | none => exact .moved .refl (.inFlight _ (inFlight_of_handle _))
      | some pid => exact .refl _
  refine (ensures_upsertEnclave fun r => hw.moved_upsert hmoves r).bind fun _ w₁ hw₁ h₁ => ?_
  have hflying : Flying enc none w₁ (EnclaveState.inFlight run enc) := by
    rw [h₁]
    exact .of_upsert rfl ⟨_, rfl, inFlight_of_handle _⟩
  refine (ensures_perform (P := fun _ w₂ => Flying enc none w₂ (EnclaveState.inFlight run enc))
    fun r _ _ => ⟨hw₁.moved_call _ r (by rintro _ ⟨⟩), hflying.of_store rfl⟩).bind
    fun r w₂ hw₂ h₂ => ?_
  refine (ensures_perform (P := fun _ w₃ => Flying enc none w₃ (EnclaveState.inFlight run enc))
    fun now _ _ => ⟨hw₂.moved_call .now now (by rintro _ ⟨⟩), h₂.of_store rfl⟩).bind
    fun now w₃ hw₃ h₃ => ?_
  -- the enclave comes to an end, its partitions are as they were
  have hsettle : ∀ handle m', (∀ m, m = (EnclaveState.inFlight run enc).meta_ →
      m.status.InFlight → m.Settles m') → Pending enc w₃
        { EnclaveState.inFlight run enc with enclaveHandle := handle, meta_ := m' } := by
    intro handle m' hm'
    refine h₃.settle rfl (fun m hm hstatus => ⟨m', rfl, hm' m ?_ hstatus⟩) fun k' hk' => ?_
    · exact (Option.some.inj hm).symm
    · cases k' with
      | none => exact absurd rfl hk'
      | some pid => rfl
  cases r with
  | ok result =>
    refine ensures_provisionContents_moved hw₃ (hsettle (some result.handle) _ ?_) errors
    rintro _ rfl hstatus
    exact .active now _ hstatus
  | error e =>
    have h₄ : Pending enc w₃ { EnclaveState.inFlight run enc with
        meta_ := (EnclaveState.inFlight run enc).meta_.markError now (toString e) } := by
      refine hsettle _ _ ?_
      rintro _ rfl hstatus
      exact .error now _ hstatus
    refine (ensures_upsertEnclave fun r => hw₃.moved_upsert h₄.moves r).bind fun _ w₄ hw₄ _ => ?_
    exact (ensures_appendEvent_moved hw₄).bind fun _ w₅ hw₅ _ => Prog.Ensures.pure hw₅ trivial

/-- Wiring writes a record back as it was, with other import handles. -/
theorem keeps_wireEnclave_moved (errors : List ReportError) :
    Prog.Keeps (system A) (World.Always World.Moved) (wireEnclave run errors enc) := by
  refine Prog.Keeps.of_ensures (P := fun _ _ => True) fun w hw => ?_
  rw [wireEnclave]
  split
  · exact Prog.Ensures.pure hw trivial
  rename_i driver _
  refine (ensures_getEnclave fun _ hquiet => hw.moved_quiet hquiet).bind
    fun stored w₁ hw₁ hread => ?_
  obtain ⟨hstored, hquiet⟩ := hread
  rcases stored with _ | s
  · exact Prog.Ensures.pure hw₁ trivial
  have hs : w₁.store.get? s.desired.id = some s := by
    rw [hquiet.store, Store.id_of_get? hstored.symm, hstored]
  have hloop : Prog.Ensures (system A) (World.Always World.Moved)
      (fun acc w₂ => w₂.store = w₁.store ∧
        acc.encState = { s with importHandles := acc.encState.importHandles })
      (enc.allImports.foldlM (wireImport driver enc) { encState := s, changed := false, errors })
      w₁ := by
    refine Prog.wpE_mono ((wireImports_calls _).wpE
      (I := fun w₂ => w₂.Always World.Moved ∧ w₂.store = w₁.store)
      (fun w₂ c r hc _ h => ⟨h.1.moved_call c r ?_, (store_of_wiresImport hc r w₂.store).trans h.2⟩)
      ⟨hw₁, rfl⟩) fun r w₂ h => ⟨h.2.1, fun acc hr => ⟨h.2.2, (h.1 acc hr).1⟩⟩
    rintro s' rfl
    cases hc.2
  refine hloop.bind fun acc w₂ hw₂ hend => ?_
  obtain ⟨hstore, hacc⟩ := hend
  split
  · refine (ensures_upsertEnclave fun r => hw₂.moved_upsert (fun k => ?_) r).bind
      fun _ w₃ hw₃ _ => Prog.Ensures.pure hw₃ trivial
    rw [hstore, hacc, Store.metaOf_of_get? hs]
    cases k with
    | none => exact .refl _
    | some pid => exact .refl _
  · exact Prog.Ensures.pure hw₂ trivial

theorem keeps_teardownRemoved_moved {id : EnclaveId}
    (hkeyed : ∀ s, run.existing id = some s → s.desired.id = id) (errors : List ReportError) :
    Prog.Keeps (system A) (World.Always World.Moved) (teardownRemoved run errors id) := by
  refine (teardownRemoved_calls hkeyed errors).keeps _ fun w c r hc _ hw => hw.moved_call c r ?_
  rintro s rfl
  rcases hc with hc | hc <;> cases hc

end

section

variable {A : (c : Call) → Resp c → Prop} {host : Host} {req : ReconcileRequest}
  {registry : DriverRegistry} {desired : List Enclave} {run : Run} {w w' : World}

/-- Over distinct enclaves each is visited with its record as the run has read it. -/
theorem ensures_passes_distinct {I : World → Prop} {resolved : ResolvedGraph}
    {removed : List EnclaveId} (hlawful : host.topo.Lawful) (hnodup : (desired.map (·.id)).Nodup)
    (hstart : RunStart host req registry desired w run resolved removed) (hquiet : w.Quiet w')
    (hteardown : ∀ id errors, Prog.Keeps (system A) I (teardownRemoved run errors id))
    (hvisit : ∀ enc errors w₁, I w₁ → w.SameView enc.id w₁ →
      Prog.Ensures (system A) I (fun _ _ => True) (provisionEnclave run errors enc) w₁)
    (hwire : ∀ enc errors, Prog.Keeps (system A) I (wireEnclave run errors enc)) (hw' : I w') :
    Prog.wpE (system A) (passes run removed (orderedDesired resolved desired))
      (fun _ w'' => I w'') w' := by
  have hperm := orderedDesired_perm hlawful hstart.valid hnodup
  have hstored : ∀ id ∈ removed, (run.existing id).isSome = true := fun id hid => by
    rw [hstart.existing]
    exact ((hstart.mem_removed id).mp hid).1
  suffices h : Prog.Ensures (system A) I (fun _ _ => True)
      (passes run removed (orderedDesired resolved desired)) w' from
    Prog.wpE_mono h fun _ _ h => h.1
  refine Prog.Ensures.bind (P := fun _ w₁ => ∀ enc ∈ desired, w.SameView enc.id w₁) ?_
    fun errors₁ w₁ hw₁ h₁ => ?_
  · have hkeeps : Prog.Keeps (system A) I (teardownPass run removed) :=
      Prog.Keeps.foldlM (fun errors id _ => hteardown id errors) []
    refine Prog.wpE_mono (Prog.wp_and.mpr ⟨hkeeps hw',
      wpE_teardownPass_gone (fun id s => hstart.keyed) hstored w'⟩)
      fun r w₁ hend => ⟨hend.1, fun errors hr enc henc => ?_⟩
    refine (hquiet.sameView enc.id).trans ((hend.2 errors hr).2 enc.id fun hid => ?_)
    exact ((hstart.mem_removed _).mp hid).2 (List.mem_map_of_mem henc)
  refine Prog.Ensures.bind (P := fun _ _ => True) ?_ fun errors₂ w₂ hw₂ _ => ?_
  · -- an enclave that is still to be visited is as it was
    let J (pre : List Enclave) (_ : List ReportError) (w₂ : World) : Prop :=
      ∀ enc ∈ desired, (∀ e ∈ pre, enc.id ≠ e.id) → w.SameView enc.id w₂
    refine (Prog.Ensures.foldlM J (fun pre enc post errors w₂ hsplit hw₂ hJ => ?_) hw₁
      fun enc henc _ => h₁ enc henc).mono fun _ _ _ _ => trivial
    have hmem : enc ∈ desired := hperm.mem_iff.mp (by simp [hsplit])
    have hview : w.SameView enc.id w₂ := by
      refine hJ enc hmem fun e he heq => ?_
      have hdistinct := (hperm.map (·.id)).nodup_iff.mpr hnodup
      rw [hsplit, List.map_append, List.map_cons, List.nodup_append] at hdistinct
      exact hdistinct.2.2 e.id (List.mem_map_of_mem he) enc.id (List.mem_cons_self ..) heq.symm
    refine Prog.wpE_mono (Prog.wp_and.mpr ⟨hvisit enc errors w₂ hw₂ hview,
      (Prog.wp_iff.mpr fun r w₃ hrun e hne =>
        hrun.wp (sameView_provisionEnclave (A := A) hne errors w₂ (.refl e w₂)) :
        Prog.wpE (system A) (provisionEnclave run errors enc)
          (fun _ w₃ => ∀ e, e ≠ enc.id → w₂.SameView e w₃) w₂)⟩)
      fun r w₃ hend => ⟨hend.1.1, fun errors' _ e he hne => ?_⟩
    refine (hJ e he fun e' he' => hne e' (List.mem_append_left _ he')).trans (hend.2 e.id ?_)
    exact hne enc (by simp)
  · have hkeeps : Prog.Keeps (system A) I (wiringPass run (orderedDesired resolved desired) errors₂) :=
      Prog.Keeps.foldlM (fun errors enc _ => hwire enc errors) errors₂
    exact Prog.wpE_mono (hkeeps hw₂) fun _ _ h => ⟨h, fun _ _ => trivial⟩

end

/-! ## Histories -/

section

variable {host : Host} {w : World}

/-- **The lifecycle of records**: throughout a history of distinct lists, each call moves the
metadata of each enclave and partition by one transition at most, or by an end and a new start. -/
theorem lifecycle (hlawful : host.topo.Lawful)
    (h : History anyAnswer host (fun _ q => q.Distinct) w) : w.Always World.Moved := by
  refine h.always answerable_anyAnswer (fun ev l hlog => by cases hlog) fun w q hq hw => ?_
  have hdeletes : ∀ {ε α : Type} {id : EnclaveId} {Q : α → Prop} {x : ExceptT ε Sys α},
      Prog.CallsE (Call.Deletes id) Q x →
        Prog.Keeps (system anyAnswer) (World.Always World.Moved) x := by
    intro ε α id Q x hx
    refine hx.keeps _ fun w c r hc _ hw => hw.moved_call c r ?_
    rintro s rfl
    cases hc
  cases q with
  | reconcile fs root req registry =>
    refine keeps_reconcile (fun _ _ h hquiet => h.moved_quiet hquiet)
      (fun desired hload run resolved removed w₁ w₂ hstart hquiet hw₁ hw₂ => ?_) hw
    refine ensures_passes_distinct hlawful (hq desired hload) hstart hquiet
      (fun id errors => keeps_teardownRemoved_moved (fun s => hstart.keyed) errors)
      (fun enc errors w₃ hw₃ hview => ensures_provisionEnclave_moved hw₃ ?_ errors)
      (fun enc errors => keeps_wireEnclave_moved errors) hw₂
    rw [hstart.existing, hview.store]
  | deleteEnclave state id resourcesOnly => exact hdeletes (deleteEnclave_calls resourcesOnly) hw
  | deletePartition state id pid => exact hdeletes (deletePartition_calls pid) hw

/-! ### Generations -/

/-- What may become of the metadata of a resource over time. -/
structure ResourceMeta.Grows (m m' : ResourceMeta) : Prop where
  generation : m.generation ≤ m'.generation
  created : ∀ t, m.createdAt = some t → m'.createdAt = some t
  hashed : m.desiredHash.isSome = true → m'.desiredHash.isSome = true
  /-- in one generation only the status changes -/
  same : m'.generation = m.generation → m' = { m with status := m'.status }

namespace ResourceMeta

variable {m m' m'' : ResourceMeta}

theorem Grows.refl (m : ResourceMeta) : m.Grows m := ⟨le_refl _, fun _ h => h, fun h => h, fun _ => rfl⟩

theorem Grows.trans (h : m.Grows m') (h' : m'.Grows m'') : m.Grows m'' where
  generation := h.generation.trans h'.generation
  created t ht := h'.created t (h.created t ht)
  hashed hm := h'.hashed (h.hashed hm)
  same hgen := by
    have hgen' : m'.generation = m.generation :=
      le_antisymm (hgen ▸ h'.generation) h.generation
    have h₁ := h.same hgen'
    have h₂ := h'.same (hgen.trans hgen'.symm)
    rw [h₁] at h₂
    exact h₂

theorem Settles.grows (h : m.Settles m') : m.Grows m' := by
  cases h with
  | refl => exact .refl m
  | active now hash _ =>
    refine ⟨Nat.le_succ _, fun t ht => ?_, fun _ => rfl, fun hgen => ?_⟩
    · rw [markActive, ht]
      rfl
    · exact absurd hgen (Nat.succ_ne_self _)
  | error now msg _ =>
    exact ⟨Nat.le_succ _, fun _ ht => ht, fun hm => hm, fun hgen => absurd hgen (Nat.succ_ne_self _)⟩

theorem Starts.grows (h : m.Starts m') : m.Grows m' := by
  cases h with
  | refl => exact .refl m
  | inFlight status _ => exact ⟨le_refl _, fun _ h => h, fun h => h, fun _ => rfl⟩

theorem Settles.generation_le (h : m.Settles m') : m'.generation ≤ m.generation + 1 := by
  cases h with
  | refl => exact Nat.le_succ _
  | active | error => exact le_refl _

theorem Starts.generation_eq (h : m.Starts m') : m'.generation = m.generation := by
  cases h <;> rfl

end ResourceMeta

/-- A generation counts calls: there are never fewer of them. -/
theorem generation_le_calls (hlawful : host.topo.Lawful)
    (h : History anyAnswer host (fun _ q => q.Distinct) w) {l : List Event} (hl : l <:+ w.log)
    {id : EnclaveId} {k : Option PartitionId} {m : ResourceMeta}
    (hm : (replay l).metaOf id k = some m) : m.generation ≤ l.length := by
  have hmoved := (lifecycle hlawful h).past
  induction l generalizing m with
  | nil =>
    rw [Store.metaOf, show (replay []).get? id = none from Store.get?_empty id] at hm
    cases hm
  | cons ev l ih =>
    have hmove := hmoved (ev :: l) hl ev l rfl id k
    rcases hbefore : (replay l).metaOf id k with _ | m₀
    · rw [hbefore, hm] at hmove
      cases hmove
      exact Nat.zero_le _
    · have hle := ih ((List.suffix_cons _ _).trans hl) hbefore
      rw [hbefore, hm] at hmove
      cases hmove with
      | moved hsettles hstarts =>
        rw [hstarts.generation_eq, List.length_cons]
        exact hsettles.generation_le.trans (Nat.succ_le_succ hle)

/-- **Generations**: over any stretch of a history in which a resource stays recorded, its
generation never falls, it keeps its creation time and has a hash from the first on, and two of its
records with one generation differ in the status only. Within 2^64 calls the counter of 64 bits does
not come to its end. -/
theorem records_grow (hlawful : host.topo.Lawful)
    (h : History anyAnswer host (fun _ q => q.Distinct) w) (hcalls : w.log.length < 2 ^ 64)
    {l₁ l₂ : List Event} (hearlier : l₁ <:+ l₂) (hlater : l₂ <:+ w.log) {id : EnclaveId} {k : Option PartitionId}
    {m₁ m₂ : ResourceMeta} (hm₁ : (replay l₁).metaOf id k = some m₁)
    (hm₂ : (replay l₂).metaOf id k = some m₂)
    (hkept : ∀ l, l₁ <:+ l → l <:+ l₂ → ((replay l).metaOf id k).isSome = true) :
    m₁.Grows m₂ ∧ m₂.generation < 2 ^ 64 := by
  refine ⟨?_, ((generation_le_calls hlawful h hlater hm₂).trans hlater.length_le).trans_lt hcalls⟩
  have hmoved := (lifecycle hlawful h).past
  induction l₂ generalizing m₂ with
  | nil =>
    obtain rfl := List.suffix_nil.mp hearlier
    obtain rfl := Option.some.inj (hm₁.symm.trans hm₂)
    exact .refl m₁
  | cons ev l ih =>
    rcases List.suffix_cons_iff.mp hearlier with rfl | hearlier
    · obtain rfl := Option.some.inj (hm₁.symm.trans hm₂)
      exact .refl m₁
    obtain ⟨m, hm⟩ := Option.isSome_iff_exists.mp (hkept l hearlier (List.suffix_cons _ _))
    have hbefore : m₁.Grows m :=
      ih hearlier ((List.suffix_cons _ _).trans hlater) hm
        fun l' h₁ h₂ => hkept l' h₁ (h₂.trans (List.suffix_cons _ _))
    have hmove := hmoved (ev :: l) hlater ev l rfl id k
    rw [hm, hm₂] at hmove
    cases hmove with
    | moved hsettles hstarts => exact hbefore.trans (hsettles.grows.trans hstarts.grows)

end

/-! ### A partition that is applied, and then fails -/

/-- The worlds after the first apply of `named "p"` and after the failed one of `named "q"`. -/
def appliedWorld : World := (namedRun "p" .empty).2

def failedWorld : World := (namedRun "q" appliedWorld).2

theorem history_failedWorld :
    History anyAnswer namingHost (fun _ q => q.Distinct) failedWorld :=
  history_namedRun (history_namedRun .empty (distinct_named load_first)) (distinct_named load_second)

theorem failedWorld_moved : failedWorld.Always World.Moved :=
  lifecycle Topo.kahn_lawful history_failedWorld

theorem recorded_since_applied : ∀ l, appliedWorld.log <:+ l → l <:+ failedWorld.log →
    ((replay l).metaOf ⟨"a"⟩ (some ⟨"p"⟩)).isSome = true := by
  intro l hearlier hlater
  have hall : ∀ n ∈ List.range 24, ((replay (failedWorld.log.drop n)).metaOf ⟨"a"⟩
      (some ⟨"p"⟩)).isSome = true := by decide +kernel
  rw [List.suffix_iff_eq_drop.mp hlater]
  refine hall _ (List.mem_range.mpr ?_)
  have hlength : failedWorld.log.length = 46 ∧ appliedWorld.log.length = 23 := ⟨rfl, rfl⟩
  have hle := hearlier.length_le
  omega

/-- The failed partition keeps its creation time. -/
theorem failed_partition_grows : ∃ m₁ m₂,
    (replay appliedWorld.log).metaOf ⟨"a"⟩ (some ⟨"p"⟩) = some m₁ ∧
    (replay failedWorld.log).metaOf ⟨"a"⟩ (some ⟨"p"⟩) = some m₂ ∧ m₁.status = .active ∧
    m₂.status = .error ∧ m₁.Grows m₂ := by
  have hlength : failedWorld.log.length = 46 := rfl
  refine ⟨_, _, rfl, rfl, rfl, rfl, (records_grow Topo.kahn_lawful history_failedWorld ?_
    (log_suffix_visits (exec_namedRun "q" appliedWorld).visits) (List.suffix_refl _) rfl rfl
    recorded_since_applied).1⟩
  rw [hlength]
  decide

end Nclav
