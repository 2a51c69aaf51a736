import Nclav.Guarantees.WellFormed
import Nclav.Reconciler.Applied

/-!
# What an apply without errors means

A partition whose stored hash is that of its declaration is passed over, whatever its status is.
So a run without errors leaves every declared partition applied iff those that it passes over were
(`error_free_iff`). As long as no list has two enclaves of one id, that is to say that they were
active with this declaration.
-/

namespace Nclav

open Effect

/-! ## The last apply of an active partition -/

/-- The newest Terraform apply of the partition succeeded, with this declaration. -/
def World.AppliedLast (w : World) (id : EnclaveId) (part : Partition) : Prop :=
  ∃ tf enc inputs authEnv runId outputs,
    w.lastApply id part.id = some ⟨.tfProvision tf enc part inputs authEnv runId, .ok outputs⟩

/-- Each active partition of the record was last applied as recorded. -/
def EnclaveState.LastApplied (w : World) (s : EnclaveState) : Prop :=
  ∀ (pid : PartitionId) ps, s.partitions[pid]? = some ps → ps.meta_.status = .active →
    ps.desired.id = pid ∧ w.AppliedLast s.desired.id ps.desired

def World.ActiveApplied (w : World) : Prop := w.Records (EnclaveState.LastApplied w)

section

variable {w w' : World} {s s' : EnclaveState}

theorem EnclaveState.LastApplied.mono (h : s.LastApplied w) (hid : s'.desired.id = s.desired.id)
    (hparts : ∀ (pid : PartitionId) ps, s'.partitions[pid]? = some ps →
      s.partitions[pid]? = some ps)
    (hlast : ∀ pid, w'.lastApply s.desired.id pid = w.lastApply s.desired.id pid) :
    s'.LastApplied w' := by
  intro pid ps hps hactive
  rw [World.AppliedLast, hid, hlast]
  exact h pid ps (hparts pid ps hps) hactive

/-- The call is no Terraform apply. -/
def Call.isApply : Call → Bool
  | .tfProvision _ _ _ _ _ _ => true
  | _ => false

theorem lastApply_next {c : Call} (hc : c.isApply = false) (r : Resp c) (id : EnclaveId)
    (pid : PartitionId) : (w.next c r).lastApply id pid = w.lastApply id pid := by
  refine World.lastApply_next_of_not ?_
  cases c <;> first | rfl | cases hc

theorem World.ActiveApplied.next (h : w.ActiveApplied) {c : Call} (hc : c.isApply = false) (r : Resp c)
    (hupsert : ∀ s, c = .upsertEnclave s → s.LastApplied w) : (w.next c r).ActiveApplied := by
  have hnext : ∀ s : EnclaveState, s.LastApplied w → s.LastApplied (w.next c r) := fun s hs =>
    hs.mono rfl (fun _ _ hps => hps) fun pid => lastApply_next hc r _ pid
  refine World.Records.next (fun id s hs => hnext s (h id s hs)) c r
    (fun s hs => hnext s (hupsert s hs)) fun id pid _ s hs => ?_
  refine hs.mono rfl (fun pid' ps hps => ?_) fun _ => rfl
  simp only [HashMap.get?_erase] at hps
  split at hps
  · cases hps
  · exact hps

theorem World.ActiveApplied.quiet (h : w.ActiveApplied) (hquiet : w.Quiet w') : w'.ActiveApplied := by
  refine hquiet.keeps (fun w c r hc hw => World.ActiveApplied.next hw ?_ r ?_) h
  · cases c <;> first | rfl | cases hc
  · rintro s rfl
    cases hc

/-! ### An apply -/

variable {enc : Enclave} {part : Partition} (run : Run) (inputs authEnv : HashMap String String)

theorem lastApply_next_apply (w : World) (r : Resp (run.applyCall enc part inputs authEnv))
    (id : EnclaveId) (pid : PartitionId) :
    (w.next (run.applyCall enc part inputs authEnv) r).lastApply id pid =
      if enc.id = id ∧ part.id = pid then
        some ⟨run.applyCall enc part inputs authEnv, r⟩
      else w.lastApply id pid := by
  by_cases h : enc.id = id ∧ part.id = pid
  · rw [if_pos h, World.lastApply, World.next_log, List.find?_cons_of_pos]
    exact decide_eq_true h
  · rw [if_neg h, World.lastApply_next_of_not]
    exact decide_eq_false h

/-- The partition is not active in the record. -/
def EnclaveState.Inactive (s : EnclaveState) (part : Partition) : Prop :=
  ∀ ps, s.partitions[part.id]? = some ps → ps.meta_.status ≠ .active

/-- An apply of another enclave, or of a partition that is not active, leaves the record right. -/
theorem EnclaveState.LastApplied.apply (h : s.LastApplied w)
    (r : Resp (run.applyCall enc part inputs authEnv))
    (hs : s.desired.id = enc.id → s.Inactive part) :
    s.LastApplied (w.next (run.applyCall enc part inputs authEnv) r) := by
  intro pid ps hps hactive
  obtain ⟨hpid, hlast⟩ := h pid ps hps hactive
  refine ⟨hpid, ?_⟩
  rw [World.AppliedLast, lastApply_next_apply, if_neg ?_]
  · exact hlast
  · rintro ⟨henc, hpart⟩
    rw [← hpid, ← hpart] at hps
    exact hs henc.symm ps hps hactive

theorem World.ActiveApplied.apply (h : w.ActiveApplied)
    (r : Resp (run.applyCall enc part inputs authEnv))
    (hstored : ∀ s, w.store.get? enc.id = some s → s.Inactive part) :
    (w.next (run.applyCall enc part inputs authEnv) r).ActiveApplied := by
  intro id s hs
  have hs' : w.store.get? id = some s := hs
  refine (h id s hs').apply run inputs authEnv r fun hid => hstored s ?_
  rw [← hid, Store.id_of_get? hs']
  exact hs'

end

/-! ## The visit of a partition -/

/-- The record at hand while a partition is applied, and what is stored meanwhile. -/
structure Applying (w : World) (enc : Enclave) (part : Partition) (s : EnclaveState) : Prop where
  id : s.desired.id = enc.id
  last : s.LastApplied w
  held : ∃ ps, s.partitions[part.id]? = some ps ∧ ps.desired = part ∧ ps.meta_.status ≠ .active
  stored : ∀ s, w.store.get? enc.id = some s → s.Inactive part

section

variable {w w' : World} {enc : Enclave} {part : Partition} {s : EnclaveState}

theorem Applying.inactive (h : Applying w enc part s) : s.Inactive part := by
  obtain ⟨ps, hps, -, hstatus⟩ := h.held
  intro ps' hps'
  rw [hps] at hps'
  obtain rfl := Option.some.inj hps'
  exact hstatus

/-- An update of the partition in flight. -/
theorem get?_updatePartition (f : PartitionState → PartitionState) {ps : PartitionState}
    (hps : s.partitions[part.id]? = some ps) (pid : PartitionId) :
    (s.updatePartition part f).partitions[pid]? =
      if pid = part.id then some (f ps) else s.partitions[pid]? := by
  simp only [EnclaveState.updatePartition, hps, Option.getD_some, HashMap.get?_insert]

theorem Applying.withHandle (h : Applying w enc part s) (handle : Handle) :
    Applying w enc part (s.updatePartition part ({ · with partitionHandle := some handle })) := by
  obtain ⟨ps, hps, hpart, hstatus⟩ := h.held
  refine ⟨h.id, fun pid ps' hps' hactive => ?_, ⟨{ ps with partitionHandle := some handle },
    ?_, hpart, hstatus⟩, h.stored⟩
  · rw [get?_updatePartition _ hps] at hps'
    split at hps'
    · obtain rfl := Option.some.inj hps'
      exact absurd hactive hstatus
    · exact h.last pid ps' hps' hactive
  · rw [get?_updatePartition _ hps, if_pos rfl]

theorem Applying.next (h : Applying w enc part s) {c : Call} (hc : c.isApply = false) (r : Resp c)
    (hstored : ∀ s, (w.next c r).store.get? enc.id = some s → s.Inactive part) :
    Applying (w.next c r) enc part s :=
  ⟨h.id, h.last.mono rfl (fun _ _ hps => hps) fun pid => lastApply_next hc r _ pid, h.held, hstored⟩

/-- Writing the record at hand. -/
theorem Applying.upsert (h : Applying w enc part s) (r : Resp (.upsertEnclave s)) :
    Applying (w.next (.upsertEnclave s) r) enc part s := by
  refine h.next rfl r fun s' hs' => ?_
  cases r with
  | ok _ =>
    rw [World.next_store, World.nextStore, Store.get?_upsert, if_pos h.id.symm] at hs'
    obtain rfl := Option.some.inj hs'
    exact h.inactive
  | error e => exact h.stored s' hs'

theorem Applying.apply (run : Run) (inputs authEnv : HashMap String String)
    (h : Applying w enc part s)
    (r : Resp (run.applyCall enc part inputs authEnv)) :
    Applying (w.next (run.applyCall enc part inputs authEnv) r) enc part s :=
  ⟨h.id, h.last.apply run inputs authEnv r fun _ => h.inactive, h.held, h.stored⟩

/-- The record at hand once the outcome is in it. -/
theorem Applying.recorded (h : Applying w enc part s) {f : PartitionState → PartitionState}
    (hdesired : ∀ ps, (f ps).desired = ps.desired)
    (hactive : ∀ ps, (f ps).meta_.status = .active → w.AppliedLast enc.id part) :
    (s.updatePartition part f).LastApplied w := by
  obtain ⟨ps, hps, rfl, -⟩ := h.held
  intro pid ps' hps' hstatus
  rw [get?_updatePartition _ hps] at hps'
  split at hps'
  · rename_i hpid
    obtain rfl := Option.some.inj hps'
    rw [hdesired]
    refine ⟨hpid.symm, ?_⟩
    rw [show (s.updatePartition ps.desired f).desired.id = enc.id from h.id]
    exact hactive ps hstatus
  · exact h.last pid ps' hps' hstatus

theorem wp_applyPartition_last {A : (c : Call) → Resp c → Prop} {run : Run} {driver : Driver}
    {inputs : HashMap String String} {existing : Option Handle}
    (hw : w.Always World.ActiveApplied) (h : Applying w enc part s) :
    Prog.wp (system A) (applyPartition run driver enc part inputs existing s)
      (fun a w' => w'.Always World.ActiveApplied ∧ Applying w' enc part a.1 ∧
        ∀ result, a.2 = .ok result → w'.AppliedLast enc.id part) w := by
  intro sa _
  have hw₁ := hw.next (hw.now.next (c := .provisionPartition driver enc part inputs existing)
    rfl sa (by rintro _ ⟨⟩))
  have h₁ := h.next (c := .provisionPartition driver enc part inputs existing) rfl sa h.stored
  rcases sa with e | sa
  · exact ⟨hw₁, h₁, nofun⟩
  have h₂ := h₁.withHandle sa.handle
  intro r _
  have hw₃ := hw₁.next (hw₁.now.next rfl r (by rintro _ ⟨⟩; exact h₂.last))
  have h₃ := h₂.upsert r
  intro outputs _
  let s' := s.updatePartition part ({ · with partitionHandle := some sa.handle })
  let authEnv := partitionAuthEnv driver enc s' sa.handle
  have hw₄ := hw₃.next (hw₃.now.apply run inputs authEnv outputs h₃.stored)
  have h₄ := h₃.apply run inputs authEnv outputs
  cases outputs with
  | error e => exact ⟨hw₄, h₄, nofun⟩
  | ok outputs =>
    refine ⟨hw₄, h₄, fun _ _ => ⟨run.req.tfBackend, enc, inputs, authEnv, some run.runId, outputs, ?_⟩⟩
    exact (lastApply_applyCall _ inputs authEnv (.ok outputs) _).trans (if_pos rfl)

end

/-! ## The passes -/

section

variable {A : (c : Call) → Resp c → Prop} {run : Run} {driver : Driver} {enc : Enclave}
  {w : World}

/-- Between two partitions the record at hand is right. -/
def EnclaveState.At (s : EnclaveState) (enc : Enclave) (w : World) : Prop :=
  s.desired.id = enc.id ∧ s.LastApplied w

theorem EnclaveState.At.mono {s s' : EnclaveState} {w' : World} (h : s.At enc w)
    (hid : s'.desired.id = s.desired.id) (hparts : s'.partitions = s.partitions)
    (hlast : ∀ pid, w'.lastApply enc.id pid = w.lastApply enc.id pid) : s'.At enc w' := by
  refine ⟨hid.trans h.1, h.2.mono hid (fun pid ps hps => hparts ▸ hps) fun pid => ?_⟩
  rw [h.1]
  exact hlast pid

theorem EnclaveState.At.quiet {s : EnclaveState} {w' : World} (h : s.At enc w)
    (hquiet : w.Quiet w') : s.At enc w' :=
  h.mono rfl rfl fun pid => hquiet.lastApply enc.id pid

theorem World.always_upsert (hw : w.Always World.ActiveApplied) {s : EnclaveState}
    (hs : s.LastApplied w) (r : Resp (.upsertEnclave s)) :
    (w.next (.upsertEnclave s) r).Always World.ActiveApplied :=
  hw.next (hw.now.next rfl r (by rintro _ ⟨⟩; exact hs))

theorem World.always_call (hw : w.Always World.ActiveApplied) {c : Call} (hc : c.isApply = false)
    (hwrite : ∀ s, c ≠ .upsertEnclave s) (r : Resp c) :
    (w.next c r).Always World.ActiveApplied :=
  hw.next (hw.now.next hc r fun s hs => absurd hs (hwrite s))

theorem World.always_quiet (hw : w.Always World.ActiveApplied) {w' : World} (hquiet : w.Quiet w') :
    w'.Always World.ActiveApplied := by
  refine hquiet.keeps (fun w c r hc hw => World.always_call hw ?_ ?_ r) hw
  · cases c <;> first | rfl | cases hc
  · rintro s rfl
    cases hc

/-- The record with a partition in flight. -/
theorem EnclaveState.At.applying {s s' : EnclaveState} (h : s.At enc w) (part : Partition)
    (hs' : s' = { s with
      partitions := s.partitions.insert part.id
        (PartitionState.inFlight s.partitions[part.id]? part) }) :
    s'.LastApplied w ∧ Applying (w.next (.upsertEnclave s') (.ok ())) enc part s' := by
  subst hs'
  have hstatus : (PartitionState.inFlight s.partitions[part.id]? part).meta_.status ≠ .active := by
    simp only [PartitionState.inFlight]
    split
    · exact nofun
    · exact nofun
  have hget : ∀ pid : PartitionId, (s.partitions.insert part.id
      (PartitionState.inFlight s.partitions[part.id]? part))[pid]? = if pid = part.id then
        some (PartitionState.inFlight s.partitions[part.id]? part) else s.partitions[pid]? :=
    fun pid => HashMap.get?_insert ..
  have hinactive : EnclaveState.Inactive { s with
      partitions := s.partitions.insert part.id
        (PartitionState.inFlight s.partitions[part.id]? part) } part := by
    intro ps hps
    rw [hget, if_pos rfl] at hps
    obtain rfl := Option.some.inj hps
    exact hstatus
  have hlast : EnclaveState.LastApplied w { s with
      partitions := s.partitions.insert part.id
        (PartitionState.inFlight s.partitions[part.id]? part) } := by
    intro pid ps hps hactive
    rw [hget] at hps
    split at hps
    · obtain rfl := Option.some.inj hps
      exact absurd hactive hstatus
    · exact h.2 pid ps hps hactive
  refine ⟨hlast, h.1, hlast.mono rfl (fun _ _ hps => hps) fun pid => lastApply_next rfl _ _ pid,
    ⟨_, (hget part.id).trans (if_pos rfl), rfl, hstatus⟩, fun s'' hs'' => ?_⟩
  rw [World.next_store, World.nextStore, Store.get?_upsert, if_pos h.1.symm] at hs''
  obtain rfl := Option.some.inj hs''
  exact hinactive

theorem ensures_provisionPartition_last {acc : EnclaveState × List ReportError}
    (hw : w.Always World.ActiveApplied) (h : acc.1.At enc w) (part : Partition) :
    Prog.Ensures (system A) (World.Always World.ActiveApplied) (fun a w' => a.1.At enc w')
      (provisionPartition run driver enc acc part) w := by
  simp only [provisionPartition]
  split
  · exact Prog.Ensures.pure hw h
  obtain ⟨hlast, happlying⟩ := h.applying part rfl
  refine (ensures_upsertEnclave fun r => World.always_upsert hw hlast r).bind fun _ w₁ hw₁ h₁ => ?_
  rw [← h₁] at happlying
  refine (Prog.Ensures.monadLift (wp_applyPartition_last hw₁ happlying)).bind
    fun a w₂ hw₂ hend => ?_
  obtain ⟨h₂, hok⟩ := hend
  rw [recordPartition]
  refine (ensures_perform (P := fun _ w₃ => w₂.Quiet w₃) fun now _ _ =>
    ⟨World.always_quiet hw₂ ((World.Quiet.refl w₂).next rfl now),
      (World.Quiet.refl w₂).next rfl now⟩).bind fun now w₃ hw₃ h₃ => ?_
  have hrecord : ∀ f : PartitionState → PartitionState, (∀ ps, (f ps).desired = ps.desired) →
      (∀ ps, (f ps).meta_.status = .active → w₂.AppliedLast enc.id part) →
      ∀ {w₄}, w₃.Quiet w₄ → (a.1.updatePartition part f).At enc w₄ := fun f hdesired hactive w₄ h₄ =>
    EnclaveState.At.quiet ⟨h₂.id, h₂.recorded hdesired hactive⟩ (h₃.trans h₄)
  split
  · rename_i result hresult
    refine (ensures_appendEvent fun _ hquiet => World.always_quiet hw₃ hquiet).bind
      fun _ w₄ hw₄ h₄ => Prog.Ensures.pure hw₄ ?_
    refine hrecord _ (fun _ => ?_) (fun _ _ => hok result hresult) h₄
    rfl
  · refine (ensures_appendEvent fun _ hquiet => World.always_quiet hw₃ hquiet).bind
      fun _ w₄ hw₄ h₄ => Prog.Ensures.pure hw₄ ?_
    refine hrecord _ (fun _ => ?_) (fun ps hactive => ?_) h₄
    · rfl
    · rw [ResourceMeta.markError_status] at hactive
      cases hactive

theorem ensures_provisionExport_last {acc : EnclaveState × List ReportError}
    (hw : w.Always World.ActiveApplied) (h : acc.1.At enc w) (x : Export) :
    Prog.Ensures (system A) (World.Always World.ActiveApplied) (fun a w' => a.1.At enc w')
      (provisionExport driver enc acc x) w := by
  refine (ensures_perform (P := fun _ w' => acc.1.At enc w') fun r _ _ =>
    ⟨World.always_call hw rfl (by rintro _ ⟨⟩) r,
      h.mono rfl rfl fun pid => lastApply_next rfl r _ pid⟩).bind fun r w₁ hw₁ h₁ => ?_
  cases r with
  | ok r =>
    exact (ensures_appendEvent fun _ hquiet => World.always_quiet hw₁ hquiet).bind
      fun _ w₂ hw₂ h₂ => Prog.Ensures.pure hw₂ ((h₁.quiet h₂).mono rfl rfl fun _ => rfl)
  | error e => exact Prog.Ensures.pure hw₁ h₁

theorem ensures_provisionContents_last {s : EnclaveState} (hw : w.Always World.ActiveApplied)
    (h : s.At enc w) (errors : List ReportError) :
    Prog.Ensures (system A) (World.Always World.ActiveApplied) (fun _ _ => True)
      (provisionContents run driver enc s errors) w := by
  let J {α : Type} (_ : List α) (a : EnclaveState × List ReportError) (w' : World) : Prop :=
    a.1.At enc w'
  refine (Prog.Ensures.foldlM J (fun pre part post acc w₁ _ hw₁ h₁ =>
    ensures_provisionPartition_last hw₁ h₁ part) hw h).bind fun acc w₁ hw₁ h₁ => ?_
  refine (Prog.Ensures.foldlM J (fun pre x post acc w₂ _ hw₂ h₂ =>
    ensures_provisionExport_last hw₂ h₂ x) hw₁ h₁).bind fun acc w₂ hw₂ h₂ => ?_
  refine (ensures_appendEvent fun _ hquiet => World.always_quiet hw₂ hquiet).bind
    fun _ w₃ hw₃ h₃ => ?_
  exact (ensures_upsertEnclave fun r => World.always_upsert hw₃ (h₂.quiet h₃).2 r).bind
    fun _ w₄ hw₄ _ => Prog.Ensures.pure hw₄ trivial

/-- The visit of an enclave whose record in the snapshot is right. -/
theorem ensures_provisionEnclave_last (hw : w.Always World.ActiveApplied)
    (hexisting : ∀ s, run.existing enc.id = some s → s.LastApplied w)
    (hkeyed : ∀ s, run.existing enc.id = some s → s.desired.id = enc.id)
    (errors : List ReportError) :
    Prog.Ensures (system A) (World.Always World.ActiveApplied) (fun _ _ => True)
      (provisionEnclave run errors enc) w := by
  rw [provisionEnclave]
  split
  · exact Prog.Ensures.pure hw trivial
  rename_i driver _
  have h : (EnclaveState.inFlight run enc).At enc w := by
    refine ⟨rfl, ?_⟩
    simp only [EnclaveState.inFlight]
    rcases hex : run.existing enc.id with _ | s
    · intro pid ps hps
      simp [EnclaveState.new] at hps
    · exact (hexisting s hex).mono (hkeyed s hex).symm (fun _ _ hps => hps) fun _ => rfl
  refine (ensures_upsertEnclave fun r => World.always_upsert hw h.2 r).bind fun _ w₁ hw₁ h₁ => ?_
  subst h₁
  have h₁ : (EnclaveState.inFlight run enc).At enc
      (w.next (.upsertEnclave (EnclaveState.inFlight run enc)) (.ok ())) :=
    h.mono rfl rfl fun pid => lastApply_next rfl _ _ pid
  refine (ensures_perform (P := fun _ w' => (EnclaveState.inFlight run enc).At enc w') fun r _ _ =>
    ⟨World.always_call hw₁ rfl (by rintro _ ⟨⟩) r,
      h₁.mono rfl rfl fun pid => lastApply_next rfl r _ pid⟩).bind fun r w₂ hw₂ h₂ => ?_
  refine (ensures_perform (P := fun _ w₃ => w₂.Quiet w₃) fun now _ _ =>
    ⟨World.always_quiet hw₂ ((World.Quiet.refl w₂).next rfl now),
      (World.Quiet.refl w₂).next rfl now⟩).bind fun now w₃ hw₃ hquiet => ?_
  have h₃ := h₂.quiet hquiet
  cases r with
  | ok result =>
    have h₄ : EnclaveState.At { EnclaveState.inFlight run enc with
        enclaveHandle := some result.handle
        meta_ := (EnclaveState.inFlight run enc).meta_.markActive now
          (run.host.enclaveHash enc) } enc w₃ := h₃.mono rfl rfl fun _ => rfl
    exact ensures_provisionContents_last hw₃ h₄ errors
  | error e =>
    have h₄ : EnclaveState.At { EnclaveState.inFlight run enc with
        meta_ := (EnclaveState.inFlight run enc).meta_.markError now (toString e) } enc w₃ :=
      h₃.mono rfl rfl fun _ => rfl
    refine (ensures_upsertEnclave fun r => World.always_upsert hw₃ h₄.2 r).bind fun _ w₄ hw₄ _ => ?_
    exact (ensures_appendEvent fun _ hquiet => World.always_quiet hw₄ hquiet).bind
      fun _ w₅ hw₅ _ => Prog.Ensures.pure hw₅ trivial

theorem keeps_wireEnclave_last (errors : List ReportError) :
    Prog.Keeps (system A) (World.Always World.ActiveApplied) (wireEnclave run errors enc) := by
  refine Prog.Keeps.of_ensures (P := fun _ _ => True) fun w hw => ?_
  rw [wireEnclave]
  split
  · exact Prog.Ensures.pure hw trivial
  refine (ensures_getEnclave fun w₁ hw₁ => World.always_quiet hw hw₁).bind
    fun stored w₁ hw₁ hend => ?_
  obtain ⟨hstored, hquiet⟩ := hend
  rcases stored with _ | s
  · exact Prog.Ensures.pure hw₁ trivial
  have hs : s.LastApplied w₁ := by
    rw [← hquiet.store] at hstored
    exact hw₁.now _ s hstored.symm
  -- neither a read nor an import is an apply
  have hcall : ∀ w (c : Call) (r : Resp c), c.WiresImport enc →
      (w.Always World.ActiveApplied ∧ s.LastApplied w) →
      (w.next c r).Always World.ActiveApplied ∧ s.LastApplied (w.next c r) := by
    rintro w c r ⟨hc, hwritten⟩ ⟨hw, hs⟩
    have hno : c.isApply = false := by cases hc <;> rfl
    refine ⟨World.always_call hw hno ?_ r,
      hs.mono rfl (fun _ _ hps => hps) fun pid => lastApply_next hno r _ pid⟩
    rintro s' rfl
    cases hwritten
  rw [Prog.Ensures, Prog.wpE_bind]
  refine Prog.wpE_mono ((wireImports_calls _).wpE
    (I := fun w => w.Always World.ActiveApplied ∧ s.LastApplied w)
    (fun w c r hc _ h => hcall w c r hc h) ⟨hw₁, hs⟩) fun r w₂ hend => ?_
  obtain ⟨hacc, hw₂, hs₂⟩ := hend
  rcases r with e | acc
  · exact ⟨hw₂, by rintro _ ⟨⟩⟩
  have hacc' : acc.encState.LastApplied w₂ := by
    rw [(hacc acc rfl).1]
    exact hs₂.mono rfl (fun _ _ hps => hps) fun _ => rfl
  rw [Prog.onOk_ok]
  split
  · exact (ensures_upsertEnclave fun r => World.always_upsert hw₂ hacc' r).bind
      fun _ w₃ hw₃ _ => Prog.Ensures.pure hw₃ trivial
  · exact Prog.Ensures.pure hw₂ trivial

theorem keeps_teardownRemoved_last {id : EnclaveId}
    (hkeyed : ∀ s, run.existing id = some s → s.desired.id = id) (errors : List ReportError) :
    Prog.Keeps (system A) (World.Always World.ActiveApplied) (teardownRemoved run errors id) := by
  refine (teardownRemoved_calls hkeyed errors).keeps _ fun w c r hc _ hw =>
    World.always_call hw ?_ ?_ r
  · rcases hc with hc | rfl
    · cases hc <;> rfl
    · rfl
  · rintro s rfl
    rcases hc with hc | hc <;> cases hc

end

/-! ## Histories -/

section

variable {A : (c : Call) → Resp c → Prop} {host : Host} {req : ReconcileRequest}
  {registry : DriverRegistry} {desired : List Enclave} {run : Run} {w w' : World}

/-- Over distinct enclaves each is visited with its record as the run found it. -/
theorem keeps_passes_last {resolved : ResolvedGraph} {removed : List EnclaveId}
    (hlawful : host.topo.Lawful) (hnodup : (desired.map (·.id)).Nodup)
    (hstart : RunStart host req registry desired w run resolved removed)
    (hw : w.Always World.ActiveApplied) (hquiet : w.Quiet w') :
    Prog.wpE (system A) (passes run removed (orderedDesired resolved desired))
      (fun _ w'' => w''.Always World.ActiveApplied) w' := by
  have hperm := orderedDesired_perm hlawful hstart.valid hnodup
  have hstored : ∀ id ∈ removed, (run.existing id).isSome = true := fun id hid => by
    rw [hstart.existing]
    exact ((hstart.mem_removed id).mp hid).1
  suffices h : Prog.Ensures (system A) (World.Always World.ActiveApplied) (fun _ _ => True)
      (passes run removed (orderedDesired resolved desired)) w' from
    Prog.wpE_mono h fun _ _ h => h.1
  refine Prog.Ensures.bind (P := fun _ w₁ => ∀ enc ∈ desired, w.SameView enc.id w₁) ?_
    fun errors₁ w₁ hw₁ h₁ => ?_
  · have hkeeps : Prog.Keeps (system A) (World.Always World.ActiveApplied)
        (teardownPass run removed) := Prog.Keeps.foldlM
      (fun errors id _ => keeps_teardownRemoved_last (fun s => hstart.keyed) errors) []
    refine Prog.wpE_mono (Prog.wp_and.mpr ⟨hkeeps (World.always_quiet hw hquiet),
      wpE_teardownPass_gone (fun id s => hstart.keyed) hstored w'⟩)
      fun r w₁ ⟨hw₁, h₁⟩ => ⟨hw₁, fun errors hr enc henc => ?_⟩
    refine (hquiet.sameView enc.id).trans ((h₁ errors hr).2 enc.id fun hid => ?_)
    exact ((hstart.mem_removed _).mp hid).2 (List.mem_map_of_mem henc)
  refine Prog.Ensures.bind (P := fun _ _ => True) ?_ fun errors₂ w₂ hw₂ _ => ?_
  · -- an enclave that is still to be visited is as it was
    let J (pre : List Enclave) (_ : List ReportError) (w₂ : World) : Prop :=
      ∀ enc ∈ desired, (∀ e ∈ pre, enc.id ≠ e.id) → w.SameView enc.id w₂
    refine (Prog.Ensures.foldlM J (fun pre enc post errors w₂ hsplit hw₂ hJ => ?_) hw₁
      fun enc henc _ => h₁ enc henc).mono fun _ _ _ _ => trivial
    have hmem : enc ∈ desired := hperm.mem_iff.mp (by simp [hsplit])
    have hview : w.SameView enc.id w₂ := by
      refine hJ enc hmem fun e he heq => ?_
      have hdistinct := (hperm.map (·.id)).nodup_iff.mpr hnodup
      rw [hsplit, List.map_append, List.map_cons, List.nodup_append] at hdistinct
      exact hdistinct.2.2 e.id (List.mem_map_of_mem he) enc.id (List.mem_cons_self ..) heq.symm
    have hexisting : ∀ s, run.existing enc.id = some s → s.LastApplied w₂ := by
      intro s hs
      have hid := hstart.keyed hs
      rw [hstart.existing] at hs
      refine (hw.now _ s hs).mono rfl (fun _ _ hps => hps) fun pid => ?_
      rw [hid]
      exact hview.lastApply pid
    refine Prog.wpE_mono (Prog.wp_and.mpr ⟨ensures_provisionEnclave_last hw₂ hexisting
      (fun s => hstart.keyed) errors, (Prog.wp_iff.mpr fun r w₃ hrun e hne =>
        hrun.wp (sameView_provisionEnclave (A := A) hne errors w₂ (.refl e w₂)) :
        Prog.wpE (system A) (provisionEnclave run errors enc)
          (fun _ w₃ => ∀ e, e ≠ enc.id → w₂.SameView e w₃) w₂)⟩)
      fun r w₃ ⟨h₃, hview₃⟩ => ⟨h₃.1, fun errors' _ e he hne => ?_⟩
    refine (hJ e he fun e' he' => hne e' (List.mem_append_left _ he')).trans (hview₃ e.id ?_)
    exact hne enc (by simp)
  · have hkeeps : Prog.Keeps (system A) (World.Always World.ActiveApplied)
        (wiringPass run (orderedDesired resolved desired) errors₂) :=
      Prog.Keeps.foldlM (fun errors _ _ => keeps_wireEnclave_last errors) errors₂
    exact Prog.wpE_mono (hkeeps hw₂) fun _ _ h => ⟨h, fun _ _ => trivial⟩

/-- A list that is reconciled has no two enclaves of one id. -/
def Request.Distinct : Request → Prop
  | .reconcile fs root req _ => ∀ desired, loadEnclaves fs req.enclavesDir root = .ok desired →
    (desired.map (·.id)).Nodup
  | _ => True

/-- **What is active was applied**, throughout a history of distinct lists. -/
theorem activeApplied_of_history (hlawful : host.topo.Lawful)
    (h : History anyAnswer host (fun _ q => q.Distinct) w) : w.ActiveApplied := by
  suffices halways : w.Always World.ActiveApplied from halways.now
  refine h.always answerable_anyAnswer (fun id s hs => ?_) fun w q hq hw => ?_
  · rw [World.empty, Store.get?_empty] at hs
    cases hs
  have hdeletes : ∀ {ε α : Type} {id : EnclaveId} {Q : α → Prop} {x : ExceptT ε Sys α},
      Prog.CallsE (Call.Deletes id) Q x →
        Prog.Keeps (system anyAnswer) (World.Always World.ActiveApplied) x := by
    intro ε α id Q x hx
    refine hx.keeps _ fun w c r hc _ hw => World.always_call hw ?_ ?_ r
    · cases hc <;> rfl
    · rintro s rfl
      cases hc
  cases q with
  | reconcile fs root req registry =>
    exact keeps_reconcile (fun _ _ h => World.always_quiet h)
      (fun desired hload run resolved removed w₁ w₂ hstart hquiet hw₁ _ =>
        keeps_passes_last hlawful (hq desired hload) hstart hw₁ hquiet) hw
  | deleteEnclave state id resourcesOnly => exact hdeletes (deleteEnclave_calls resourcesOnly) hw
  | deletePartition state id pid => exact hdeletes (deletePartition_calls pid) hw

/-! ## Runs without errors -/

/-- The partition is active as declared, and was last applied as declared. -/
def World.Applied (w : World) (host : Host) (id : EnclaveId) (part : Partition) : Prop :=
  ∃ ps, w.store.partition id part.id = some ps ∧ ps.meta_.status = .active ∧
    ps.meta_.lastError = none ∧ ps.desired = part ∧
    ps.meta_.desiredHash = some (host.partitionHash part) ∧ w.AppliedLast id part

/-- Each declared partition whose stored hash is that of its declaration, and which a run thus
passes over, satisfies `P`. -/
def PassedOver (host : Host) (desired : List Enclave) (st : Store)
    (P : Enclave → Partition → PartitionState → Prop) : Prop :=
  ∀ enc ∈ desired, ∀ part ∈ enc.partitions, ∀ ps, st.partition enc.id part.id = some ps →
    ps.meta_.desiredHash = some (host.partitionHash part) → P enc part ps

/-- What the visit of a partition makes of it, as far as its being applied goes. -/
theorem PartitionDone.applied_iff {enc : Enclave} {part : Partition}
    {inputs : HashMap String String} {before after : Option PartitionState}
    {last last' : Option Event}
    (h : PartitionDone run enc part inputs before last after last')
    (hwf : ∀ ps, before = some ps → ps.WellFormed run.host)
    (hbefore : w.store.partition enc.id part.id = before) (hlast : w.lastApply enc.id part.id = last)
    (hafter : w'.store.partition enc.id part.id = after)
    (hlast' : w'.lastApply enc.id part.id = last') :
    w'.Applied run.host enc.id part ↔ ∀ ps, w.store.partition enc.id part.id = some ps →
      ps.meta_.desiredHash = some (run.host.partitionHash part) →
        ps.meta_.status = .active ∧ ps.desired = part ∧ w.AppliedLast enc.id part := by
  rw [World.Applied, World.AppliedLast, World.AppliedLast, hbefore, hlast, hafter, hlast']
  cases h with
  | skipped hash record apply =>
    obtain ⟨ps, hps, hhash⟩ := hashUnchanged_map_iff.mp hash
    rw [record, apply, hps]
    constructor
    · rintro ⟨ps', hps', hstatus, -, hdesired, -, happlied⟩ ps'' hps'' -
      obtain rfl := Option.some.inj (hps''.symm.trans hps')
      exact ⟨hstatus, hdesired, happlied⟩
    · intro hactive
      obtain ⟨hstatus, hdesired, happlied⟩ := hactive ps rfl hhash
      obtain ⟨-, -, -, herror, -⟩ := (hwf ps hps).active hstatus
      exact ⟨ps, rfl, hstatus, herror, hdesired, hhash, happlied⟩
  | applied hash m now sa authEnv outputs record apply =>
    rw [record, apply]
    refine iff_of_true ⟨_, rfl, rfl, rfl, rfl, rfl, _, _, _, _, _, _, rfl⟩ fun ps hps hhash => ?_
    rw [hashUnchanged_map_iff.mpr ⟨ps, hps, hhash⟩] at hash
    cases hash

end

/-- **Runs without errors.** After any history, such a run leaves every declared partition active
and applied as declared iff those that it passes over were. Where no list so far had two enclaves
of one id, that they were active with this declaration is enough. -/
theorem error_free_iff {host : Host} {fs : FileSystem} {root : Dir} {req : ReconcileRequest}
    {registry : DriverRegistry} {desired : List Enclave} {w w' : World} {report : ReconcileReport}
    (hlawful : host.topo.Lawful) (h : History anyAnswer host (fun _ _ => True) w)
    (hload : loadEnclaves fs req.enclavesDir root = .ok desired) (hdry : req.dryRun = false)
    (hnodup : (desired.map (·.id)).Nodup)
    (hparts : ∀ enc ∈ desired, (enc.partitions.map (·.id)).Nodup)
    (hrun : Prog.Exec (system anyAnswer) (reconcile host fs root req registry).run w
      (.ok report) w') (herrors : report.errors = []) :
    ((∀ enc ∈ desired, ∀ part ∈ enc.partitions, w'.Applied host enc.id part) ↔
      PassedOver host desired w.store fun enc part ps =>
        ps.meta_.status = .active ∧ ps.desired = part ∧ w.AppliedLast enc.id part) ∧
    (History anyAnswer host (fun _ q => q.Distinct) w →
      ((∀ enc ∈ desired, ∀ part ∈ enc.partitions, w'.Applied host enc.id part) ↔
        PassedOver host desired w.store fun _ part ps =>
          ps.meta_.status = .active ∧ ps.desired = part)) := by
  have happlied : (∀ enc ∈ desired, ∀ part ∈ enc.partitions, w'.Applied host enc.id part) ↔
      PassedOver host desired w.store fun enc part ps =>
        ps.meta_.status = .active ∧ ps.desired = part ∧ w.AppliedLast enc.id part := by
    rw [reconcile_of_loaded hload] at hrun
    obtain ⟨run, resolved, removed, hstart, hsettled⟩ :=
      settled_of_run hlawful hdry hnodup hrun herrors
    refine forall₂_congr fun enc henc => forall₂_congr fun part hpart => ?_
    obtain ⟨driver, s, s', -, hs', hrest, hvisited⟩ := hsettled.visited enc henc
    have hafter : w'.store.partition enc.id part.id = s.partitions[part.id]? := by
      rw [Store.partition, hs', Option.bind_some]
      exact congrArg (·.partitions[part.id]?) hrest
    rw [← hstart.host_eq]
    refine (hvisited.partitions (hparts enc henc) part hpart).applied_iff (fun ps hps => ?_) rfl rfl hafter rfl
    obtain ⟨s₀, hs₀, hps⟩ := Option.bind_eq_some_iff.mp hps
    rw [hstart.host_eq]
    exact (records_wellFormed h.reachable enc.id s₀ hs₀).partition part.id ps hps
  refine ⟨happlied, fun hdistinct => happlied.trans ?_⟩
  refine forall₂_congr fun enc henc => forall₂_congr fun part hpart =>
    forall₂_congr fun ps hps => forall_congr' fun hhash => ?_
  refine ⟨fun happlied => ⟨happlied.1, happlied.2.1⟩, fun hrecorded =>
    ⟨hrecorded.1, hrecorded.2, ?_⟩⟩
  obtain ⟨hstatus, hdesired⟩ := hrecorded
  obtain ⟨s, hs, hps⟩ := Option.bind_eq_some_iff.mp hps
  obtain ⟨-, hlast⟩ := activeApplied_of_history hlawful hdistinct enc.id s hs part.id ps hps hstatus
  rw [hdesired, Store.id_of_get? hs] at hlast
  exact hlast

/-! ### A change that fails and is taken back -/

/-- An enclave with one partition of this name. -/
def named (name : String) : FileSystem where
  readConfig path :=
    if path = "enclaves/a/config.yml" then some (.ok "id: a")
    else if path = "enclaves/a/p/config.yml" then some (.ok "id: p")
    else none
  parseYaml text :=
    if text = "id: a" then
      some (.record
        [("id", .str "a"), ("name", .str "a"), ("region", .str "r"), ("partitions", .seq [.str "p"])])
    else if text = "id: p" then some (.record [("id", .str "p"), ("name", .str name)])
    else none
  yamlError _ := ""

/-- A host whose digest is the name. -/
def namingHost : Host := ⟨fun v => ((v.idx "name").asStr).getD "", Topo.kahn, "/root"⟩

def applyNamed (name : String) : Request :=
  .reconcile (named name) regionlessRoot enclavesRequest gcpOnly

/-- The run of a name, and where it ends. -/
def namedRun (name : String) (w : World) : Except ReconcileError ReconcileReport × World :=
  Prog.run World.next refusingAnswer
    (reconcile namingHost (named name) regionlessRoot enclavesRequest gcpOnly).run w

theorem exec_namedRun (name : String) (w : World) :
    Prog.Exec (system anyAnswer)
      (reconcile namingHost (named name) regionlessRoot enclavesRequest gcpOnly).run w
      (namedRun name w).1 (namedRun name w).2 :=
  Prog.exec_run (M := system anyAnswer) (fun w c => ⟨answers_refusingAnswer w c, trivial⟩) _ _

theorem history_namedRun {name : String} {w : World} {C : World → Request → Prop}
    (h : History anyAnswer namingHost C w) (hC : C w (applyNamed name)) :
    History anyAnswer namingHost C (namedRun name w).2 :=
  .request (applyNamed name) h hC (exec_namedRun name w).visits

/-- The definition as it is loaded. -/
def namedEnclave (name : String) : Enclave :=
  ⟨⟨"a"⟩, "a", none, "r", none, none, none, [], [],
    [⟨⟨"p"⟩, name, none, [], [], ∅, [], .terraform ⟨none, none, "enclaves/a/p"⟩⟩]⟩

theorem load_first :
    loadEnclaves (named "p") enclavesRequest.enclavesDir regionlessRoot = .ok [namedEnclave "p"] :=
  rfl

theorem load_second :
    loadEnclaves (named "q") enclavesRequest.enclavesDir regionlessRoot = .ok [namedEnclave "q"] :=
  rfl

theorem distinct_named {name : String} (hload : loadEnclaves (named name)
    enclavesRequest.enclavesDir regionlessRoot = .ok [namedEnclave name]) :
    (applyNamed name).Distinct := by
  intro desired hdesired
  rw [hload] at hdesired
  obtain rfl := Except.ok.inj hdesired
  exact List.nodup_singleton _

theorem nodup_partitions_named (name : String) :
    ∀ enc ∈ [namedEnclave name], (enc.partitions.map (·.id)).Nodup := by
  intro enc henc
  obtain rfl := List.mem_singleton.mp henc
  exact List.nodup_singleton _

/-- A first apply of `p`. -/
theorem error_free_first : ∃ report, (namedRun "p" .empty).1 = .ok report ∧ report.errors = [] ∧
    ∀ part ∈ (namedEnclave "p").partitions, (namedRun "p" .empty).2.Applied namingHost ⟨"a"⟩ part := by
  obtain ⟨report, hreport, herrors⟩ : ∃ report,
      (namedRun "p" .empty).1 = .ok report ∧ report.errors = [] := ⟨_, rfl, rfl⟩
  have hrun := exec_namedRun "p" .empty
  rw [hreport] at hrun
  refine ⟨report, hreport, herrors, fun part hpart => ?_⟩
  refine (error_free_iff Topo.kahn_lawful .empty load_first rfl (by decide)
    (nodup_partitions_named "p") hrun herrors).1.mpr ?_ (namedEnclave "p")
    (List.mem_singleton_self _) part hpart
  intro enc _ part _ ps hps
  simp [World.empty, Store.partition, Store.get?_empty] at hps

/-- **A change that fails and is taken back.** The last run, which finds the hash of its declaration,
has no error to report, and the partition stays the failed one with the other declaration. -/
theorem taken_back_not_applied :
    ∃ w₁ w₂ w₃ report, w₁ = (namedRun "p" .empty).2 ∧ w₂ = (namedRun "q" w₁).2 ∧
      History anyAnswer namingHost (fun _ q => q.Distinct) w₂ ∧
      Prog.Exec (system anyAnswer)
        (reconcile namingHost (named "p") regionlessRoot enclavesRequest gcpOnly).run w₂
        (.ok report) w₃ ∧
      report.errors = [] ∧
      loadEnclaves (named "p") enclavesRequest.enclavesDir regionlessRoot =
        .ok [namedEnclave "p"] ∧
      (∃ ps, w₃.store.partition ⟨"a"⟩ ⟨"p"⟩ = some ps ∧ ps.meta_.status = .error ∧
        ps.desired.name = "q") ∧
      ¬ ∀ enc ∈ [namedEnclave "p"], ∀ part ∈ enc.partitions, w₃.Applied namingHost enc.id part := by
  let w₁ := (namedRun "p" .empty).2
  let w₂ := (namedRun "q" w₁).2
  have hhistory : History anyAnswer namingHost (fun _ q => q.Distinct) w₂ :=
    history_namedRun (history_namedRun .empty (distinct_named load_first))
      (distinct_named load_second)
  obtain ⟨report, hreport, herrors⟩ : ∃ report,
      (namedRun "p" w₂).1 = .ok report ∧ report.errors = [] := by
    have h : ((namedRun "p" w₂).1.toOption.map (·.errors)) = some [] := by decide +kernel
    rcases hr : (namedRun "p" w₂).1 with e | report
    · rw [hr] at h
      cases h
    · rw [hr] at h
      exact ⟨report, rfl, Option.some.inj h⟩
  have hrun := exec_namedRun "p" w₂
  rw [hreport] at hrun
  have hstored : ((namedRun "p" w₂).2.store.partition ⟨"a"⟩ ⟨"p"⟩).map
      (fun ps => (ps.meta_.status, ps.desired.name)) = some (.error, "q") := by decide +kernel
  obtain ⟨ps, hps, hstate⟩ := Option.map_eq_some_iff.mp hstored
  obtain ⟨hstatus, hname⟩ := Prod.mk.inj hstate
  refine ⟨w₁, w₂, _, report, rfl, rfl, hhistory, hrun, herrors, load_first,
    ⟨ps, hps, hstatus, hname⟩, fun happlied => ?_⟩
  obtain ⟨ps', hps', hactive, -⟩ := happlied (namedEnclave "p") (List.mem_singleton_self _) _
    (List.mem_singleton_self _)
  obtain rfl : ps = ps' := Option.some.inj (hps.symm.trans hps')
  rw [hstatus] at hactive
  cases hactive

end Nclav
