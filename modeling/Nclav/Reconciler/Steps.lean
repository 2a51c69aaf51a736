import Nclav.Effect.Steps
import Nclav.Reconciler.Applied

/-!
# A run as steps

`ReconcileStep` says what a run may do next: which calls, with which arguments, and what was
called before them. Every run that is not dry follows it (`steps_of_run`), so what holds of every
such call holds in every run.
-/

namespace Nclav

open Effect

/-- In this run the driver has provisioned the enclave with this result. -/
def Run.Provisioned (run : Run) (w : World) (driver : Driver) (enc : Enclave)
    (result : ProvisionResult) : Prop :=
  (⟨.provisionEnclave driver enc ((run.existing enc.id).bind (·.enclaveHandle)), .ok result⟩ :
    Event) ∈ w.log

/-- What a call of `provision_partition` was about, and what it answered. -/
def Event.partitionSa : Event →
    Option (Driver × Enclave × Partition × HashMap String String × ProvisionResult)
  | ⟨.provisionPartition driver enc part inputs _, .ok sa⟩ => some (driver, enc, part, inputs, sa)
  | _ => none

/-- The newest of these calls. -/
def World.lastPartitionSa (w : World) :
    Option (Driver × Enclave × Partition × HashMap String String × ProvisionResult) :=
  w.log.findSome? Event.partitionSa

/-- Every record is that of a listed enclave. -/
def World.Listed (w : World) (desired : List Enclave) : Prop :=
  w.Records fun s => s.desired.id ∈ desired.map (·.id)

/-- What a run may do next. -/
inductive ReconcileStep (run : Run) (desired : List Enclave) (w : World) : Call → Prop
  /-- reads, the clock, the audit log -/
  | quiet {c : Call} (h : c.isQuiet = true) : ReconcileStep run desired w c
  -- the teardown pass
  | tfTeardown {id : EnclaveId} {s : EnclaveState} {driver : Driver} {h : Handle}
    {pid : PartitionId} {ps : PartitionState} (hs : run.existing id = some s)
    (hdriver : run.registry.forCloud (run.registry.stateCloud s) = .ok driver)
    (hhandle : s.enclaveHandle = some h) (hpart : s.partitions[pid]? = some ps) :
    ReconcileStep run desired w (.tfTeardown run.req.tfBackend s.desired ps.desired
      (driver.authEnv s.desired h) (some run.runId))
  | teardownPartition {id : EnclaveId} {s : EnclaveState} {driver : Driver} {pid : PartitionId}
    {ps : PartitionState} {h : Handle} (hs : run.existing id = some s)
    (hdriver : run.registry.forCloud (run.registry.stateCloud s) = .ok driver)
    (hpart : s.partitions[pid]? = some ps) (hhandle : ps.partitionHandle = some h) :
    ReconcileStep run desired w (.teardownPartition driver s.desired ps.desired h)
  | teardownEnclave {id : EnclaveId} {s : EnclaveState} {driver : Driver} {h : Handle}
    (hs : run.existing id = some s)
    (hdriver : run.registry.forCloud (run.registry.stateCloud s) = .ok driver)
    (hhandle : s.enclaveHandle = some h) (hgone : id ∉ desired.map (·.id))
    (hfull : run.req.resourcesOnly = false) :
    ReconcileStep run desired w (.teardownEnclave driver s.desired h)
  | deleteEnclave (id : EnclaveId) : ReconcileStep run desired w (.deleteEnclave id)
  -- the provision pass
  | provisionEnclave {enc : Enclave} {driver : Driver} (henc : enc ∈ desired)
    (hdriver : run.registry.forEnclave enc = .ok driver) :
    ReconcileStep run desired w
      (.provisionEnclave driver enc ((run.existing enc.id).bind (·.enclaveHandle)))
  | provisionPartition {enc : Enclave} {driver : Driver} {part : Partition}
    {result : ProvisionResult} {s : EnclaveState} {existing : Option Handle} (henc : enc ∈ desired)
    (hdriver : run.registry.forEnclave enc = .ok driver) (hpart : part ∈ enc.partitions)
    (hresult : run.Provisioned w driver enc result) (hhandle : s.enclaveHandle = some result.handle) :
    ReconcileStep run desired w (.provisionPartition driver enc part
      (resolveInputs part.inputs s (s.contextVars driver enc)) existing)
  | tfProvision {enc : Enclave} {driver : Driver} {part : Partition} {result sa : ProvisionResult}
    {s : EnclaveState} {inputs : HashMap String String} (henc : enc ∈ desired)
    (hdriver : run.registry.forEnclave enc = .ok driver) (hpart : part ∈ enc.partitions)
    (hresult : run.Provisioned w driver enc result) (hhandle : s.enclaveHandle = some result.handle)
    (hsa : w.lastPartitionSa = some (driver, enc, part, inputs, sa)) :
    ReconcileStep run desired w (.tfProvision run.req.tfBackend enc part inputs
      (partitionAuthEnv driver enc s sa.handle) (some run.runId))
  | provisionExport {enc : Enclave} {driver : Driver} {x : Export} {s : EnclaveState}
    {existing : Option Handle} (henc : enc ∈ desired)
    (hdriver : run.registry.forEnclave enc = .ok driver) (hx : x ∈ enc.exports) :
    ReconcileStep run desired w (.provisionExport driver enc x (s.outputsFor x) existing)
  /-- the record of a visited enclave, once the removed ones are gone; it is active with what its
  driver returned only -/
  | upsertEnclave {enc : Enclave} {driver : Driver} {s : EnclaveState} (henc : enc ∈ desired)
    (hdriver : run.registry.forEnclave enc = .ok driver) (hdesired : s.desired = enc)
    (hcloud : s.resolvedCloud = some (run.registry.resolvedCloud enc))
    (hhandle : (s.enclaveHandle = (run.existing enc.id).bind (·.enclaveHandle) ∧
        s.meta_.status ≠ .active) ∨
      s.meta_.desiredHash = some (run.host.enclaveHash enc) ∧
        ∃ result, run.Provisioned w driver enc result ∧ s.enclaveHandle = some result.handle)
    (hlisted : w.Listed desired) : ReconcileStep run desired w (.upsertEnclave s)
  -- the wiring pass
  | provisionImport {enc : Enclave} {driver : Driver} {im : Import} {xh : Handle} {existing : Option Handle}
    (henc : enc ∈ desired) (hdriver : run.registry.forEnclave enc = .ok driver)
    (him : im ∈ enc.allImports) :
    ReconcileStep run desired w (.provisionImport driver enc im xh existing)
  /-- a record that is written back with other import handles -/
  | rewire {s s' : EnclaveState} (hs : w.store.get? s.desired.id = some s)
    (hrest : s'.rest = s.rest) : ReconcileStep run desired w (.upsertEnclave s')

theorem Run.Provisioned.mono {run : Run} {w w' : World} {driver : Driver} {enc : Enclave}
    {result : ProvisionResult} (h : run.Provisioned w driver enc result)
    (hlog : w.log ⊆ w'.log) : run.Provisioned w' driver enc result :=
  hlog h

/-- The worlds that the steps of a run lead to. -/
abbrev Run.Steps (run : Run) (desired : List Enclave) : World → World → Prop :=
  Effect.Steps World.next (ReconcileStep run desired)

/-! ## The teardown pass -/

section

variable {A : (c : Call) → Resp c → Prop} {run : Run} {desired : List Enclave} {w w₁ w₂ : World}

theorem Run.Steps.quiet (h : run.Steps desired w w₁) (hquiet : w₁.Quiet w₂) :
    run.Steps desired w w₂ :=
  hquiet.keeps (fun _ c r hc h => .next c r h (.quiet hc)) h

/-- A call that is allowed in every world. -/
def Call.Free (run : Run) (desired : List Enclave) (c : Call) : Prop :=
  ∀ w, ReconcileStep run desired w c

theorem Call.Free.quiet {c : Call} (hc : c.isQuiet = true) : c.Free run desired :=
  fun _ => .quiet hc

/-- Calls that are free are steps. -/
theorem steps_of_free {α : Type} {Q : α → Prop} {x : Rec α}
    (hx : Prog.CallsE (Call.Free run desired) Q x) (hw : run.Steps desired w w₁) :
    Prog.Ensures (system A) (run.Steps desired w) (fun a _ => Q a) x w₁ :=
  hx.ensures (fun w₂ c r hc _ h => .next c r h (hc w₂)) hw

theorem teardownRemovedEnclave_free {id : EnclaveId} {existing : EnclaveState}
    (hs : run.existing id = some existing) (hgone : id ∉ desired.map (·.id))
    (errors : List ReportError) :
    Prog.CallsE (Call.Free run desired) (fun _ => True)
      (teardownRemovedEnclave run id existing errors) := by
  rw [teardownRemovedEnclave]
  split
  · rename_i driver h hdriver hhandle
    refine Prog.CallsE.bind (callsE_perform (.quiet rfl)) fun entries _ => ?_
    refine Prog.CallsE.bind (Prog.CallsE.foldlM (fun _ => True) (fun errors' entry hentry _ => ?_)
      trivial) fun errors' _ => ?_
    · have hpart : existing.partitions[entry.1]? = some entry.2 :=
        Std.ExtTreeMap.mem_toList_iff_getElem?_eq_some.mp (entries.property.mem_iff.mp hentry)
      refine Prog.CallsE.bind (Prog.CallsE.monadLift (Prog.Calls.perform
        fun _ => .tfTeardown hs hdriver hhandle hpart)) fun destroyed _ => ?_
      rcases hph : entry.2.partitionHandle with _ | ph
      · exact Prog.CallsE.pure trivial
      · exact Prog.CallsE.bind (callsE_perform fun _ => .teardownPartition hs hdriver hpart hph)
          fun _ _ => Prog.CallsE.pure trivial
    · split
      · exact Prog.CallsE.pure trivial
      · rename_i hfull
        exact Prog.CallsE.bind (callsE_orFail (Prog.Calls.perform
          fun _ => .teardownEnclave hs hdriver hhandle hgone (by simpa using hfull)))
          fun _ _ => Prog.CallsE.pure trivial
  · exact Prog.CallsE.pure trivial

theorem teardownPass_free {removed : List EnclaveId}
    (hremoved : ∀ id ∈ removed, id ∉ desired.map (·.id)) :
    Prog.CallsE (Call.Free run desired) (fun _ => True) (teardownPass run removed) := by
  refine Prog.CallsE.foldlM (fun _ => True) (fun errors id hid _ => ?_) trivial
  rw [teardownRemoved]
  split
  · exact Prog.CallsE.pure trivial
  · rename_i existing hs
    refine (teardownRemovedEnclave_free hs (hremoved id hid) errors).bind fun errors' _ => ?_
    exact (callsE_deleteEnclave fun _ => .deleteEnclave id).bind
      fun _ _ => Prog.CallsE.pure trivial

end

/-! ## The provision pass -/

section

variable {run : Run} {desired : List Enclave} {w w₁ w₂ : World}

/-- The steps of a run whose teardown pass is over. -/
structure Run.Building (run : Run) (desired : List Enclave) (w w₁ : World) : Prop where
  steps : run.Steps desired w w₁
  listed : w₁.Listed desired

theorem Run.Building.next (h : run.Building desired w w₁) {c : Call} (r : Resp c)
    (hc : ReconcileStep run desired w₁ c) (hstore : (w₁.next c r).store = w₁.store) :
    run.Building desired w (w₁.next c r) where
  steps := .next c r h.steps hc
  listed id s hs := h.listed id s (hstore ▸ hs)

theorem Run.Building.quiet (h : run.Building desired w w₁) (hquiet : w₁.Quiet w₂) :
    run.Building desired w w₂ where
  steps := h.steps.quiet hquiet
  listed id s hs := h.listed id s (hquiet.store ▸ hs)

theorem Run.Building.upsert (h : run.Building desired w w₁) {s : EnclaveState}
    (hs : s.desired.id ∈ desired.map (·.id)) (hc : ReconcileStep run desired w₁ (.upsertEnclave s))
    (r : Resp (.upsertEnclave s)) : run.Building desired w (w₁.next (.upsertEnclave s) r) where
  steps := .next _ r h.steps hc
  listed := World.Records.next h.listed _ r (fun _ heq => by cases heq; exact hs) fun _ _ _ _ h => h

end

section

variable {A : (c : Call) → Resp c → Prop} {run : Run} {desired : List Enclave} {driver : Driver}
  {enc : Enclave} {result : ProvisionResult} {w w₁ : World}

/-- The record at hand while the partitions and exports of an enclave are provisioned. -/
structure EnclaveState.Visiting (run : Run) (enc : Enclave) (result : ProvisionResult)
    (s : EnclaveState) : Prop where
  desired : s.desired = enc
  cloud : s.resolvedCloud = some (run.registry.resolvedCloud enc)
  handle : s.enclaveHandle = some result.handle
  hash : s.meta_.desiredHash = some (run.host.enclaveHash enc)

/-- The steps so far, the enclave provisioned. -/
def Run.StepsTo (run : Run) (desired : List Enclave) (driver : Driver) (enc : Enclave)
    (result : ProvisionResult) (w w₁ : World) : Prop :=
  run.Building desired w w₁ ∧ run.Provisioned w₁ driver enc result

theorem Run.StepsTo.next (h : run.StepsTo desired driver enc result w w₁) {c : Call} (r : Resp c)
    (hc : run.Provisioned w₁ driver enc result → ReconcileStep run desired w₁ c)
    (hstore : (w₁.next c r).store = w₁.store) :
    run.StepsTo desired driver enc result w (w₁.next c r) :=
  ⟨h.1.next r (hc h.2) hstore, h.2.mono (List.subset_cons_self _ _)⟩

theorem Run.StepsTo.quiet (h : run.StepsTo desired driver enc result w w₁) {w₂ : World}
    (hquiet : w₁.Quiet w₂) : run.StepsTo desired driver enc result w w₂ :=
  ⟨h.1.quiet hquiet, h.2.mono hquiet.log_subset⟩

variable (henc : enc ∈ desired) (hdriver : run.registry.forEnclave enc = .ok driver)

include henc hdriver

theorem Run.StepsTo.upsert (h : run.StepsTo desired driver enc result w w₁) {s : EnclaveState}
    (hs : s.Visiting run enc result) (r : Resp (.upsertEnclave s)) :
    run.StepsTo desired driver enc result w (w₁.next (.upsertEnclave s) r) := by
  refine ⟨h.1.upsert ?_ ?_ r, h.2.mono (List.subset_cons_self _ _)⟩
  · rw [hs.desired]
    exact List.mem_map_of_mem henc
  · exact .upsertEnclave henc hdriver hs.desired hs.cloud
      (.inr ⟨hs.hash, result, h.2, hs.handle⟩) h.1.listed

theorem wp_applyPartition_steps {part : Partition} (hpart : part ∈ enc.partitions)
    {s₀ s : EnclaveState} (hs₀ : s₀.Visiting run enc result) (hs : s.Visiting run enc result)
    {existing : Option Handle} (h : run.StepsTo desired driver enc result w w₁) :
    Prog.wp (system A) (applyPartition run driver enc part
        (resolveInputs part.inputs s₀ (s₀.contextVars driver enc)) existing s)
      (fun a w₂ => run.StepsTo desired driver enc result w w₂ ∧ a.1.Visiting run enc result) w₁ := by
  intro sa _
  have h₁ := h.next (c := .provisionPartition driver enc part
    (resolveInputs part.inputs s₀ (s₀.contextVars driver enc)) existing) sa
    (fun hresult => .provisionPartition henc hdriver hpart hresult hs₀.handle) rfl
  rcases sa with e | sa
  · exact ⟨h₁, hs⟩
  have hs' : (s.updatePartition part ({ · with partitionHandle := some sa.handle })).Visiting run
      enc result := ⟨hs.desired, hs.cloud, hs.handle, hs.hash⟩
  intro r _ outputs _
  have h₂ := h₁.upsert henc hdriver hs' r
  have h₃ := h₂.next (c := .tfProvision run.req.tfBackend enc part
    (resolveInputs part.inputs s₀ (s₀.contextVars driver enc))
    (partitionAuthEnv driver enc (s.updatePartition part
      ({ · with partitionHandle := some sa.handle })) sa.handle) (some run.runId)) outputs
    (fun hresult => .tfProvision henc hdriver hpart hresult hs'.handle rfl) rfl
  cases outputs with
  | error e => exact ⟨h₃, hs'⟩
  | ok outputs => exact ⟨h₃, hs'⟩

theorem ensures_provisionPartition_steps {part : Partition} (hpart : part ∈ enc.partitions)
    {acc : EnclaveState × List ReportError} (hs : acc.1.Visiting run enc result)
    (h : run.StepsTo desired driver enc result w w₁) :
    Prog.Ensures (system A) (run.StepsTo desired driver enc result w)
      (fun a _ => a.1.Visiting run enc result) (provisionPartition run driver enc acc part) w₁ := by
  simp only [provisionPartition]
  split
  · exact Prog.Ensures.pure h hs
  have hs' : EnclaveState.Visiting run enc result { acc.1 with
      partitions := acc.1.partitions.insert part.id
        (PartitionState.inFlight acc.1.partitions[part.id]? part) } :=
    ⟨hs.desired, hs.cloud, hs.handle, hs.hash⟩
  refine (ensures_upsertEnclave fun r => h.upsert henc hdriver hs' r).bind fun _ w₂ h₂ _ => ?_
  refine (Prog.Ensures.monadLift (wp_applyPartition_steps henc hdriver hpart hs hs' h₂)).bind
    fun a w₃ h₃ ha => ?_
  rw [recordPartition]
  refine (ensures_perform (P := fun _ _ => True) fun now _ _ =>
    ⟨h₃.next now (fun _ => .quiet rfl) rfl, trivial⟩).bind fun now w₄ h₄ _ => ?_
  split
  · exact (ensures_appendEvent fun _ hquiet => h₄.quiet hquiet).bind
      fun _ w₅ h₅ _ => Prog.Ensures.pure h₅ ⟨ha.desired, ha.cloud, ha.handle, ha.hash⟩
  · exact (ensures_appendEvent fun _ hquiet => h₄.quiet hquiet).bind
      fun _ w₅ h₅ _ => Prog.Ensures.pure h₅ ⟨ha.desired, ha.cloud, ha.handle, ha.hash⟩

theorem ensures_provisionExport_steps {x : Export} (hx : x ∈ enc.exports)
    {acc : EnclaveState × List ReportError} (hs : acc.1.Visiting run enc result)
    (h : run.StepsTo desired driver enc result w w₁) :
    Prog.Ensures (system A) (run.StepsTo desired driver enc result w)
      (fun a _ => a.1.Visiting run enc result) (provisionExport driver enc acc x) w₁ := by
  refine (ensures_perform (P := fun _ _ => True) fun r _ _ =>
    ⟨h.next r (fun _ => .provisionExport (s := acc.1) henc hdriver hx) rfl, trivial⟩).bind
    fun r w₂ h₂ _ => ?_
  cases r with
  | ok r =>
    exact (ensures_appendEvent fun _ hquiet => h₂.quiet hquiet).bind
      fun _ w₃ h₃ _ => Prog.Ensures.pure h₃ ⟨hs.desired, hs.cloud, hs.handle, hs.hash⟩
  | error e => exact Prog.Ensures.pure h₂ hs

theorem ensures_provisionContents_steps {s : EnclaveState} (hs : s.Visiting run enc result)
    (errors : List ReportError) (h : run.StepsTo desired driver enc result w w₁) :
    Prog.Ensures (system A) (run.Building desired w) (fun _ _ => True)
      (provisionContents run driver enc s errors) w₁ := by
  suffices hsteps : Prog.Ensures (system A) (run.StepsTo desired driver enc result w)
      (fun _ _ => True) (provisionContents run driver enc s errors) w₁ from
    Prog.wpE_mono hsteps fun _ _ h => ⟨h.1.1, h.2⟩
  let J {α : Type} (_ : List α) (a : EnclaveState × List ReportError) (_ : World) : Prop :=
    a.1.Visiting run enc result
  refine (Prog.Ensures.foldlM J (fun pre part post acc w₂ hsplit h₂ hacc =>
    ensures_provisionPartition_steps henc hdriver (by simp [hsplit]) hacc h₂) h hs).bind
    fun acc w₂ h₂ hacc => ?_
  refine (Prog.Ensures.foldlM J (fun pre x post acc w₃ hsplit h₃ hacc =>
    ensures_provisionExport_steps henc hdriver (by simp [hsplit]) hacc h₃) h₂ hacc).bind
    fun acc w₃ h₃ hacc => ?_
  refine (ensures_appendEvent fun _ hquiet => h₃.quiet hquiet).bind fun _ w₄ h₄ _ => ?_
  exact (ensures_upsertEnclave fun r => h₄.upsert henc hdriver hacc r).bind
    fun _ w₅ h₅ _ => Prog.Ensures.pure h₅ trivial

omit hdriver in
theorem ensures_provisionEnclave_steps (errors : List ReportError)
    (h : run.Building desired w w₁) :
    Prog.Ensures (system A) (run.Building desired w) (fun _ _ => True)
      (provisionEnclave run errors enc) w₁ := by
  rw [provisionEnclave]
  split
  · exact Prog.Ensures.pure h trivial
  rename_i driver hdriver
  have hold : ∀ s : EnclaveState, s.desired = enc →
      s.resolvedCloud = some (run.registry.resolvedCloud enc) →
      s.enclaveHandle = (run.existing enc.id).bind (·.enclaveHandle) → s.meta_.status ≠ .active →
      ∀ {w₂}, run.Building desired w w₂ → ∀ r,
        run.Building desired w (w₂.next (.upsertEnclave s) r) := by
    intro s hd hc hh ha w₂ h₂ r
    refine h₂.upsert ?_ (.upsertEnclave henc hdriver hd hc (.inl ⟨hh, ha⟩) h₂.listed) r
    rw [hd]
    exact List.mem_map_of_mem henc
  have hhandle : (EnclaveState.inFlight run enc).enclaveHandle =
      (run.existing enc.id).bind (·.enclaveHandle) := by
    rw [EnclaveState.inFlight]
    cases run.existing enc.id <;> rfl
  have hstatus : (EnclaveState.inFlight run enc).meta_.status ≠ .active := by
    rw [EnclaveState.inFlight]
    cases run.existing enc.id <;> rintro ⟨⟩
  refine (ensures_upsertEnclave fun r => hold _ rfl rfl hhandle hstatus h r).bind
    fun _ w₂ h₂ _ => ?_
  refine (ensures_perform (P := fun (r : Except DriverError ProvisionResult) w₃ =>
      ∀ result, r = .ok result → run.Provisioned w₃ driver enc result) fun r _ _ =>
    ⟨h₂.next r (.provisionEnclave henc hdriver) rfl, ?_⟩).bind fun r w₃ h₃ hr => ?_
  · rintro result rfl
    exact List.mem_cons_self ..
  refine (ensures_perform (P := fun _ w₄ => w₃.Quiet w₄) fun now _ _ =>
    ⟨h₃.next now (.quiet rfl) rfl, (World.Quiet.refl w₃).next rfl now⟩).bind
    fun now w₄ h₄ hw₄ => ?_
  cases r with
  | ok result =>
    exact ensures_provisionContents_steps henc hdriver ⟨rfl, rfl, rfl, rfl⟩ errors
      ⟨h₄, (hr result rfl).mono hw₄.log_subset⟩
  | error e =>
    refine (ensures_upsertEnclave fun r => hold { EnclaveState.inFlight run enc with
      meta_ := (EnclaveState.inFlight run enc).meta_.markError now (toString e) } rfl rfl hhandle
        (by rw [ResourceMeta.markError_status]; rintro ⟨⟩) h₄ r).bind
      fun _ w₅ h₅ _ => ?_
    exact (ensures_appendEvent fun _ hquiet => h₅.quiet hquiet).bind
      fun _ w₆ h₆ _ => Prog.Ensures.pure h₆ trivial

/-! ## The wiring pass -/

omit hdriver in
theorem ensures_wireEnclave_steps (errors : List ReportError) (h : run.Steps desired w w₁) :
    Prog.Ensures (system A) (run.Steps desired w) (fun _ _ => True)
      (wireEnclave run errors enc) w₁ := by
  rw [wireEnclave]
  split
  · exact Prog.Ensures.pure h trivial
  rename_i driver hdriver
  refine (ensures_getEnclave fun _ hquiet => h.quiet hquiet).bind fun stored w₂ h₂ hend => ?_
  obtain ⟨hs, hw₂⟩ := hend
  rcases stored with _ | s
  · exact Prog.Ensures.pure h₂ trivial
  have hread : w₂.store.get? s.desired.id = some s := by
    rw [hw₂.store, Store.id_of_get? hs.symm, hs]
  let J (_ : List Import) (acc : WiringState) (w₃ : World) : Prop :=
    w₃.store = w₂.store ∧ acc.encState.rest = s.rest
  refine (Prog.Ensures.foldlM J (fun pre im post acc w₃ hsplit h₃ hacc => ?_) h₂ ⟨rfl, rfl⟩).bind
    fun acc w₃ h₃ hacc => ?_
  · have him : im ∈ enc.allImports := by simp [hsplit]
    rw [wireImport]
    split
    · exact Prog.Ensures.pure h₃ hacc
    refine (ensures_getEnclave fun _ hquiet => h₃.quiet hquiet).bind fun exporter w₄ h₄ hend => ?_
    obtain ⟨-, hw₄⟩ := hend
    have hstore : w₄.store = w₂.store := hw₄.store.trans hacc.1
    split
    · exact Prog.Ensures.pure h₄ ⟨hstore, hacc.2⟩
    refine (ensures_perform (P := fun _ w₅ => w₅.store = w₂.store) fun r _ _ =>
      ⟨.next _ r h₄ (.provisionImport henc hdriver him), ?_⟩).bind fun r w₅ h₅ hw₅ => ?_
    · exact hstore
    cases r with
    | ok r =>
      exact (ensures_appendEvent fun _ hquiet => h₅.quiet hquiet).bind fun _ w₆ h₆ hquiet =>
        Prog.Ensures.pure h₆ ⟨hquiet.store.trans hw₅, hacc.2⟩
    | error e => exact Prog.Ensures.pure h₅ ⟨hw₅, hacc.2⟩
  split
  · exact (ensures_upsertEnclave fun r => .next _ r h₃
      (.rewire (by rw [hacc.1]; exact hread) hacc.2)).bind
      fun _ w₄ h₄ _ => Prog.Ensures.pure h₄ trivial
  · exact Prog.Ensures.pure h₃ trivial

end

/-! ## Runs -/

section

variable {A : (c : Call) → Resp c → Prop} {host : Host} {req : ReconcileRequest}
  {registry : DriverRegistry} {desired : List Enclave} {w : World}

theorem ensures_passes_steps {run : Run} {resolved : ResolvedGraph} {removed : List EnclaveId}
    {w₁ : World} (hstart : RunStart host req registry desired w₁ run resolved removed)
    (h : run.Steps desired w w₁) :
    Prog.Ensures (system A) (run.Steps desired w) (fun _ _ => True)
      (passes run removed (orderedDesired resolved desired)) w₁ := by
  have hordered : ∀ enc ∈ orderedDesired resolved desired, enc ∈ desired := fun _ =>
    mem_of_mem_orderedDesired
  have hteardown : Prog.Ensures (system A) (run.Steps desired w) (fun _ w₂ => w₂.Listed desired)
      (teardownPass run removed) w₁ := by
    refine Prog.wpE_mono (Prog.wp_and.mpr
      ⟨steps_of_free (teardownPass_free fun id hid => ((hstart.mem_removed id).mp hid).2) h,
        wpE_teardownPass_gone (fun _ _ => hstart.keyed) (fun id hid => ?_) w₁⟩)
      fun r w₂ h₂ => ⟨h₂.1.1, fun errors hr id s hs => ?_⟩
    · rw [hstart.existing]
      exact ((hstart.mem_removed id).mp hid).1
    · obtain ⟨hgone, hview⟩ := h₂.2 errors hr
      rw [Store.id_of_get? hs]
      by_contra hid
      by_cases hrem : id ∈ removed
      · rw [hgone id hrem] at hs
        cases hs
      · rw [(hview id hrem).store] at hs
        exact hrem ((hstart.mem_removed id).mpr ⟨Option.isSome_iff_exists.mpr ⟨s, hs⟩, hid⟩)
  refine hteardown.bind fun errors w₂ h₂ hlisted => ?_
  have hbuilt : Prog.Ensures (system A) (run.Building desired w) (fun _ _ => True)
      (provisionPass run (orderedDesired resolved desired) errors) w₂ :=
    Prog.Ensures.foldlM (fun _ _ _ => True) (fun pre enc post errors w₃ hsplit h₃ _ =>
      ensures_provisionEnclave_steps (hordered enc (by simp [hsplit])) errors h₃) ⟨h₂, hlisted⟩
      trivial
  have hprovision : Prog.Ensures (system A) (run.Steps desired w) (fun _ _ => True)
      (provisionPass run (orderedDesired resolved desired) errors) w₂ :=
    Prog.wpE_mono hbuilt fun _ _ h => ⟨h.1.steps, h.2⟩
  refine hprovision.bind fun errors w₃ h₃ _ => ?_
  exact Prog.Ensures.foldlM (fun _ _ _ => True) (fun pre enc post errors w₄ hsplit h₄ _ =>
    ensures_wireEnclave_steps (hordered enc (by simp [hsplit])) errors h₄) h₃ trivial

/-- **A run follows its steps**, unless it is dry or rejects its list, and then it makes only
quiet calls. -/
theorem steps_of_run {r : Except ReconcileError ReconcileReport} {w' : World}
    (hrun : Prog.Exec (system A) (reconcileLoaded host req registry desired).run w r w') :
    w.Quiet w' ∨ req.dryRun = false ∧ (∃ resolved, validate host.topo desired = .ok resolved) ∧
      ∃ run : Run, run.host = host ∧ run.req = req ∧ run.registry = registry ∧
        (∀ id, run.existing id = w.store.get? id) ∧ run.Steps desired w w' := by
  rcases hdry : req.dryRun with _ | _
  · refine hrun.wp (Q := fun _ w' => w.Quiet w' ∨ false = false ∧
      (∃ resolved, validate host.topo desired = .ok resolved) ∧
      ∃ run : Run, run.host = host ∧ run.req = req ∧ run.registry = registry ∧
        (∀ id, run.existing id = w.store.get? id) ∧ run.Steps desired w w') ?_
    refine wpE_reconcileLoaded hdry (fun _ _ => .inl (.refl w)) (fun _ _ w' h => .inl h) ?_
    intro run resolved removed w₁ hstart hw₁
    refine wpE_applyPasses (fun _ _ w₂ hw₂ => .inl (hw₁.trans hw₂)) fun w₂ hw₂ => ?_
    have hsteps : run.Steps desired w w₂ := Run.Steps.quiet .refl (hw₁.trans hw₂)
    refine Prog.wpE_mono (ensures_passes_steps (hstart.quiet (hw₁.trans hw₂)) hsteps)
      fun r w₃ h₃ w₄ hw₄ => ?_
    have hend := h₃.1.quiet hw₄
    have hends : w.Quiet w₄ ∨ false = false ∧
        (∃ resolved, validate host.topo desired = .ok resolved) ∧
        ∃ run : Run, run.host = host ∧ run.req = req ∧ run.registry = registry ∧
          (∀ id, run.existing id = w.store.get? id) ∧ run.Steps desired w w₄ :=
      .inr ⟨rfl, ⟨resolved, hstart.valid⟩, run, hstart.host_eq, hstart.req_eq,
        hstart.registry_eq, hstart.existing, hend⟩
    exact ⟨hends, fun _ _ => hends⟩
  · exact .inl (hrun.wp (wpE_reconcileLoaded_dry hdry))

end

end Nclav
