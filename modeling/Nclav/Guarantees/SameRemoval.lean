import Nclav.Guarantees.Forgotten
import Nclav.Guarantees.TeardownOrder

/-!
# Two ways to remove an enclave

`DELETE /enclaves/{id}` and a reconcile without the enclave each have a copy of the teardown. They
tear down the same resources in the same order, and differ in what becomes of the record when the
enclave cannot be torn down or its cloud has no driver, and in what is reported when an identity
cannot be cleaned up (`same_removal_iff`).
-/

namespace Nclav

open Effect

/-- The outcomes of the calls of a removal, whichever request makes them. -/
structure Outcomes : Type where
  tfTeardown : Enclave → Partition → HashMap String String → Except DriverError Unit
  teardownPartition : Driver → Enclave → Partition → Handle → Except DriverError Unit
  teardownEnclave : Driver → Enclave → Handle → Except DriverError Unit
  deleteEnclave : Except StoreError Unit

/-- The calls of a removal have these outcomes, and no other store call fails. -/
def Outcomes.gives (o : Outcomes) : (c : Call) → Resp c → Prop
  | .tfTeardown tf enc part authEnv _, r => tf.testMode = false → r = o.tfTeardown enc part authEnv
  | .teardownPartition driver enc part handle, r => r = o.teardownPartition driver enc part handle
  | .teardownEnclave driver enc handle, r => r = o.teardownEnclave driver enc handle
  | .deleteEnclave _, r => r = o.deleteEnclave
  | c, r => storeOk c r

/-! ## The teardowns of a run -/

/-- A call that tears something down, with the arguments that its outcome depends on. -/
inductive TeardownStep : Type where
  | terraform (enc : Enclave) (part : Partition) (authEnv : HashMap String String)
  | partition (driver : Driver) (enc : Enclave) (part : Partition) (handle : Handle)
  | enclave (driver : Driver) (enc : Enclave) (handle : Handle)

/-- The partition that is torn down. -/
def TeardownStep.part : TeardownStep → Option Partition
  | .terraform _ part _ => some part
  | .partition _ _ part _ => some part
  | .enclave _ _ _ => none

def Call.teardownStep : Call → Option TeardownStep
  | .tfTeardown _ enc part authEnv _ => some (.terraform enc part authEnv)
  | .teardownPartition driver enc part handle => some (.partition driver enc part handle)
  | .teardownEnclave driver enc handle => some (.enclave driver enc handle)
  | _ => none

/-- The teardowns so far, oldest first. -/
def World.teardowns (w : World) : List TeardownStep :=
  w.log.reverse.filterMap fun ev => ev.1.teardownStep

/-- The same steps, the order of the partitions aside. -/
def SameSteps (xs ys : List TeardownStep) : Prop :=
  ∃ (blocks blocks' : List (List TeardownStep)) (last : List TeardownStep),
    xs = blocks.flatten ++ last ∧ ys = blocks'.flatten ++ last ∧ blocks.Perm blocks' ∧
      (∀ block ∈ blocks, ∃ part, ∀ step ∈ block, step.part = some part) ∧
        ∀ step ∈ last, step.part = none

theorem teardowns_next (w : World) (c : Call) (r : Resp c) :
    (w.next c r).teardowns = w.teardowns ++ c.teardownStep.toList := by
  rw [World.teardowns, World.next_log, List.reverse_cons, List.filterMap_append, World.teardowns]
  cases hstep : c.teardownStep <;> simp [hstep]

theorem teardowns_quiet {w w' : World} (h : w.Quiet w') : w'.teardowns = w.teardowns := by
  obtain ⟨evs, hlog, hevs⟩ := h.log
  have hnone : evs.reverse.filterMap (fun ev => ev.1.teardownStep) = [] := by
    refine List.filterMap_eq_nil_iff.mpr fun ev hev => ?_
    have hquiet := hevs ev (List.mem_reverse.mp hev)
    cases hc : ev.1 <;> rw [hc] at hquiet <;> first | rfl | cases hquiet
  rw [World.teardowns, hlog, List.reverse_append, List.filterMap_append, hnone, List.append_nil,
    World.teardowns]

/-! ## Programs with one outcome -/

/-- The program succeeds with `a` after these teardowns, and writes nothing. -/
def Yields (A : (c : Call) → Resp c → Prop) {ε α : Type} (x : ExceptT ε Sys α) (a : α)
    (steps : List TeardownStep) : Prop :=
  ∀ w, Prog.wpE (system A) x
    (fun r w' => r = .ok a ∧ w'.store = w.store ∧ w'.teardowns = w.teardowns ++ steps) w

section

variable {A : (c : Call) → Resp c → Prop} {ε α β : Type}

theorem Yields.pure (a : α) : Yields A (Pure.pure a : ExceptT ε Sys α) a [] :=
  fun _ => ⟨rfl, rfl, (List.append_nil _).symm⟩

theorem Yields.bind {x : ExceptT ε Sys α} {f : α → ExceptT ε Sys β} {a : α} {b : β}
    {steps steps' : List TeardownStep} (hx : Yields A x a steps) (hf : Yields A (f a) b steps') :
    Yields A (x >>= f) b (steps ++ steps') := by
  intro w
  rw [Prog.wpE_bind]
  refine Prog.wpE_mono (hx w) fun r w₁ h => ?_
  obtain ⟨rfl, hstore, hsteps⟩ := h
  refine Prog.wpE_mono (hf w₁) fun r w₂ h => ?_
  obtain ⟨rfl, hstore', hsteps'⟩ := h
  exact ⟨rfl, hstore'.trans hstore, by rw [hsteps', hsteps, List.append_assoc]⟩

/-- A loop that appends to its results what each element yields. -/
theorem Yields.foldlM {f : List α → β → ExceptT ε Sys (List α)} {g : β → List α}
    {h : β → List TeardownStep} (hf : ∀ acc b, Yields A (f acc b) (acc ++ g b) (h b))
    (bs : List β) (acc : List α) :
    Yields A (bs.foldlM f acc) (acc ++ bs.flatMap g) (bs.flatMap h) := by
  induction bs generalizing acc with
  | nil =>
    rw [List.flatMap_nil, List.append_nil]
    exact .pure acc
  | cons b bs ih =>
    rw [List.foldlM_cons, List.flatMap_cons, List.flatMap_cons, ← List.append_assoc]
    exact (hf acc b).bind (ih _)

theorem Yields.perform {c : Call} {r : Resp c} (hr : ∀ r', A c r' → r' = r)
    (hstore : ∀ st, World.nextStore st c r = st) :
    Yields A (monadLift (Nclav.perform c) : ExceptT ε Sys (Resp c)) r c.teardownStep.toList := by
  intro w
  rw [Prog.wpE_monadLift, Prog.wp_perform]
  intro r' hr'
  obtain rfl := hr r' hr'.2
  exact ⟨rfl, hstore w.store, teardowns_next w c r'⟩

end

/-! ## The teardown of an enclave -/

section

variable (o : Outcomes) (id : EnclaveId) (driver : Driver) (s : EnclaveState)
  (authEnv : HashMap String String)

/-- The teardowns of a partition. -/
def partitionSteps (entry : PartitionId × PartitionState) : List TeardownStep :=
  .terraform s.desired entry.2.desired authEnv :: match entry.2.partitionHandle with
    | none => []
    | some handle => [.partition driver s.desired entry.2.desired handle]

/-- What the handler collects for a partition. -/
def partitionTexts (entry : PartitionId × PartitionState) : List String :=
  let destroyed := collect s!"teardown {id.val}/{entry.1.val}: " []
    (o.tfTeardown s.desired entry.2.desired authEnv)
  match entry.2.partitionHandle with
  | none => destroyed
  | some handle => collect s!"SA cleanup {id.val}/{entry.1.val}: " destroyed
      (o.teardownPartition driver s.desired entry.2.desired handle)

/-- What the reconcile reports for a partition. -/
def partitionErrors (entry : PartitionId × PartitionState) : List ReportError :=
  match o.tfTeardown s.desired entry.2.desired authEnv with
  | .ok () => []
  | .error e => [.teardown id entry.1 e]

end

section

variable {o : Outcomes} {id : EnclaveId} {driver : Driver} {s : EnclaveState}
  {authEnv : HashMap String String} {tf : TerraformBackend}

theorem collect_append (label : String) (errors errors' : List String)
    (r : Except DriverError Unit) :
    collect label (errors ++ errors') r = errors ++ collect label errors' r := by
  cases r with
  | ok _ => rfl
  | error e => exact List.append_assoc ..

theorem yields_tfTeardown {ε : Type} (htf : tf.testMode = false) (enc : Enclave) (part : Partition)
    (runId : Option Uuid) :
    Yields o.gives (monadLift (tf.teardown enc part authEnv runId) :
      ExceptT ε Sys (Except DriverError Unit)) (o.tfTeardown enc part authEnv)
      [.terraform enc part authEnv] :=
  Yields.perform (c := .tfTeardown tf enc part authEnv runId) (fun _ h => h htf) fun _ => rfl

theorem yields_teardownPartition {ε : Type} (enc : Enclave) (part : Partition) (handle : Handle) :
    Yields o.gives (monadLift (perform (.teardownPartition driver enc part handle)) :
      ExceptT ε Sys (Except DriverError Unit)) (o.teardownPartition driver enc part handle)
      [.partition driver enc part handle] :=
  Yields.perform (c := .teardownPartition driver enc part handle) (fun _ h => h) fun _ => rfl

theorem yields_destroyPartition (htf : tf.testMode = false) (errors : List String)
    (entry : PartitionId × PartitionState) :
    Yields o.gives (destroyPartition tf id driver s authEnv errors entry)
      (errors ++ partitionTexts o id driver s authEnv entry)
      (partitionSteps driver s authEnv entry) := by
  rw [destroyPartition, partitionTexts, partitionSteps]
  refine (yields_tfTeardown htf _ _ none).bind ?_
  have hdestroyed := collect_append s!"teardown {id.val}/{entry.1.val}: " errors []
    (o.tfTeardown s.desired entry.2.desired authEnv)
  rw [List.append_nil] at hdestroyed
  rw [hdestroyed]
  cases entry.2.partitionHandle with
  | none => exact .pure _
  | some handle =>
    have hcleaned := collect_append s!"SA cleanup {id.val}/{entry.1.val}: " errors
      (collect s!"teardown {id.val}/{entry.1.val}: " []
        (o.tfTeardown s.desired entry.2.desired authEnv))
      (o.teardownPartition driver s.desired entry.2.desired handle)
    rw [← hcleaned]
    exact (yields_teardownPartition _ _ handle).bind (.pure _)

theorem yields_teardownRemovedPartition {run : Run} (htf : run.req.tfBackend.testMode = false)
    (errors : List ReportError) (entry : PartitionId × PartitionState) :
    Yields o.gives (teardownRemovedPartition run id driver s authEnv errors entry)
      (errors ++ partitionErrors o id s authEnv entry)
      (partitionSteps driver s authEnv entry) := by
  rw [teardownRemovedPartition, partitionErrors, partitionSteps]
  refine (yields_tfTeardown htf _ _ (some run.runId)).bind ?_
  cases o.tfTeardown s.desired entry.2.desired authEnv with
  | ok _ =>
    rw [List.append_nil]
    cases entry.2.partitionHandle with
    | none => exact .pure _
    | some handle => exact (yields_teardownPartition _ _ handle).bind (.pure _)
  | error e =>
    cases entry.2.partitionHandle with
    | none => exact .pure _
    | some handle => exact (yields_teardownPartition _ _ handle).bind (.pure _)

end

/-! ## The two removals -/

section

variable (o : Outcomes) (id : EnclaveId) (driver : Driver) (s : EnclaveState)
  (resourcesOnly : Bool)

/-- The teardowns of an enclave, its partitions in this order. -/
def removalSteps (entries : List (PartitionId × PartitionState)) : List TeardownStep :=
  match s.enclaveHandle with
  | none => []
  | some handle =>
    entries.flatMap (partitionSteps driver s (driver.authEnv s.desired handle)) ++
      if resourcesOnly then [] else [.enclave driver s.desired handle]

/-- What the handler collects. -/
def removalTexts (entries : List (PartitionId × PartitionState)) : List String :=
  match s.enclaveHandle with
  | none => []
  | some handle =>
    let texts := entries.flatMap (partitionTexts o id driver s (driver.authEnv s.desired handle))
    if resourcesOnly then texts
    else collect s!"enclave teardown {id.val}: " texts (o.teardownEnclave driver s.desired handle)

/-- What the reconcile reports. -/
def removalErrors (entries : List (PartitionId × PartitionState)) : List ReportError :=
  match s.enclaveHandle with
  | none => []
  | some handle =>
    entries.flatMap (partitionErrors o id s (driver.authEnv s.desired handle))

/-- Tearing down the enclave itself is called and fails. -/
def EnclaveFails (e : DriverError) : Prop :=
  ∃ handle, s.enclaveHandle = some handle ∧ resourcesOnly = false ∧
    o.teardownEnclave driver s.desired handle = .error e

end

section

variable {o : Outcomes} {id : EnclaveId} {driver : Driver} {s : EnclaveState}
  {resourcesOnly : Bool} {tf : TerraformBackend}

theorem wpE_destroyEnclave (htf : tf.testMode = false) (w : World) :
    Prog.wpE (system o.gives) (destroyEnclave tf id driver s resourcesOnly)
      (fun r w' => ∃ entries, entries.Perm s.partitions.toList ∧
        r = .ok (removalTexts o id driver s resourcesOnly entries) ∧ w'.store = w.store ∧
        w'.teardowns = w.teardowns ++ removalSteps driver s resourcesOnly entries) w := by
  rw [destroyEnclave]
  cases hhandle : s.enclaveHandle with
  | none =>
    refine ⟨_, .refl _, ?_, rfl, ?_⟩
    · rw [removalTexts, hhandle]
    · rw [removalSteps, hhandle, List.append_nil]
  | some handle =>
    simp only
    rw [Prog.wpE_bind, Prog.wpE_monadLift, Prog.wp_perform]
    intro entries _
    have hstep (errors : List String) (entry : PartitionId × PartitionState) :
        Yields o.gives (destroyPartition tf id driver s (driver.authEnv s.desired handle) errors entry)
          (errors ++ partitionTexts o id driver s (driver.authEnv s.desired handle) entry)
          (partitionSteps driver s (driver.authEnv s.desired handle) entry) :=
      yields_destroyPartition htf errors entry
    have hloop := Yields.foldlM hstep entries.val []
    have hrest : Yields o.gives (do
        let errors ← entries.val.foldlM
          (destroyPartition tf id driver s (driver.authEnv s.desired handle)) []
        if resourcesOnly then return errors
        else do
          let destroyed ← perform (.teardownEnclave driver s.desired handle)
          return collect s!"enclave teardown {id.val}: " errors destroyed : Api (List String))
        (removalTexts o id driver s resourcesOnly entries.val)
        (removalSteps driver s resourcesOnly entries.val) := by
      rw [removalTexts, removalSteps, hhandle]
      refine hloop.bind ?_
      cases resourcesOnly with
      | true => exact .pure _
      | false => exact (Yields.perform (c := .teardownEnclave driver s.desired handle)
          (fun _ h => h) fun _ => rfl).bind (.pure _)
    refine Prog.wpE_mono (hrest _) fun r w₁ h => ⟨entries.val, entries.property, h.1, h.2.1, ?_⟩
    rw [h.2.2, system_next, teardowns_next]
    exact congrArg (· ++ _) (List.append_nil _)

/-- How the reconcile's teardown of a removed enclave ends. -/
def RemovalEnd (o : Outcomes) (id : EnclaveId) (driver : Driver) (s : EnclaveState)
    (resourcesOnly : Bool) (w : World) (r : Except ReconcileError (List ReportError))
    (w' : World) : Prop :=
  ∃ entries, entries.Perm s.partitions.toList ∧
    w'.teardowns = w.teardowns ++ removalSteps driver s resourcesOnly entries ∧
      (((∃ e, r = .error e) ∧ w'.store = w.store ∧
        ((∃ e, EnclaveFails o driver s resourcesOnly e) ∨ ∃ e, o.deleteEnclave = .error e)) ∨
      (r = .ok (removalErrors o id driver s entries) ∧ w'.store = w.store.delete id ∧
        (∀ e, ¬EnclaveFails o driver s resourcesOnly e) ∧ o.deleteEnclave = .ok ()))

/-- The resources of a removed enclave whose cloud has a driver. -/
theorem wpE_teardownRemovedEnclave_yields {run : Run} (htf : run.req.tfBackend.testMode = false)
    (hdriver : run.registry.forCloud (run.registry.stateCloud s) = .ok driver) (w : World) :
    Prog.wpE (system o.gives) (teardownRemovedEnclave run id s [])
      (fun r w' => ∃ entries, entries.Perm s.partitions.toList ∧
        w'.teardowns = w.teardowns ++ removalSteps driver s run.req.resourcesOnly entries ∧
        w'.store = w.store ∧
        ((∃ e e', r = .error e ∧ EnclaveFails o driver s run.req.resourcesOnly e') ∨
          (r = .ok (removalErrors o id driver s entries) ∧
            ∀ e, ¬EnclaveFails o driver s run.req.resourcesOnly e))) w := by
  cases hhandle : s.enclaveHandle with
  | none =>
    have hnot : ¬Tearable run.registry s := by
      rintro ⟨_, handle, -, hsome⟩
      rw [hhandle] at hsome
      cases hsome
    rw [teardownRemovedEnclave_of_not_tearable hnot]
    refine ⟨_, .refl _, ?_, rfl, .inr ⟨?_, ?_⟩⟩
    · rw [removalSteps, hhandle, List.append_nil]
    · rw [removalErrors, hhandle]
    · rintro e ⟨handle, hsome, -⟩
      rw [hhandle] at hsome
      cases hsome
  | some handle =>
    rw [teardownRemovedEnclave_of_tearable hdriver hhandle, teardownRemovedResources]
    rw [Prog.wpE_bind, Prog.wpE_monadLift, Prog.wp_perform]
    intro entries _
    rw [Prog.onOk_ok, Prog.wpE_bind]
    have hstep (errors : List ReportError) (entry : PartitionId × PartitionState) :
        Yields o.gives
          (teardownRemovedPartition run id driver s (driver.authEnv s.desired handle) errors entry)
          (errors ++ partitionErrors o id s (driver.authEnv s.desired handle) entry)
          (partitionSteps driver s (driver.authEnv s.desired handle) entry) :=
      yields_teardownRemovedPartition htf errors entry
    have hloop := Yields.foldlM hstep entries.val []
    refine Prog.wpE_mono (hloop _) fun r w₁ h => ?_
    obtain ⟨rfl, hstore, hsteps⟩ := h
    rw [system_next, teardowns_next] at hsteps
    replace hsteps := hsteps.trans (congrArg (· ++ _) (List.append_nil _))
    rw [Prog.onOk_ok, List.nil_append]
    cases honly : run.req.resourcesOnly with
    | true =>
      refine ⟨entries.val, entries.property, ?_, hstore, .inr ⟨?_, ?_⟩⟩
      · rw [hsteps, removalSteps, hhandle]
        exact congrArg (_ ++ ·) (List.append_nil _).symm
      · rw [removalErrors, hhandle]
      · rintro e ⟨_, _, hfull, _⟩
        cases hfull
    | false =>
      rw [if_neg Bool.false_ne_true, Prog.wpE_bind, wpE_orFail, Prog.wp_perform]
      intro r hr
      obtain rfl : r = o.teardownEnclave driver s.desired handle := hr.2
      have hsteps' : (w₁.next (.teardownEnclave driver s.desired handle)
          (o.teardownEnclave driver s.desired handle)).teardowns =
            w.teardowns ++ removalSteps driver s false entries.val := by
        rw [teardowns_next, hsteps, removalSteps, hhandle]
        exact List.append_assoc ..
      cases houtcome : o.teardownEnclave driver s.desired handle with
      | error e =>
        rw [houtcome] at hsteps'
        exact ⟨entries.val, entries.property, hsteps', hstore,
          .inl ⟨_, e, rfl, handle, hhandle, rfl, houtcome⟩⟩
      | ok _ =>
        rw [houtcome] at hsteps'
        refine ⟨entries.val, entries.property, hsteps', hstore, .inr ⟨?_, ?_⟩⟩
        · rw [removalErrors, hhandle]
        · rintro e ⟨handle', hsome, -, hfails⟩
          rw [hhandle] at hsome
          obtain rfl := Option.some.inj hsome
          rw [houtcome] at hfails
          cases hfails

theorem wpE_teardownRemoved_end {run : Run} (htf : run.req.tfBackend.testMode = false)
    (hdriver : run.registry.forCloud (run.registry.stateCloud s) = .ok driver)
    (hrec : run.existing id = some s) (w : World) :
    Prog.wpE (system o.gives) (teardownRemoved run [] id)
      (RemovalEnd o id driver s run.req.resourcesOnly w) w := by
  rw [teardownRemoved, hrec]
  simp only
  rw [Prog.wpE_bind]
  refine Prog.wpE_mono (wpE_teardownRemovedEnclave_yields htf hdriver w) fun r w₁ h => ?_
  obtain ⟨entries, hperm, hsteps, hstore, ⟨e, e', rfl, hfails⟩ | ⟨rfl, hok⟩⟩ := h
  · exact ⟨entries, hperm, hsteps, .inl ⟨⟨e, rfl⟩, hstore, .inl ⟨e', hfails⟩⟩⟩
  rw [Prog.onOk_ok, Prog.wpE_bind, wpE_orFail, Prog.wp_perform]
  intro r hr
  obtain rfl : r = o.deleteEnclave := hr.2
  have hsteps' : (w₁.next (.deleteEnclave id) o.deleteEnclave).teardowns =
      w.teardowns ++ removalSteps driver s run.req.resourcesOnly entries := by
    rw [teardowns_next, hsteps]
    exact List.append_nil _
  have hstore' : (w₁.next (.deleteEnclave id) o.deleteEnclave).store =
      World.nextStore w.store (.deleteEnclave id) o.deleteEnclave := by
    rw [World.next_store, hstore]
  cases hdelete : o.deleteEnclave with
  | error e =>
    rw [hdelete] at hsteps' hstore'
    exact ⟨entries, hperm, hsteps', .inl ⟨⟨_, rfl⟩, hstore', .inr ⟨e, hdelete⟩⟩⟩
  | ok _ =>
    rw [hdelete] at hsteps' hstore'
    exact ⟨entries, hperm, hsteps', .inr ⟨rfl, hstore', hok, hdelete⟩⟩

end

/-! ## After the teardown pass -/

section

variable {A : (c : Call) → Resp c → Prop} {host : Host} {req : ReconcileRequest}
  {registry : DriverRegistry} {desired : List Enclave} {st : Store} {id : EnclaveId} {run : Run}

/-- The later passes leave a removed enclave and its errors alone. -/
theorem wpE_laterPasses (hsafe : StoreSafe A) {ordered : List Enclave}
    (hid : ∀ enc ∈ ordered, id ≠ enc.id) (errors : List ReportError) (w : World) :
    Prog.wpE (system A) (provisionPass run ordered errors >>= wiringPass run ordered)
      (fun r w' => ∃ new, r = .ok (errors ++ new) ∧ (∀ e ∈ new, e.enclaveId ≠ id) ∧
        w'.store.get? id = w.store.get? id ∧ w'.teardowns = w.teardowns) w := by
  let J (errors' : List ReportError) : Prop :=
    ∃ new, errors' = errors ++ new ∧ ∀ e ∈ new, e.enclaveId ≠ id
  have hadds : ∀ errors' errors'' : List ReportError, ∀ enc ∈ ordered, J errors' →
      ReportError.Adds enc.id errors' errors'' → J errors'' := by
    rintro _ _ enc henc ⟨new, rfl, hnew⟩ ⟨more, rfl, hmore⟩
    refine ⟨new ++ more, List.append_assoc .., fun e he => ?_⟩
    rcases List.mem_append.mp he with he | he
    · exact hnew e he
    · exact fun h => hid enc henc (h.symm.trans (hmore e he))
  have hcalls : Prog.CallsE (fun c => c.teardownStep = none) J
      (provisionPass run ordered errors >>= wiringPass run ordered) := by
    refine (Prog.CallsE.foldlM J (fun errors' enc henc h => ?_)
      ⟨[], (List.append_nil _).symm, fun _ h => absurd h List.not_mem_nil⟩).bind
        fun _ h => Prog.CallsE.foldlM J (fun errors' enc henc h => ?_) h
    · exact (provisionEnclave_calls errors').mono (fun c hc => by cases hc <;> rfl)
        fun errors'' h' => hadds errors' errors'' enc henc h h'
    · exact (wireEnclave_calls errors').mono (fun c hc => by cases hc <;> rfl)
        fun errors'' h' => hadds errors' errors'' enc henc h h'
  have hview : Prog.Keeps (system A) (w.SameView id)
      (provisionPass run ordered errors >>= wiringPass run ordered) :=
    (Prog.Keeps.foldlM (fun errors' enc henc =>
      sameView_provisionEnclave (hid enc henc) errors' w) errors).bind fun errors' =>
        Prog.Keeps.foldlM (fun errors' enc henc =>
          sameView_wireEnclave (hid enc henc) errors' w) errors'
  have hsucceeds : Prog.Succeeds (system A)
      (provisionPass run ordered errors >>= wiringPass run ordered) :=
    (succeeds_provisionPass hsafe ordered errors).bind fun _ => succeeds_wiringPass hsafe ordered _
  refine hsucceeds.wpE (Prog.wp_iff.mpr fun r w' hrun errors' hr => ?_)
  have hsteps := hrun.wp (hcalls.wpE (M := system A) (I := fun w' => w'.teardowns = w.teardowns)
    (fun w₁ c r hc _ h => by rw [system_next, teardowns_next, hc, h]; exact List.append_nil _) rfl)
  obtain ⟨new, rfl, hnew⟩ := hsteps.1 errors' hr
  exact ⟨new, rfl, hnew, (hrun.wp (hview (.refl id w))).store, hsteps.2⟩

/-- How a reconcile ends that removes the enclave `id` alone, given how its teardown ends. -/
theorem reconcile_removal (hquiet : QuietSafe A) (hdry : req.dryRun = false)
    {resolved : ResolvedGraph} (hvalid : validate host.topo desired = .ok resolved)
    (honly : ∀ id', (st.get? id').isSome = true ∧ id' ∉ desired.map (·.id) ↔ id' = id)
    {T : Except ReconcileError (List ReportError) → World → Prop}
    (hsafe : ∀ errors w, T (.ok errors) w → StoreSafe A)
    (hteardown : ∀ run w, RunStart host req registry desired (.ofStore st) run resolved [id] →
      w.store = st → w.teardowns = [] → Prog.wpE (system A) (teardownRemoved run [] id) T w)
    {r : Except ReconcileError ReconcileReport} {w' : World}
    (hrun : Prog.Exec (system A) (reconcileLoaded host req registry desired).run
      (.ofStore st) r w') :
    (∃ e w₁, T (.error e) w₁ ∧ r = .error e ∧ w'.store = w₁.store ∧
        w'.teardowns = w₁.teardowns) ∨
      ∃ errors report new w₁, T (.ok errors) w₁ ∧ r = .ok report ∧
        report.errors = errors ++ new ∧ (∀ e ∈ new, e.enclaveId ≠ id) ∧
        w'.store.get? id = w₁.store.get? id ∧ w'.teardowns = w₁.teardowns := by
  let Q (r : Except ReconcileError ReconcileReport) (w' : World) : Prop :=
    (∃ e w₁, T (.error e) w₁ ∧ r = .error e ∧ w'.store = w₁.store ∧
        w'.teardowns = w₁.teardowns) ∨
      ∃ errors report new w₁, T (.ok errors) w₁ ∧ r = .ok report ∧
        report.errors = errors ++ new ∧ (∀ e ∈ new, e.enclaveId ≠ id) ∧
        w'.store.get? id = w₁.store.get? id ∧ w'.teardowns = w₁.teardowns
  refine hrun.wp (Q := Q) (wpE_reconcileLoaded_ordered hdry (fun e he => ?_)
    (fun h => absurd hquiet h) ?_)
  · rw [hvalid] at he
    cases he
  intro run resolved' removed w₁ hstart _ hw₁
  obtain rfl : resolved' = resolved := by
    have h := hstart.valid
    rw [hvalid] at h
    exact (Except.ok.inj h).symm
  have hmem (id' : EnclaveId) : id' ∈ removed ↔ id' = id := (hstart.mem_removed id').trans (honly id')
  obtain rfl : removed = [id] := by
    refine (List.perm_singleton.mp ?_)
    refine (List.perm_ext_iff_of_nodup hstart.nodup_removed (List.nodup_singleton id)).mpr ?_
    exact fun id' => (hmem id').trans List.mem_singleton.symm
  have hdesired : ∀ enc ∈ orderedDesired resolved' desired, id ≠ enc.id := by
    rintro enc henc rfl
    exact ((honly enc.id).mpr rfl).2 (List.mem_map_of_mem (mem_of_mem_orderedDesired henc))
  refine wpE_applyPasses_quiet (fun h => absurd hquiet h) fun w₂ hw₂ => ?_
  rw [passes, teardownPass, List.foldlM_cons, Prog.wpE_bind, Prog.wpE_bind]
  have hstarts : (World.ofStore st).Quiet w₂ := hw₁.trans hw₂
  refine Prog.wpE_mono (hteardown run w₂ hstart hstarts.store (teardowns_quiet hstarts))
    fun r w₃ hT => ?_
  cases r with
  | error e =>
    exact fun w₄ hw₄ => ⟨.inl ⟨e, w₃, hT, rfl, hw₄.store, teardowns_quiet hw₄⟩,
      fun h => absurd hquiet h⟩
  | ok errors =>
    show Prog.wpE (system A) (provisionPass run (orderedDesired resolved' desired) errors >>=
      wiringPass run (orderedDesired resolved' desired)) _ w₃
    refine Prog.wpE_mono (wpE_laterPasses (hsafe errors w₃ hT) hdesired errors w₃)
      fun r w₄ h w₅ hw₅ => ⟨?_, fun h => absurd hquiet h⟩
    obtain ⟨new, rfl, hnew, hstore, hsteps⟩ := h
    exact .inr ⟨errors, _, new, w₃, hT, rfl, rfl, hnew, by rw [hw₅.store, hstore],
      (teardowns_quiet hw₅).trans hsteps⟩

end

/-! ## What is reported -/

/-- The labels of the handler's other errors. -/
def cleanupLabel (id : EnclaveId) (pid : PartitionId) : String :=
  s!"SA cleanup {id.val}/{pid.val}: "

def enclaveLabel (id : EnclaveId) : String := s!"enclave teardown {id.val}: "

/-- The entry is about the partition. -/
def ReportError.Names (id : EnclaveId) (pid : PartitionId) : ReportError → Prop
  | .teardown id' pid' _ => id' = id ∧ pid' = pid
  | .partition id' pid' _ => id' = id ∧ pid' = pid
  | _ => False

theorem ReportError.Names.enclaveId {id : EnclaveId} {pid : PartitionId} {err : ReportError}
    (h : err.Names id pid) : err.enclaveId = id := by
  cases err with
  | teardown => exact h.1
  | partition => exact h.1
  | _ => exact h.elim

section

variable (o : Outcomes) (registry : DriverRegistry) (id : EnclaveId) (s : EnclaveState)

/-- Destroying the partition is called and fails. -/
def DestroyFails (entry : PartitionId × PartitionState) (e : DriverError) : Prop :=
  ∃ driver handle, registry.forCloud (registry.stateCloud s) = .ok driver ∧
    s.enclaveHandle = some handle ∧
    o.tfTeardown s.desired entry.2.desired (driver.authEnv s.desired handle) = .error e

/-- Cleaning up the identity of the partition is called and fails. -/
def CleanupFails (entry : PartitionId × PartitionState) (e : DriverError) : Prop :=
  ∃ driver handle partHandle, registry.forCloud (registry.stateCloud s) = .ok driver ∧
    s.enclaveHandle = some handle ∧ entry.2.partitionHandle = some partHandle ∧
    o.teardownPartition driver s.desired entry.2.desired partHandle = .error e

/-- The handler's answer has the text of a failure of the partition. -/
def HandlerReports (r : Except ApiError DestroyReport) (entry : PartitionId × PartitionState) :
    Prop :=
  ∃ report e, r = .ok report ∧
    ((DestroyFails o registry s entry e ∧ errorText (teardownLabel id entry.1) e ∈ report.errors) ∨
      (CleanupFails o registry s entry e ∧ errorText (cleanupLabel id entry.1) e ∈ report.errors))

/-- The handler fails, or its answer has the text of the failure of the enclave. -/
def HandlerFails (resourcesOnly : Bool) (r : Except ApiError DestroyReport) : Prop :=
  (∃ e, r = .error e) ∨ ∃ report driver e, r = .ok report ∧
    registry.forCloud (registry.stateCloud s) = .ok driver ∧
    EnclaveFails o driver s resourcesOnly e ∧ errorText (enclaveLabel id) e ∈ report.errors

end

/-- The report has an error that names the partition. -/
def ReconcileReports (id : EnclaveId) (pid : PartitionId)
    (r : Except ReconcileError ReconcileReport) : Prop :=
  ∃ report, r = .ok report ∧ ∃ err ∈ report.errors, err.Names id pid

/-- The reconcile fails, or its report has an error that names the enclave alone. -/
def ReconcileFails (id : EnclaveId) (r : Except ReconcileError ReconcileReport) : Prop :=
  (∃ e, r = .error e) ∨ ∃ report msg, r = .ok report ∧ .enclave id msg ∈ report.errors

/-- A deletion and a reconcile that removes the same enclave come to the same. -/
structure SameRemoval (o : Outcomes) (registry : DriverRegistry) (id : EnclaveId)
    (s : EnclaveState) (resourcesOnly : Bool) (r : Except ApiError DestroyReport) (w : World)
    (r' : Except ReconcileError ReconcileReport) (w' : World) : Prop where
  steps : SameSteps w.teardowns w'.teardowns
  deleted : w.store.get? id = none ↔ w'.store.get? id = none
  enclave : HandlerFails o registry id s resourcesOnly r ↔ ReconcileFails id r'
  partitions : ∀ entry ∈ s.partitions.toList,
    HandlerReports o registry id s r entry ↔ ReconcileReports id entry.1 r'

/-- Where the two requests come to the same: the record cannot be deleted, or its cloud has a
driver, tearing down the enclave does not fail, and no identity fails to be cleaned up whose
partition was destroyed. -/
def RemovalsAgree (o : Outcomes) (registry : DriverRegistry) (s : EnclaveState)
    (resourcesOnly : Bool) : Prop :=
  (∃ e, o.deleteEnclave = .error e) ∨
    ∃ driver, registry.forCloud (registry.stateCloud s) = .ok driver ∧
      (∀ e, ¬EnclaveFails o driver s resourcesOnly e) ∧
      ∀ entry ∈ s.partitions.toList, (∃ e, CleanupFails o registry s entry e) →
        ∃ e, DestroyFails o registry s entry e

section

variable {o : Outcomes} {registry : DriverRegistry} {id : EnclaveId} {driver : Driver}
  {s : EnclaveState} {resourcesOnly : Bool}

theorem partitionSteps_part (authEnv : HashMap String String)
    (entry : PartitionId × PartitionState) :
    ∀ step ∈ partitionSteps driver s authEnv entry, step.part = some entry.2.desired := by
  rw [partitionSteps]
  refine List.forall_mem_cons.mpr ⟨rfl, ?_⟩
  cases entry.2.partitionHandle with
  | none => exact fun _ h => absurd h List.not_mem_nil
  | some handle => exact List.forall_mem_singleton.mpr rfl

theorem sameSteps_removal {entries entries' : List (PartitionId × PartitionState)}
    (h : entries.Perm entries') :
    SameSteps (removalSteps driver s resourcesOnly entries)
      (removalSteps driver s resourcesOnly entries') := by
  rw [removalSteps, removalSteps]
  cases s.enclaveHandle with
  | none => exact ⟨[], [], [], rfl, rfl, .refl _, fun _ h => absurd h List.not_mem_nil,
      fun _ h => absurd h List.not_mem_nil⟩
  | some handle =>
    refine ⟨_, _, _, congrArg (· ++ _) List.flatMap_def, congrArg (· ++ _) List.flatMap_def,
      h.map _, ?_, ?_⟩
    · intro block hblock
      obtain ⟨entry, -, rfl⟩ := List.mem_map.mp hblock
      exact ⟨_, partitionSteps_part _ entry⟩
    · cases resourcesOnly with
      | true => exact fun _ h => absurd h List.not_mem_nil
      | false => exact List.forall_mem_singleton.mpr rfl

/-- A failure of a partition is collected. -/
theorem handlerReports_iff (hdriver : registry.forCloud (registry.stateCloud s) = .ok driver)
    {entries : List (PartitionId × PartitionState)} {entry : PartitionId × PartitionState}
    (hentry : entry ∈ entries) {report : DestroyReport}
    (hreport : report.errors = removalTexts o id driver s resourcesOnly entries) :
    HandlerReports o registry id s (.ok report) entry ↔
      (∃ e, DestroyFails o registry s entry e) ∨ ∃ e, CleanupFails o registry s entry e := by
  have hmem {handle : Handle} (hhandle : s.enclaveHandle = some handle) {text : String}
      (htext : text ∈ partitionTexts o id driver s (driver.authEnv s.desired handle) entry) :
      text ∈ report.errors := by
    have hloop : text ∈ entries.flatMap
        (partitionTexts o id driver s (driver.authEnv s.desired handle)) :=
      List.mem_flatMap.mpr ⟨entry, hentry, htext⟩
    rw [hreport, removalTexts, hhandle]
    cases resourcesOnly with
    | true => exact hloop
    | false => exact mem_collect_iff.mpr (.inl hloop)
  constructor
  · rintro ⟨report, e, -, ⟨h, -⟩ | ⟨h, -⟩⟩
    · exact .inl ⟨e, h⟩
    · exact .inr ⟨e, h⟩
  · rintro (⟨e, hfails⟩ | ⟨e, hfails⟩)
    · have hfails' := hfails
      obtain ⟨driver', handle, hdriver', hhandle, he⟩ := hfails
      rw [hdriver] at hdriver'
      obtain rfl := Except.ok.inj hdriver'
      refine ⟨report, e, rfl, .inl ⟨hfails', hmem hhandle ?_⟩⟩
      have hdestroyed : errorText (teardownLabel id entry.1) e ∈ collect (teardownLabel id entry.1) []
          (o.tfTeardown s.desired entry.2.desired (driver.authEnv s.desired handle)) :=
        mem_collect he
      rw [partitionTexts]
      cases entry.2.partitionHandle with
      | none => exact hdestroyed
      | some partHandle => exact mem_collect_iff.mpr (.inl hdestroyed)
    · have hfails' := hfails
      obtain ⟨driver', handle, partHandle, hdriver', hhandle, hpart, he⟩ := hfails
      rw [hdriver] at hdriver'
      obtain rfl := Except.ok.inj hdriver'
      refine ⟨report, e, rfl, .inr ⟨hfails', hmem hhandle ?_⟩⟩
      rw [partitionTexts, hpart]
      exact mem_collect he

/-- What the reconcile reports of the enclave is that partitions could not be destroyed. -/
theorem of_mem_removalErrors {entries : List (PartitionId × PartitionState)} {err : ReportError}
    (h : err ∈ removalErrors o id driver s entries) :
    ∃ handle, s.enclaveHandle = some handle ∧ ∃ entry ∈ entries, ∃ e,
      o.tfTeardown s.desired entry.2.desired (driver.authEnv s.desired handle) = .error e ∧
        err = .teardown id entry.1 e := by
  rw [removalErrors] at h
  cases hhandle : s.enclaveHandle with
  | none =>
    rw [hhandle] at h
    exact absurd h List.not_mem_nil
  | some handle =>
    rw [hhandle] at h
    obtain ⟨entry, hentry, h⟩ := List.mem_flatMap.mp h
    rw [partitionErrors] at h
    cases he : o.tfTeardown s.desired entry.2.desired (driver.authEnv s.desired handle) with
    | ok _ =>
      rw [he] at h
      exact absurd h List.not_mem_nil
    | error e =>
      rw [he] at h
      exact ⟨handle, rfl, entry, hentry, e, he, List.mem_singleton.mp h⟩

/-- The reconcile reports a partition that could not be destroyed, and no other. -/
theorem reconcileReports_iff (hdriver : registry.forCloud (registry.stateCloud s) = .ok driver)
    {entries : List (PartitionId × PartitionState)} (hperm : entries.Perm s.partitions.toList)
    {entry : PartitionId × PartitionState} (hentry : entry ∈ s.partitions.toList)
    {report : ReconcileReport} {new : List ReportError}
    (hreport : report.errors = removalErrors o id driver s entries ++ new)
    (hnew : ∀ e ∈ new, e.enclaveId ≠ id) :
    ReconcileReports id entry.1 (.ok report) ↔ ∃ e, DestroyFails o registry s entry e := by
  constructor
  · rintro ⟨report, ⟨⟩, err, herr, hnames⟩
    rw [hreport] at herr
    have herr := (List.mem_append.mp herr).resolve_right fun h => hnew err h hnames.enclaveId
    obtain ⟨handle, hhandle, entry', hentry', e, he, rfl⟩ := of_mem_removalErrors herr
    have hvalue := Std.ExtTreeMap.mem_toList_iff_getElem?_eq_some.mp hentry
    have hvalue' := Std.ExtTreeMap.mem_toList_iff_getElem?_eq_some.mp (hperm.mem_iff.mp hentry')
    rw [hnames.2, hvalue] at hvalue'
    refine ⟨e, driver, handle, hdriver, hhandle, ?_⟩
    rw [Option.some.inj hvalue']
    exact he
  · rintro ⟨e, driver', handle, hdriver', hhandle, he⟩
    rw [hdriver] at hdriver'
    obtain rfl := Except.ok.inj hdriver'
    refine ⟨report, rfl, .teardown id entry.1 e, ?_, rfl, rfl⟩
    rw [hreport, removalErrors, hhandle]
    refine List.mem_append_left _ (List.mem_flatMap.mpr ⟨entry, hperm.mem_iff.mpr hentry, ?_⟩)
    rw [partitionErrors, he]
    exact List.mem_singleton_self _

end

/-! ## The two requests -/

section

variable {o : Outcomes} {host : Host} {req : ReconcileRequest} {state : AppState}
  {desired : List Enclave} {st : Store} {id : EnclaveId} {driver : Driver} {s : EnclaveState}
  {resourcesOnly : Bool}

theorem quietSafe_gives (o : Outcomes) : QuietSafe o.gives := by
  intro c r hr hstore hquiet
  cases c <;> first | (cases hstore; done) | (cases hquiet; done) | exact hr hstore

theorem storeSafe_gives (hdelete : o.deleteEnclave = .ok ()) : StoreSafe o.gives := by
  intro c r hr hstore
  cases c with
  | deleteEnclave id =>
    obtain rfl : r = o.deleteEnclave := hr
    rw [hdelete]
    rfl
  | _ => first | exact hr hstore | cases hstore

theorem exists_answer_gives (o : Outcomes) (w : World) (c : Call) :
    ∃ r, answers w c r ∧ o.gives c r := by
  cases c with
  | tfTeardown tf enc part authEnv runId =>
    cases htf : tf.testMode with
    | true => exact ⟨.ok (), fun _ => rfl, fun h => absurd (htf.symm.trans h) (by decide)⟩
    | false => exact ⟨o.tfTeardown enc part authEnv,
        fun h => absurd (htf.symm.trans h) (by decide), fun _ => rfl⟩
  | teardownPartition => exact ⟨_, trivial, rfl⟩
  | teardownEnclave => exact ⟨_, trivial, rfl⟩
  | deleteEnclave => exact ⟨_, trivial, rfl⟩
  | _ =>
    obtain ⟨r, hr, hok⟩ := exists_answer_ok w _
    exact ⟨r, hr, storeOk_of_allOk _ r hok⟩

/-- How the deletion of a record ends whose cloud has a driver. -/
def DeletionEnd (o : Outcomes) (id : EnclaveId) (driver : Driver) (s : EnclaveState)
    (resourcesOnly : Bool) (st : Store) (r : Except ApiError DestroyReport) (w : World) : Prop :=
  ∃ entries, entries.Perm s.partitions.toList ∧
    w.teardowns = removalSteps driver s resourcesOnly entries ∧
      (((∃ e, o.deleteEnclave = .error e) ∧ (∃ e, r = .error e) ∧ w.store = st) ∨
        (o.deleteEnclave = .ok () ∧ w.store = st.delete id ∧ ∃ report, r = .ok report ∧
          report.errors = removalTexts o id driver s resourcesOnly entries))

/-- The deletion fails before it calls anything but the store. -/
def DeletionRefused (st : Store) (r : Except ApiError DestroyReport) (w : World) : Prop :=
  (∃ e, r = .error e) ∧ w.store = st ∧ w.teardowns = []

/-- Past its lookup the deletion of a stored record goes on with the record. -/
theorem wpE_deleteEnclave (hstored : st.get? id = some s)
    {Q : Except ApiError DestroyReport → World → Prop}
    (hrest : ∀ w, (World.ofStore st).Quiet w → Prog.wpE (system o.gives) (do
      let driver ← state.driverOf s
      let errors ← destroyEnclave state.tfBackend id driver s resourcesOnly
      apiStoreCall (perform (.deleteEnclave id))
      return { destroyed := id.val, errors, remainingResources := [] }) Q w) :
    Prog.wpE (system o.gives) (deleteEnclave state id resourcesOnly) Q (.ofStore st) := by
  rw [deleteEnclave, Prog.wpE_bind, wpE_apiStoreCall, Prog.wp_perform]
  rintro (e | stored) hr
  · cases hr.2 rfl
  obtain rfl : stored = some s := hr.1.trans hstored
  exact hrest _ ((World.Quiet.refl _).next (c := .getEnclave id) rfl _)

/-- The deletion of a record whose cloud has a driver. -/
theorem deleteEnclave_ends (hstored : st.get? id = some s)
    (hdriver : state.registry.forCloud (state.registry.stateCloud s) = .ok driver)
    {r : Except ApiError DestroyReport} {w : World}
    (hrun : Prog.Exec (system o.gives) (deleteEnclave state id resourcesOnly).run
      (.ofStore st) r w) :
    DeletionEnd o id driver s resourcesOnly st r w := by
  refine hrun.wp (Q := DeletionEnd o id driver s resourcesOnly st) (wpE_deleteEnclave hstored fun w₁ hw₁ => ?_)
  rw [Prog.wpE_bind, AppState.driverOf, hdriver]
  simp only
  rw [Prog.wpE_pure, Prog.onOk_ok, Prog.wpE_bind]
  refine Prog.wpE_mono (wpE_destroyEnclave rfl _) fun r w₂ h => ?_
  obtain ⟨entries, hperm, rfl, hstore, hsteps⟩ := h
  rw [Prog.onOk_ok, Prog.wpE_bind, wpE_apiStoreCall, Prog.wp_perform]
  intro r hr
  obtain rfl : r = o.deleteEnclave := hr.2
  have hsteps' : (w₂.next (.deleteEnclave id) o.deleteEnclave).teardowns =
      removalSteps driver s resourcesOnly entries := by
    rw [teardowns_next, hsteps, teardowns_quiet hw₁]
    exact List.append_nil _
  have hstore' : (w₂.next (.deleteEnclave id) o.deleteEnclave).store =
      World.nextStore st (.deleteEnclave id) o.deleteEnclave := by
    rw [World.next_store, hstore, hw₁.store]
    rfl
  cases hdelete : o.deleteEnclave with
  | error e =>
    rw [hdelete] at hsteps' hstore'
    exact ⟨entries, hperm, hsteps', .inl ⟨⟨e, hdelete⟩, ⟨_, rfl⟩, hstore'⟩⟩
  | ok _ =>
    rw [hdelete] at hsteps' hstore'
    exact ⟨entries, hperm, hsteps', .inr ⟨hdelete, hstore', _, rfl, rfl⟩⟩

/-- Without a driver for its cloud the deletion of a record is refused. -/
theorem deleteEnclave_refuses (hstored : st.get? id = some s)
    (hdriver : ∀ driver, state.registry.forCloud (state.registry.stateCloud s) ≠ .ok driver)
    {r : Except ApiError DestroyReport} {w : World}
    (hrun : Prog.Exec (system o.gives) (deleteEnclave state id resourcesOnly).run
      (.ofStore st) r w) :
    DeletionRefused st r w := by
  refine hrun.wp (Q := DeletionRefused st) (wpE_deleteEnclave hstored fun w₁ hw₁ => ?_)
  rw [Prog.wpE_bind, AppState.driverOf]
  cases hcloud : state.registry.forCloud (state.registry.stateCloud s) with
  | ok driver => exact absurd hcloud (hdriver driver)
  | error e => exact ⟨⟨_, rfl⟩, hw₁.store, teardowns_quiet hw₁⟩

/-- How a reconcile ends that removes a record whose cloud has a driver. -/
def ReconcileEnd (o : Outcomes) (id : EnclaveId) (driver : Driver) (s : EnclaveState)
    (resourcesOnly : Bool) (r : Except ReconcileError ReconcileReport) (w : World) : Prop :=
  ∃ entries, entries.Perm s.partitions.toList ∧
    w.teardowns = removalSteps driver s resourcesOnly entries ∧
      (((∃ e, r = .error e) ∧ w.store.get? id = some s ∧
        ((∃ e, EnclaveFails o driver s resourcesOnly e) ∨ ∃ e, o.deleteEnclave = .error e)) ∨
      ((∀ e, ¬EnclaveFails o driver s resourcesOnly e) ∧ o.deleteEnclave = .ok () ∧
        w.store.get? id = none ∧ ∃ report new, r = .ok report ∧
          report.errors = removalErrors o id driver s entries ++ new ∧
            ∀ e ∈ new, e.enclaveId ≠ id))

theorem reconcile_ends (htf : req.testMode = false) (hdry : req.dryRun = false)
    {resolved : ResolvedGraph} (hvalid : validate host.topo desired = .ok resolved)
    (hstored : st.get? id = some s)
    (honly : ∀ id', (st.get? id').isSome = true ∧ id' ∉ desired.map (·.id) ↔ id' = id)
    (hdriver : state.registry.forCloud (state.registry.stateCloud s) = .ok driver)
    {r : Except ReconcileError ReconcileReport} {w' : World}
    (hrun : Prog.Exec (system o.gives) (reconcileLoaded host req state.registry desired).run
      (.ofStore st) r w') :
    ReconcileEnd o id driver s req.resourcesOnly r w' := by
  have hends := reconcile_removal (T := RemovalEnd o id driver s req.resourcesOnly (.ofStore st))
    (quietSafe_gives o) hdry hvalid honly ?_ ?_ hrun
  · rcases hends with ⟨e, w₁, ⟨entries, hperm, hsteps, hend⟩, rfl, hstore, hsteps'⟩ |
      ⟨errors, report, new, w₁, ⟨entries, hperm, hsteps, hend⟩, rfl, hreport, hnew, hstore, hsteps'⟩
    · rcases hend with ⟨-, hsame, hfails⟩ | ⟨h, -⟩
      · refine ⟨entries, hperm, hsteps'.trans hsteps, .inl ⟨⟨e, rfl⟩, ?_, hfails⟩⟩
        rw [hstore, hsame]
        exact hstored
      · cases h
    · rcases hend with ⟨⟨e, h⟩, -⟩ | ⟨h, hdeleted, hok, hdelete⟩
      · cases h
      · obtain rfl := Except.ok.inj h
        refine ⟨entries, hperm, hsteps'.trans hsteps,
          .inr ⟨hok, hdelete, ?_, report, new, rfl, hreport, hnew⟩⟩
        rw [hstore, hdeleted, Store.get?_delete, if_pos rfl]
  · rintro errors w ⟨entries, -, -, ⟨⟨e, h⟩, -⟩ | ⟨-, -, -, hdelete⟩⟩
    · cases h
    · exact storeSafe_gives hdelete
  · intro run w hstart hstore hsteps
    have hend : Prog.wpE (system o.gives) (teardownRemoved run [] id)
        (RemovalEnd o id driver s run.req.resourcesOnly w) w :=
      wpE_teardownRemoved_end (by rw [hstart.req_eq]; exact htf)
        (by rw [hstart.registry_eq]; exact hdriver) ((hstart.existing id).trans hstored) w
    rw [hstart.req_eq] at hend
    refine Prog.wpE_mono hend fun r w₁ h => ?_
    obtain ⟨entries, hperm, hsteps', h⟩ := h
    rw [hstore] at h
    rw [hsteps] at hsteps'
    exact ⟨entries, hperm, hsteps', h⟩

/-- Without a driver for its cloud a reconcile drops the record. -/
def ReconcileDrops (o : Outcomes) (id : EnclaveId) (s : EnclaveState)
    (r : Except ReconcileError ReconcileReport) (w : World) : Prop :=
  w.teardowns = [] ∧
    (((∃ e, r = .error e) ∧ w.store.get? id = some s ∧ ∃ e, o.deleteEnclave = .error e) ∨
      (o.deleteEnclave = .ok () ∧ w.store.get? id = none))

theorem reconcile_drops (hdry : req.dryRun = false)
    {resolved : ResolvedGraph} (hvalid : validate host.topo desired = .ok resolved)
    (hstored : st.get? id = some s)
    (honly : ∀ id', (st.get? id').isSome = true ∧ id' ∉ desired.map (·.id) ↔ id' = id)
    (hdriver : ∀ driver, state.registry.forCloud (state.registry.stateCloud s) ≠ .ok driver)
    {r : Except ReconcileError ReconcileReport} {w' : World}
    (hrun : Prog.Exec (system o.gives) (reconcileLoaded host req state.registry desired).run
      (.ofStore st) r w') :
    ReconcileDrops o id s r w' := by
  let T (r : Except ReconcileError (List ReportError)) (w : World) : Prop :=
    w.teardowns = [] ∧
      (((∃ e, r = .error e) ∧ w.store = st ∧ ∃ e, o.deleteEnclave = .error e) ∨
        (r = .ok [] ∧ o.deleteEnclave = .ok () ∧ w.store = st.delete id))
  have hends := reconcile_removal (T := T) (quietSafe_gives o) hdry hvalid honly ?_ ?_ hrun
  · rcases hends with ⟨e, w₁, ⟨hsteps, hend⟩, rfl, hstore, hsteps'⟩ |
      ⟨errors, report, new, w₁, ⟨hsteps, hend⟩, rfl, -, -, hstore, hsteps'⟩
    · rcases hend with ⟨-, hsame, hfails⟩ | ⟨h, -⟩
      · refine ⟨hsteps'.trans hsteps, .inl ⟨⟨e, rfl⟩, ?_, hfails⟩⟩
        rw [hstore, hsame]
        exact hstored
      · cases h
    · rcases hend with ⟨⟨e, h⟩, -⟩ | ⟨-, hdelete, hdeleted⟩
      · cases h
      · refine ⟨hsteps'.trans hsteps, .inr ⟨hdelete, ?_⟩⟩
        rw [hstore, hdeleted, Store.get?_delete, if_pos rfl]
  · rintro errors w ⟨-, ⟨⟨e, h⟩, -⟩ | ⟨-, hdelete, -⟩⟩
    · cases h
    · exact storeSafe_gives hdelete
  · intro run w hstart hstore hsteps
    have hnot : ¬Tearable run.registry s := by
      rintro ⟨driver, _, h, -⟩
      rw [hstart.registry_eq] at h
      exact hdriver driver h
    have hrec : run.existing id = some s := (hstart.existing id).trans hstored
    rw [teardownRemoved, hrec]
    simp only
    rw [teardownRemovedEnclave_of_not_tearable hnot, Prog.wpE_bind, Prog.wpE_pure, Prog.onOk_ok,
      Prog.wpE_bind, wpE_orFail, Prog.wp_perform]
    intro r hr
    obtain rfl : r = o.deleteEnclave := hr.2
    have hsteps' : (w.next (.deleteEnclave id) o.deleteEnclave).teardowns = [] := by
      rw [teardowns_next, hsteps]
      rfl
    have hstore' : (w.next (.deleteEnclave id) o.deleteEnclave).store =
        World.nextStore st (.deleteEnclave id) o.deleteEnclave := by
      rw [World.next_store, hstore]
    cases hdelete : o.deleteEnclave with
    | error e =>
      rw [hdelete] at hsteps' hstore'
      exact ⟨hsteps', .inl ⟨⟨_, rfl⟩, hstore', e, hdelete⟩⟩
    | ok _ =>
      rw [hdelete] at hsteps' hstore'
      exact ⟨hsteps', .inr ⟨rfl, hdelete, hstore'⟩⟩

theorem SameRemoval.of_errors {registry : DriverRegistry} {r : Except ApiError DestroyReport}
    {w : World} {r' : Except ReconcileError ReconcileReport} {w' : World}
    (hsteps : SameSteps w.teardowns w'.teardowns) (hr : ∃ e, r = .error e) (hr' : ∃ e, r' = .error e)
    (hstore : w.store.get? id = some s) (hstore' : w'.store.get? id = some s) :
    SameRemoval o registry id s resourcesOnly r w r' w' := by
  obtain ⟨e, rfl⟩ := hr
  obtain ⟨e', rfl⟩ := hr'
  refine ⟨hsteps, by rw [hstore, hstore'], iff_of_true (.inl ⟨e, rfl⟩) (.inl ⟨e', rfl⟩),
    fun entry _ => iff_of_false ?_ ?_⟩
  · rintro ⟨_, _, ⟨⟩, -⟩
  · rintro ⟨_, ⟨⟩, -⟩

theorem sameSteps_nil : SameSteps [] [] :=
  ⟨[], [], [], rfl, rfl, .refl _, fun _ h => absurd h List.not_mem_nil,
    fun _ h => absurd h List.not_mem_nil⟩

/-- Every deletion and every reconcile without the enclave come to the same. -/
def RemovesAlike (o : Outcomes) (host : Host) (req : ReconcileRequest) (state : AppState)
    (desired : List Enclave) (st : Store) (id : EnclaveId) (s : EnclaveState) : Prop :=
  ∀ r w r' w',
    Prog.Exec (system o.gives) (deleteEnclave state id req.resourcesOnly).run (.ofStore st) r w →
    Prog.Exec (system o.gives) (reconcileLoaded host req state.registry desired).run
      (.ofStore st) r' w' →
    SameRemoval o state.registry id s req.resourcesOnly r w r' w'

/-- Requests that come to the same do so under the condition. -/
theorem RemovesAlike.agree (htest : req.testMode = false) (hdry : req.dryRun = false)
    {resolved : ResolvedGraph} (hvalid : validate host.topo desired = .ok resolved)
    (hstored : st.get? id = some s)
    (honly : ∀ id', (st.get? id').isSome = true ∧ id' ∉ desired.map (·.id) ↔ id' = id)
    (hsame : RemovesAlike o host req state desired st id s) :
    RemovalsAgree o state.registry s req.resourcesOnly := by
  obtain ⟨r, w, hrun⟩ := Prog.exists_exec (M := system o.gives) (exists_answer_gives o)
    (deleteEnclave state id req.resourcesOnly).run (.ofStore st)
  obtain ⟨r', w', hrun'⟩ := Prog.exists_exec (M := system o.gives) (exists_answer_gives o)
    (reconcileLoaded host req state.registry desired).run (.ofStore st)
  obtain ⟨-, hdeleted, -, hparts⟩ := hsame r w r' w' hrun hrun'
  cases hdelete : o.deleteEnclave with
  | error e => exact .inl ⟨e, hdelete⟩
  | ok _ =>
    have hok (e : StoreError) : o.deleteEnclave ≠ .error e := by
      rw [hdelete]
      rintro ⟨⟩
    by_cases hdriver : ∃ driver,
        state.registry.forCloud (state.registry.stateCloud s) = .ok driver
    · obtain ⟨driver, hdriver⟩ := hdriver
      obtain ⟨entries, hperm, -, ⟨⟨e, he⟩, -⟩ | ⟨-, hgone, report, rfl, hreport⟩⟩ :=
        deleteEnclave_ends hstored hdriver hrun
      · exact absurd he (hok e)
      have hgone' : w'.store.get? id = none :=
        hdeleted.mp (by rw [hgone, Store.get?_delete, if_pos rfl])
      obtain ⟨entries', hperm', -, ⟨-, hkept, -⟩ |
          ⟨hfails, -, -, report', new, rfl, hreport', hnew⟩⟩ :=
        reconcile_ends htest hdry hvalid hstored honly hdriver hrun'
      · rw [hgone'] at hkept
        cases hkept
      refine .inr ⟨driver, hdriver, hfails, fun entry hentry hcleanup => ?_⟩
      have hhandler := (handlerReports_iff hdriver (hperm.mem_iff.mpr hentry) hreport).mpr
        (.inr hcleanup)
      exact (reconcileReports_iff hdriver hperm' hentry hreport' hnew).mp
        ((hparts entry hentry).mp hhandler)
    · have hnone (driver : Driver) :
          state.registry.forCloud (state.registry.stateCloud s) ≠ .ok driver :=
        fun h => hdriver ⟨driver, h⟩
      obtain ⟨-, hkept, -⟩ := deleteEnclave_refuses hstored hnone hrun
      rcases reconcile_drops hdry hvalid hstored honly hnone hrun' with
        ⟨-, ⟨-, -, e, he⟩ | ⟨-, hgone⟩⟩
      · exact absurd he (hok e)
      · have hkept' := hdeleted.mpr hgone
        rw [hkept, hstored] at hkept'
        cases hkept'

/-- Deleting an enclave and leaving it out of the configuration come to the same iff the record
cannot be deleted, or the enclave has a driver that tears it down, and cleans up where Terraform
destroys. -/
theorem same_removal_iff (htf : req.tfBackend = state.tfBackend) (hdry : req.dryRun = false)
    {resolved : ResolvedGraph} (hvalid : validate host.topo desired = .ok resolved)
    (hstored : st.get? id = some s)
    (honly : ∀ id', (st.get? id').isSome = true ∧ id' ∉ desired.map (·.id) ↔ id' = id) :
    RemovesAlike o host req state desired st id s ↔
      RemovalsAgree o state.registry s req.resourcesOnly := by
  have htest : req.testMode = false := congrArg TerraformBackend.testMode htf
  constructor
  · exact RemovesAlike.agree htest hdry hvalid hstored honly
  · intro hagree r w r' w' hrun hrun'
    by_cases hdriver : ∃ driver,
        state.registry.forCloud (state.registry.stateCloud s) = .ok driver
    · obtain ⟨driver, hdriver⟩ := hdriver
      obtain ⟨entries, hperm, hsteps, hend⟩ := deleteEnclave_ends hstored hdriver hrun
      obtain ⟨entries', hperm', hsteps', hend'⟩ :=
        reconcile_ends htest hdry hvalid hstored honly hdriver hrun'
      have hsame : SameSteps w.teardowns w'.teardowns := by
        rw [hsteps, hsteps']
        exact sameSteps_removal (hperm.trans hperm'.symm)
      rcases hend with ⟨⟨e, he⟩, hr, hkept⟩ | ⟨hdelete, hgone, report, rfl, hreport⟩
      · rcases hend' with ⟨hr', hkept', -⟩ | ⟨-, hdelete, -⟩
        · exact .of_errors hsame hr hr' (by rw [hkept, hstored]) hkept'
        · rw [he] at hdelete
          cases hdelete
      obtain ⟨driver', hdriver', hfails, hclean⟩ := hagree.resolve_left fun ⟨e, he⟩ => by
        rw [hdelete] at he
        cases he
      rw [hdriver] at hdriver'
      obtain rfl := Except.ok.inj hdriver'
      rcases hend' with ⟨-, -, ⟨e, he⟩ | ⟨e, he⟩⟩ |
        ⟨-, -, hgone', report', new, rfl, hreport', hnew⟩
      · exact absurd he (hfails e)
      · rw [hdelete] at he
        cases he
      refine ⟨hsame, iff_of_true ?_ hgone', iff_of_false ?_ ?_, fun entry hentry => ?_⟩
      · rw [hgone, Store.get?_delete, if_pos rfl]
      · rintro (⟨e, h⟩ | ⟨_, driver', e, -, hdriver', he, -⟩)
        · cases h
        · rw [hdriver] at hdriver'
          obtain rfl := Except.ok.inj hdriver'
          exact hfails e he
      · rintro (⟨e, h⟩ | ⟨_, msg, ⟨⟩, h⟩)
        · cases h
        · rw [hreport'] at h
          have h := (List.mem_append.mp h).resolve_right fun h => hnew _ h rfl
          obtain ⟨_, _, _, _, _, _, heq⟩ := of_mem_removalErrors h
          cases heq
      · rw [handlerReports_iff hdriver (hperm.mem_iff.mpr hentry) hreport,
          reconcileReports_iff hdriver hperm' hentry hreport' hnew]
        exact or_iff_left_of_imp (hclean entry hentry)
    · have hnone (driver : Driver) :
          state.registry.forCloud (state.registry.stateCloud s) ≠ .ok driver :=
        fun h => hdriver ⟨driver, h⟩
      obtain ⟨e, he⟩ := hagree.resolve_right fun ⟨driver, h, _⟩ => hnone driver h
      obtain ⟨hr, hkept, hsteps⟩ := deleteEnclave_refuses hstored hnone hrun
      rcases reconcile_drops hdry hvalid hstored honly hnone hrun' with
        ⟨hsteps', ⟨hr', hkept', -⟩ | ⟨hdelete, -⟩⟩
      · refine .of_errors ?_ hr hr' (by rw [hkept, hstored]) hkept'
        rw [hsteps, hsteps']
        exact sameSteps_nil
      · rw [he] at hdelete
        cases hdelete

end

/-! ## A failed teardown -/

/-- Every call succeeds but the teardown of an enclave, which ends so. -/
def outcomes (teardown : Except DriverError Unit) : Outcomes where
  tfTeardown _ _ _ := .ok ()
  teardownPartition _ _ _ _ := .ok ()
  teardownEnclave _ _ _ := teardown
  deleteEnclave := .ok ()

/-- A server with the backend of a default request. -/
def gcpState : AppState := ⟨gcpOnly, "", "http://127.0.0.1:8080"⟩

theorem only_applied (id : EnclaveId) :
    ((Store.empty.upsert appliedState).get? id).isSome = true ∧
      id ∉ ([] : List Enclave).map (·.id) ↔ id = ⟨"a"⟩ := by
  constructor
  · rintro ⟨hstored, hnot⟩
    obtain ⟨s, hs⟩ := Option.isSome_iff_exists.mp hstored
    exact (eq_of_removed_applied ⟨hs, hnot⟩).1
  · rintro rfl
    exact ⟨Option.isSome_iff_exists.mpr ⟨_, removed_applied.1⟩, List.not_mem_nil⟩

/-- Terraform cannot destroy, and the identities of partitions stay. -/
def stuckOutcomes : Outcomes where
  tfTeardown _ _ _ := .error (.internal "locked")
  teardownPartition _ _ _ _ := .error (.internal "in use")
  teardownEnclave _ _ _ := .ok ()
  deleteEnclave := .ok ()

theorem only_held (id : EnclaveId) :
    ((Store.empty.upsert (heldState ⟨"a"⟩)).get? id).isSome = true ∧
      id ∉ ([] : List Enclave).map (·.id) ↔ id = ⟨"a"⟩ := by
  rw [Store.get?_upsert, Store.get?_empty]
  constructor
  · rintro ⟨hstored, -⟩
    split at hstored
    · assumption
    · cases hstored
  · rintro rfl
    exact ⟨rfl, List.not_mem_nil⟩

/-- An enclave with a partition of which nothing can be torn down is removed alike. -/
theorem same_removal_applied :
    RemovesAlike stuckOutcomes plainHost .default gcpState []
      (Store.empty.upsert (heldState ⟨"a"⟩)) ⟨"a"⟩ (heldState ⟨"a"⟩) := by
  refine (same_removal_iff rfl rfl rfl ((Store.get?_upsert _ _ _).trans (if_pos rfl)) only_held).mpr
    (.inr ⟨plainDriver, rfl, ?_, ?_⟩)
  · rintro e ⟨_, -, -, ⟨⟩⟩
  · exact fun _ _ _ => ⟨_, plainDriver, .null, rfl, rfl, rfl⟩

/-- Where it fails, the deletion drops the record and the reconcile keeps it. -/
theorem removals_differ :
    ¬RemovesAlike (outcomes (.error (.internal "busy"))) plainHost .default gcpState []
      (Store.empty.upsert appliedState) ⟨"a"⟩ appliedState := by
  intro hsame
  rcases hsame.agree rfl rfl rfl removed_applied.1 only_applied with
    ⟨e, ⟨⟩⟩ | ⟨driver, hdriver, hfails, -⟩
  exact hfails _ ⟨.null, rfl, rfl, rfl⟩

end Nclav
