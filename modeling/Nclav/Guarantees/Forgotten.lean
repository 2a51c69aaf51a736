import Nclav.Driver.Workspace
import Nclav.Guarantees.Impersonation
import Nclav.Guarantees.Removal

/-!
# Resources that are forgotten

A request that drops the record of a partition runs the teardown of its Terraform resources
before, as far as the record has a handle and its cloud a driver, and an error of it is in the
report. The teardown succeeds where there is no workspace. So the resources are accounted for iff
the workspace is on the disk of the server or the store has no Terraform state of the partition
(`terraform_accounted`).
-/

namespace Nclav

open Effect Serde

/-! ## The teardown of a dropped partition -/

/-- The teardown of the partition was called since `start`, and an error of it is reported. -/
def TeardownMade (start log : List Event) (tf : TerraformBackend) (enc : Enclave)
    (part : Partition) (reported : DriverError → Prop) : Prop :=
  ∃ authEnv runId r older, (⟨.tfTeardown tf enc part authEnv runId, r⟩ : Event) :: older <:+ log ∧
    start <:+ older ∧ ∀ e, r = .error e → reported e

theorem TeardownMade.mono {start log log' : List Event} {tf : TerraformBackend} {enc : Enclave}
    {part : Partition} {reported reported' : DriverError → Prop}
    (h : TeardownMade start log tf enc part reported) (hlog : log <:+ log')
    (hreported : ∀ e, reported e → reported' e) :
    TeardownMade start log' tf enc part reported' := by
  obtain ⟨authEnv, runId, r, older, hev, hstart, hr⟩ := h
  exact ⟨authEnv, runId, r, older, hev.trans hlog, hstart, fun e he => hreported e (hr e he)⟩

/-- The program collects errors, and tears the partitions down; an error of the teardown of the
partition `pid` is collected as `label pid e`. -/
def TearsDownAll {σ ε : Type} (A : (c : Call) → Resp c → Prop) (start : List Event)
    (tf : TerraformBackend) (enc : Enclave) (label : PartitionId → DriverError → σ)
    (entries : List (PartitionId × PartitionState)) (errors : List σ)
    (x : ExceptT ε Sys (List σ)) (w : World) : Prop :=
  Prog.wpE (system A) x (fun r w' => ∀ errors', r = .ok errors' →
    errors ⊆ errors' ∧ w.log <:+ w'.log ∧ ∀ entry ∈ entries,
      TeardownMade start w'.log tf enc entry.2.desired fun e => label entry.1 e ∈ errors') w

section

variable {σ ε : Type} {A : (c : Call) → Resp c → Prop} {start : List Event}
  {tf : TerraformBackend} {enc : Enclave} {label : PartitionId → DriverError → σ}

/-- A loop tears down what its steps tear down. -/
theorem TearsDownAll.foldlM {entries : List (PartitionId × PartitionState)}
    {f : List σ → PartitionId × PartitionState → ExceptT ε Sys (List σ)}
    (hf : ∀ entry ∈ entries, ∀ errors w, start <:+ w.log →
      TearsDownAll A start tf enc label [entry] errors (f errors entry) w)
    {errors : List σ} {w : World} (hstart : start <:+ w.log) :
    TearsDownAll A start tf enc label entries errors (entries.foldlM f errors) w := by
  let I (pre : List (PartitionId × PartitionState)) (errors' : List σ) (w' : World) : Prop :=
    errors ⊆ errors' ∧ w.log <:+ w'.log ∧ ∀ entry ∈ pre,
      TeardownMade start w'.log tf enc entry.2.desired fun e => label entry.1 e ∈ errors'
  refine Prog.wp_foldlM_ok I ?_ (fun _ _ h => h)
    ⟨List.Subset.refl _, List.suffix_refl _, fun _ h => absurd h List.not_mem_nil⟩
  rintro pre entry post errors' w' hsplit ⟨herrors, hlog, hpre⟩
  refine Prog.wpE_mono (hf entry (by simp [hsplit]) errors' w' (hstart.trans hlog))
    fun r w'' h errors'' hr => ?_
  obtain ⟨herrors', hlog', hentry⟩ := h errors'' hr
  refine ⟨List.Subset.trans herrors herrors', hlog.trans hlog', fun entry' hmem => ?_⟩
  rcases List.mem_append.mp hmem with hmem | hmem
  · exact (hpre entry' hmem).mono hlog' fun e he => herrors' he
  · exact hentry entry' hmem

/-- What comes after a teardown leaves it made. -/
theorem TearsDownAll.bind {entries : List (PartitionId × PartitionState)} {errors : List σ}
    {x : ExceptT ε Sys (List σ)} {f : List σ → ExceptT ε Sys (List σ)} {w : World}
    (hx : TearsDownAll A start tf enc label entries errors x w)
    (hf : ∀ errors' w', TearsDownAll A start tf enc label [] errors' (f errors') w') :
    TearsDownAll A start tf enc label entries errors (x >>= f) w := by
  refine Prog.wpE_bind_ok (Prog.wpE_mono hx fun r w₁ h₁ errors' hr => ?_)
  obtain ⟨herrors, hlog, hmade⟩ := h₁ errors' hr
  refine Prog.wpE_mono (hf errors' w₁) fun r' w₂ h₂ errors'' hr' => ?_
  obtain ⟨herrors', hlog', -⟩ := h₂ errors'' hr'
  exact ⟨List.Subset.trans herrors herrors', hlog.trans hlog', fun entry hentry =>
    (hmade entry hentry).mono hlog' fun e he => herrors' he⟩

theorem TearsDownAll.pure {errors errors' : List σ} (h : errors ⊆ errors') (w : World) :
    TearsDownAll A start tf enc label [] errors
      (Pure.pure errors' : ExceptT ε Sys (List σ)) w := by
  rintro _ ⟨⟩
  exact ⟨h, List.suffix_refl _, fun _ h => absurd h List.not_mem_nil⟩

/-- Anything may come before. -/
theorem TearsDownAll.after {α : Type} {entries : List (PartitionId × PartitionState)}
    {errors : List σ} {x : ExceptT ε Sys α} {f : α → ExceptT ε Sys (List σ)} {w : World}
    (h : ∀ a w', w.log <:+ w'.log → TearsDownAll A start tf enc label entries errors (f a) w') :
    TearsDownAll A start tf enc label entries errors (x >>= f) w := by
  refine Prog.wpE_bind_ok (Prog.wp_iff.mpr fun r w₁ hrun a _ => ?_)
  have hlog : w.log <:+ w₁.log := log_suffix_visits hrun.visits
  refine Prog.wpE_mono (h a w₁ hlog) fun r' w₂ h₂ errors' hr' => ?_
  obtain ⟨herrors, hlog', hmade⟩ := h₂ errors' hr'
  exact ⟨herrors, hlog.trans hlog', hmade⟩

theorem TearsDownAll.of_mem {entries entries' : List (PartitionId × PartitionState)}
    {errors : List σ} {x : ExceptT ε Sys (List σ)} {w : World}
    (hx : TearsDownAll A start tf enc label entries errors x w)
    (h : ∀ entry ∈ entries', entry ∈ entries) :
    TearsDownAll A start tf enc label entries' errors x w :=
  Prog.wpE_mono hx fun _ _ h' errors' hr =>
    ⟨(h' errors' hr).1, (h' errors' hr).2.1, fun entry hentry =>
      (h' errors' hr).2.2 entry (h entry hentry)⟩

/-- The teardown of one partition, its error collected. -/
theorem TearsDownAll.teardown {entry : PartitionId × PartitionState} {errors : List σ}
    {authEnv : HashMap String String} {runId : Option Uuid}
    {f : Except DriverError Unit → ExceptT ε Sys (List σ)} {w : World} (hstart : start <:+ w.log)
    (h : ∀ r, ∃ errors', errors ⊆ errors' ∧ (∀ e, r = .error e → label entry.1 e ∈ errors') ∧
      ∀ w', TearsDownAll A start tf enc label [] errors' (f r) w') :
    TearsDownAll A start tf enc label [entry] errors
      ((monadLift (tf.teardown enc entry.2.desired authEnv runId) :
        ExceptT ε Sys (Except DriverError Unit)) >>= f) w := by
  refine Prog.wpE_bind_ok fun r _ a ha => ?_
  obtain rfl := Except.ok.inj ha
  obtain ⟨errors', herrors, hlabel, hrest⟩ := h r
  refine Prog.wpE_mono (hrest _) fun r' w' h' errors'' hr' => ?_
  obtain ⟨herrors', hlog, -⟩ := h' errors'' hr'
  refine ⟨List.Subset.trans herrors herrors', (List.suffix_cons _ _).trans hlog,
    fun entry' hentry' => ?_⟩
  obtain rfl := List.mem_singleton.mp hentry'
  exact ⟨authEnv, runId, r, w.log, hlog, hstart, fun e he => herrors' (hlabel e he)⟩

/-- The partitions of a record, in the order of the map. -/
theorem TearsDownAll.inOrder {partitions : HashMap PartitionId PartitionState}
    {f : List σ → PartitionId × PartitionState → ExceptT ε Sys (List σ)}
    {g : List σ → ExceptT ε Sys (List σ)} {errors : List σ} {w : World}
    (hf : ∀ entry errors w, start <:+ w.log →
      TearsDownAll A start tf enc label [entry] errors (f errors entry) w)
    (hg : ∀ errors w, TearsDownAll A start tf enc label [] errors (g errors) w)
    (hstart : start <:+ w.log) :
    TearsDownAll A start tf enc label partitions.toList errors
      ((monadLift (perform (.partitionOrder partitions.toList)) :
        ExceptT ε Sys (Resp (.partitionOrder partitions.toList))) >>=
          fun entries => entries.val.foldlM f errors >>= g) w := by
  refine .after fun entries w₁ hlog => .bind ?_ hg
  have hloop : TearsDownAll A start tf enc label entries.val errors
      (entries.val.foldlM f errors) w₁ :=
    .foldlM (fun entry _ errors w h => hf entry errors w h) (hstart.trans hlog)
  exact hloop.of_mem fun entry hentry => entries.property.mem_iff.mpr hentry

end

/-! ## The three callers -/

section

variable {A : (c : Call) → Resp c → Prop} {start : List Event}

/-- The text under which an error is collected. -/
def errorText (label : String) (e : DriverError) : String := s!"{label}{e}"

theorem mem_collect_iff {label text : String} {errors : List String}
    {r : Except DriverError Unit} :
    text ∈ collect label errors r ↔ text ∈ errors ∨ ∃ e, r = .error e ∧ text = errorText label e := by
  cases r with
  | ok _ =>
    refine ⟨.inl, fun h => h.resolve_right ?_⟩
    rintro ⟨_, ⟨⟩, -⟩
  | error e =>
    rw [collect, List.mem_append, List.mem_singleton]
    refine or_congr_right ⟨fun h => ⟨e, rfl, h⟩, ?_⟩
    rintro ⟨_, ⟨⟩, h⟩
    exact h

theorem subset_collect (label : String) (errors : List String) (r : Except DriverError Unit) :
    errors ⊆ collect label errors r :=
  fun _ htext => mem_collect_iff.mpr (.inl htext)

theorem mem_collect {label : String} {errors : List String} {r : Except DriverError Unit}
    {e : DriverError} (h : r = .error e) : errorText label e ∈ collect label errors r :=
  mem_collect_iff.mpr (.inr ⟨e, h, rfl⟩)

/-- The label under which a deletion of an enclave collects the error of a partition. -/
def teardownLabel (id : EnclaveId) (pid : PartitionId) : String := s!"teardown {id.val}/{pid.val}: "

theorem tearsDown_destroyPartition {tf : TerraformBackend} {id : EnclaveId} {driver : Driver}
    {existing : EnclaveState} {authEnv : HashMap String String} {errors : List String}
    (entry : PartitionId × PartitionState) {w : World} (hstart : start <:+ w.log) :
    TearsDownAll A start tf existing.desired (fun pid e => errorText (teardownLabel id pid) e) [entry]
      errors (destroyPartition tf id driver existing authEnv errors entry) w := by
  refine .teardown hstart fun r => ⟨_, subset_collect (teardownLabel id entry.1) errors r,
    fun e he => mem_collect he, fun w' => ?_⟩
  rcases entry.2.partitionHandle with _ | handle
  · exact .pure (List.Subset.refl _) w'
  · exact .after fun cleaned w'' _ => .pure (subset_collect _ _ cleaned) w''

/-- The deletion of an enclave with a handle. -/
theorem tearsDown_destroyEnclave {tf : TerraformBackend} {id : EnclaveId} {driver : Driver}
    {existing : EnclaveState} (hhandle : existing.enclaveHandle.isSome = true)
    (resourcesOnly : Bool) {w : World} (hstart : start <:+ w.log) :
    TearsDownAll A start tf existing.desired (fun pid e => errorText (teardownLabel id pid) e)
      existing.partitions.toList [] (destroyEnclave tf id driver existing resourcesOnly) w := by
  obtain ⟨handle, hhandle⟩ := Option.isSome_iff_exists.mp hhandle
  rw [destroyEnclave, hhandle]
  refine .inOrder (fun entry _ _ h => tearsDown_destroyPartition entry h) (fun errors w' => ?_) hstart
  split
  · exact .pure (List.Subset.refl _) w'
  · exact .after fun destroyed w'' _ => .pure (subset_collect _ _ destroyed) w''

/-- The deletion of a partition. -/
theorem tearsDown_destroyDeletedPartition {tf : TerraformBackend} {driver : Driver}
    {existing : EnclaveState} (pid : PartitionId) (ps : PartitionState) {w : World}
    (hstart : start <:+ w.log) :
    TearsDownAll A start tf existing.desired (fun _ e => errorText "" e) [(pid, ps)] []
      (destroyDeletedPartition tf driver existing ps) w := by
  refine .teardown hstart fun r => ⟨_, subset_collect "" [] r, fun e he => mem_collect he,
    fun w' => ?_⟩
  rcases ps.partitionHandle with _ | handle
  · exact .pure (List.Subset.refl _) w'
  · exact .after fun cleaned w'' _ => .pure (subset_collect _ _ cleaned) w''

/-- The errors after the teardown of a partition. -/
def errorsAfter (id : EnclaveId) (pid : PartitionId) (errors : List ReportError) :
    Except DriverError Unit → List ReportError
  | .ok () => errors
  | .error e => errors ++ [.teardown id pid e]

theorem tearsDown_teardownRemovedPartition {run : Run} {id : EnclaveId} {driver : Driver}
    {existing : EnclaveState} {authEnv : HashMap String String} {errors : List ReportError}
    (entry : PartitionId × PartitionState) {w : World} (hstart : start <:+ w.log) :
    TearsDownAll A start run.req.tfBackend existing.desired (.teardown id) [entry] errors
      (teardownRemovedPartition run id driver existing authEnv errors entry) w := by
  refine .teardown hstart fun r => ⟨errorsAfter id entry.1 errors r, ?_, ?_, fun w' => ?_⟩
  · cases r with
    | ok _ => exact List.Subset.refl _
    | error e => exact List.subset_append_left _ _
  · rintro e rfl
    exact List.mem_append_right _ (List.mem_singleton_self _)
  · rcases entry.2.partitionHandle with _ | handle
    · exact .pure (List.Subset.refl _) w'
    · exact .after fun _ w'' _ => .pure (List.Subset.refl _) w''

/-- The removal of an enclave with a handle and a driver. -/
theorem tearsDown_teardownRemovedEnclave {run : Run} {id : EnclaveId} {existing : EnclaveState}
    (htearable : Tearable run.registry existing) (errors : List ReportError) {w : World}
    (hstart : start <:+ w.log) :
    TearsDownAll A start run.req.tfBackend existing.desired (.teardown id)
      existing.partitions.toList errors (teardownRemovedEnclave run id existing errors) w := by
  obtain ⟨driver, handle, hdriver, hhandle⟩ := htearable
  rw [teardownRemovedEnclave_of_tearable hdriver hhandle, teardownRemovedResources]
  refine .inOrder (fun entry _ _ h => tearsDown_teardownRemovedPartition entry h)
    (fun errors' w' => ?_) hstart
  split
  · exact .pure (List.Subset.refl _) w'
  · exact .after fun _ w'' _ => .pure (List.Subset.refl _) w''

/-- Past the teardown of a partition of a stored record nothing takes it back. -/
theorem wpE_report {tf : TerraformBackend} {enc : Enclave}
    {label : PartitionId → DriverError → String} {entries : List (PartitionId × PartitionState)}
    {x : Api (List String)} {f : List String → Api DestroyReport} {w : World}
    (hx : TearsDownAll A start tf enc label entries [] x w)
    (hf : ∀ errors w', Prog.wpE (system A) (f errors)
      (fun r _ => ∀ report, r = .ok report → report.errors = errors) w') :
    Prog.wpE (system A) (x >>= f) (fun r w' => ∀ report, r = .ok report → ∀ entry ∈ entries,
      TeardownMade start w'.log tf enc entry.2.desired fun e => label entry.1 e ∈ report.errors) w := by
  refine Prog.wpE_bind_ok (Prog.wpE_mono hx fun r w₁ h₁ errors hr => ?_)
  obtain ⟨-, -, hmade⟩ := h₁ errors hr
  refine Prog.wp_iff.mpr fun r' w₂ hrun report hr' entry hentry => ?_
  have herrors : report.errors = errors := hrun.wp (hf errors w₁) report hr'
  rw [herrors]
  exact (hmade entry hentry).mono (log_suffix_visits hrun.visits) fun _ h => h

/-- A handler that finds the record goes on with it. -/
theorem wpE_getEnclave_found {α : Type} {id : EnclaveId} {s : EnclaveState} {e : ApiError}
    {f : EnclaveState → Api α} {w : World} (hs : w.store.get? id = some s)
    {Q : α → World → Prop}
    (hf : Prog.wpE (system A) (f s) (fun r w' => ∀ a, r = .ok a → Q a w')
      (w.next (.getEnclave id) (.ok (some s)))) :
    Prog.wpE (system A) (apiStoreCall (perform (.getEnclave id)) >>= fun stored =>
      okOr e stored >>= f) (fun r w' => ∀ a, r = .ok a → Q a w') w := by
  rw [Prog.wpE_bind]
  rintro (_ | stored) ⟨hstored, -⟩
  · rintro _ ⟨⟩
  · obtain rfl : stored = some s := Eq.trans hstored hs
    exact hf

/-- So does one that finds the driver. -/
theorem wpE_driverOf {α : Type} {state : AppState} {existing : EnclaveState} {f : Driver → Api α}
    {w : World} {Q : α → World → Prop}
    (hf : ∀ driver, Prog.wpE (system A) (f driver) (fun r w' => ∀ a, r = .ok a → Q a w') w) :
    Prog.wpE (system A) (state.driverOf existing >>= f)
      (fun r w' => ∀ a, r = .ok a → Q a w') w := by
  rw [AppState.driverOf]
  split
  · exact hf _
  · rintro _ ⟨⟩

theorem teardownMade_of_deletePartition {state : AppState} {id : EnclaveId} {pid : PartitionId}
    {w w' : World} {report : DestroyReport}
    (hrun : Prog.Exec (system A) (deletePartition state id pid).run w (.ok report) w')
    {s : EnclaveState} (hs : w.store.get? id = some s) {ps : PartitionState}
    (hps : s.partitions[pid]? = some ps) :
    TeardownMade w.log w'.log state.tfBackend s.desired ps.desired
      fun e => errorText "" e ∈ report.errors := by
  have hmade := hrun.wp (Q := fun r w' => ∀ report, r = .ok report → ∀ entry ∈ [(pid, ps)],
    TeardownMade w.log w'.log state.tfBackend s.desired entry.2.desired
      fun e => errorText "" e ∈ report.errors) ?_
  · exact hmade report rfl (pid, ps) (List.mem_singleton_self _)
  refine wpE_getEnclave_found hs ?_
  rw [hps]
  refine wpE_driverOf fun driver => ?_
  refine wpE_report (tearsDown_destroyDeletedPartition pid ps (List.suffix_cons _ _))
    fun errors w₁ => ?_
  refine Prog.wpE_bind_ok (Prog.wp_iff.mpr fun _ w₂ _ _ _ => ?_)
  refine Prog.wpE_bind_ok (Prog.wp_iff.mpr fun _ w₃ _ remaining _ => ?_)
  rintro _ ⟨⟩
  rfl

theorem teardownMade_of_deleteEnclave {state : AppState} {id : EnclaveId} {resourcesOnly : Bool}
    {w w' : World} {report : DestroyReport}
    (hrun : Prog.Exec (system A) (deleteEnclave state id resourcesOnly).run w (.ok report) w')
    {s : EnclaveState} (hs : w.store.get? id = some s)
    (hhandle : s.enclaveHandle.isSome = true) {entry : PartitionId × PartitionState}
    (hentry : entry ∈ s.partitions.toList) :
    TeardownMade w.log w'.log state.tfBackend s.desired entry.2.desired
      fun e => errorText (teardownLabel id entry.1) e ∈ report.errors := by
  refine hrun.wp (Q := fun r w' => ∀ report, r = .ok report → ∀ entry ∈ s.partitions.toList,
    TeardownMade w.log w'.log state.tfBackend s.desired entry.2.desired
      fun e => errorText (teardownLabel id entry.1) e ∈ report.errors) ?_ report rfl entry hentry
  refine wpE_getEnclave_found hs (wpE_driverOf fun driver => ?_)
  refine wpE_report (tearsDown_destroyEnclave hhandle resourcesOnly (List.suffix_cons _ _))
    fun errors w₁ => ?_
  refine Prog.wpE_bind_ok (Prog.wp_iff.mpr fun _ w₂ _ _ _ => ?_)
  rintro _ ⟨⟩
  rfl

/-- The partitions of the enclave, if its record can be torn down, have been torn down. -/
def RemovalMade (run : Run) (start log : List Event) (errors : List ReportError)
    (id : EnclaveId) : Prop :=
  ∀ s, run.existing id = some s → Tearable run.registry s → ∀ entry ∈ s.partitions.toList,
    TeardownMade start log run.req.tfBackend s.desired entry.2.desired
      fun e => .teardown id entry.1 e ∈ errors

theorem RemovalMade.mono {run : Run} {log log' : List Event} {errors errors' : List ReportError}
    {id : EnclaveId} (h : RemovalMade run start log errors id) (hlog : log <:+ log')
    (herrors : errors ⊆ errors') : RemovalMade run start log' errors' id :=
  fun s hs htearable entry hentry =>
    (h s hs htearable entry hentry).mono hlog fun _ he => herrors he

theorem wpE_teardownRemoved_made {run : Run} (id : EnclaveId) (errors : List ReportError)
    {w : World} (hstart : start <:+ w.log) :
    Prog.wpE (system A) (teardownRemoved run errors id) (fun r w' => ∀ errors', r = .ok errors' →
      errors ⊆ errors' ∧ w.log <:+ w'.log ∧ RemovalMade run start w'.log errors' id) w := by
  rw [teardownRemoved]
  rcases hex : run.existing id with _ | s
  · rintro _ ⟨⟩
    refine ⟨List.Subset.refl _, List.suffix_refl _, fun s hs => ?_⟩
    rw [hex] at hs
    cases hs
  have hrecord : ∀ s', run.existing id = some s' → s' = s := fun s' hs' =>
    Option.some.inj (hs'.symm.trans hex)
  by_cases htearable : Tearable run.registry s
  · refine Prog.wpE_mono ((tearsDown_teardownRemovedEnclave htearable errors hstart).bind
      fun errors' w' => .after fun _ w'' _ => .pure (List.Subset.refl _) w'') ?_
    intro r w' h errors' hr
    obtain ⟨herrors, hlog, hmade⟩ := h errors' hr
    refine ⟨herrors, hlog, fun s' hs' _ => ?_⟩
    rw [hrecord s' hs']
    exact hmade
  · simp only [teardownRemovedEnclave_of_not_tearable htearable]
    refine Prog.wp_iff.mpr fun r w' hrun errors' hr => ?_
    have herrors : errors = errors' := by
      refine hrun.wp (Q := fun r _ => ∀ errors', r = .ok errors' → errors = errors') ?_ errors' hr
      refine Prog.wpE_bind_ok fun a ha => ?_
      obtain rfl := Except.ok.inj ha
      refine Prog.wpE_bind_ok (Prog.wp_iff.mpr fun _ w₁ _ _ _ => ?_)
      rintro _ ⟨⟩
      rfl
    refine ⟨herrors ▸ List.Subset.refl _, log_suffix_visits hrun.visits, fun s' hs' h => ?_⟩
    rw [hrecord s' hs'] at h
    exact absurd h htearable

/-- So it is for all removed enclaves. -/
theorem wpE_passes_made {run : Run} {removed : List EnclaveId} {ordered : List Enclave}
    {w : World} (hstart : start <:+ w.log) :
    Prog.wpE (system A) (passes run removed ordered) (fun r w' => ∀ errors, r = .ok errors →
      ∀ id ∈ removed, RemovalMade run start w'.log errors id) w := by
  let I (pre : List EnclaveId) (errors : List ReportError) (w' : World) : Prop :=
    start <:+ w'.log ∧ ∀ id ∈ pre, RemovalMade run start w'.log errors id
  have hteardown : Prog.wpE (system A) (teardownPass run removed) (fun r w' => ∀ errors,
      r = .ok errors → ∀ id ∈ removed, RemovalMade run start w'.log errors id) w := by
    refine Prog.wp_foldlM_ok I ?_ (fun _ _ h => h.2) ⟨hstart, fun _ h => absurd h List.not_mem_nil⟩
    rintro pre id post errors w₁ - ⟨hstart', hpre⟩
    refine Prog.wpE_mono (wpE_teardownRemoved_made id errors hstart') fun r w₂ h errors' hr => ?_
    obtain ⟨herrors, hlog, hmade⟩ := h errors' hr
    refine ⟨hstart'.trans hlog, fun id' hid' => ?_⟩
    rcases List.mem_append.mp hid' with hid' | hid'
    · exact (hpre id' hid').mono hlog herrors
    · rw [List.mem_singleton.mp hid']
      exact hmade
  -- the other passes only add to the errors
  have hprovision : ∀ errors, Prog.CallsE (fun _ => True) (fun errors' => errors ⊆ errors')
      (provisionPass run ordered errors) := fun errors =>
    .foldlM _ (fun errors' enc _ h => (provisionEnclave_calls errors').mono (fun _ _ => trivial)
      fun _ hadds => List.Subset.trans h hadds.subset) (List.Subset.refl _)
  have hwire : ∀ errors, Prog.CallsE (fun _ => True) (fun errors' => errors ⊆ errors')
      (wiringPass run ordered errors) := fun errors =>
    .foldlM _ (fun errors' enc _ h => (wireEnclave_calls errors').mono (fun _ _ => trivial)
      fun _ hadds => List.Subset.trans h hadds.subset) (List.Subset.refl _)
  refine Prog.wpE_bind_ok (Prog.wpE_mono hteardown fun r w₁ h₁ errors hr => ?_)
  have hrest : Prog.CallsE (fun _ => True) (fun errors' => errors ⊆ errors')
      (provisionPass run ordered errors >>= wiringPass run ordered) :=
    (hprovision errors).bind fun errors' h => (hwire errors').mono (fun _ _ => trivial)
      fun _ h' => List.Subset.trans h h'
  refine Prog.wp_iff.mpr fun r' w₂ hrun errors' hr' id hid => ?_
  have herrors : errors ⊆ errors' :=
    (hrun.wp (hrest.wpE (M := system A) (I := fun _ => True) (fun _ _ _ _ _ _ => trivial)
      trivial)).1 errors' hr'
  exact (h₁ errors hr id hid).mono (log_suffix_visits hrun.visits) herrors

theorem teardownMade_of_reconcileLoaded {host : Host} {req : ReconcileRequest}
    {registry : DriverRegistry} {desired : List Enclave} (hdry : req.dryRun = false)
    {w w' : World} {report : ReconcileReport}
    (hrun : Prog.Exec (system A) (reconcileLoaded host req registry desired).run w (.ok report) w')
    {id : EnclaveId} {s : EnclaveState} (hs : w.store.get? id = some s)
    (hremoved : id ∉ desired.map (·.id)) (htearable : Tearable registry s)
    {entry : PartitionId × PartitionState} (hentry : entry ∈ s.partitions.toList) :
    TeardownMade w.log w'.log req.tfBackend s.desired entry.2.desired
      fun e => .teardown id entry.1 e ∈ report.errors := by
  let J (w' : World) (errors : List ReportError) : Prop :=
    TeardownMade w.log w'.log req.tfBackend s.desired entry.2.desired
      fun e => .teardown id entry.1 e ∈ errors
  refine (hrun.wp (wpE_reconcileLoaded_keeps (I := fun _ => True) (J := J) hdry
    (fun _ _ _ _ => trivial) (fun w₁ w₂ errors h hquiet => h.mono hquiet.log_suffix fun _ he => he)
    ?_ trivial)).2 report rfl
  intro run resolved removed w₁ hstart hquiet _
  refine Prog.wpE_mono (wpE_passes_made hquiet.log_suffix) fun r w₂ h => ⟨trivial, fun errors hr => ?_⟩
  have hmem : id ∈ removed := (hstart.mem_removed id).mpr ⟨by rw [hs]; rfl, hremoved⟩
  have hmade := h errors hr id hmem s ((hstart.existing id).trans hs)
    (hstart.registry_eq ▸ htearable) entry hentry
  rw [hstart.req_eq] at hmade
  exact hmade

end

/-! ## The requests -/

namespace Request

/-- The request ended with a report, not with an error. -/
def Reported : (q : Request) → q.Result → Prop
  | .reconcile _ _ _ _, r => ∃ report, r = .ok report
  | .deleteEnclave _ _ _, r | .deletePartition _ _ _, r => ∃ report, r = .ok report

/-- The request drops the record of the partition. -/
def Drops : Request → EnclaveId → PartitionId → Prop
  | .reconcile fs root req _, id, _ => req.dryRun = false ∧
      ∃ desired, loadEnclaves fs req.enclavesDir root = .ok desired ∧ id ∉ desired.map (·.id)
  | .deleteEnclave _ id _, id', _ => id' = id
  | .deletePartition _ id pid, id', pid' => id' = id ∧ pid' = pid

/-- Where it does, it calls the teardown of the partitions of such a record. -/
def TearsDown : Request → EnclaveState → Prop
  | .reconcile _ _ _ registry, s => Tearable registry s
  | .deleteEnclave _ _ _, s => s.enclaveHandle.isSome = true
  | .deletePartition _ _ _, _ => True

def tfBackend : Request → TerraformBackend
  | .reconcile _ _ req _ => req.tfBackend
  | .deleteEnclave state _ _ | .deletePartition state _ _ => state.tfBackend

/-- The error of the teardown of the partition is in the report. -/
def ReportsError : (q : Request) → q.Result → EnclaveId → PartitionId → DriverError → Prop
  | .reconcile _ _ _ _, r, id, pid, e =>
    ∃ report, r = .ok report ∧ .teardown id pid e ∈ report.errors
  | .deleteEnclave _ _ _, r, id, pid, e =>
    ∃ report, r = .ok report ∧ errorText (teardownLabel id pid) e ∈ report.errors
  | .deletePartition _ _ _, r, _, _, e => ∃ report, r = .ok report ∧ errorText "" e ∈ report.errors

end Request

/-- A request that drops the record of a partition has called the teardown of it. -/
theorem teardownMade_of_request {A : (c : Call) → Resp c → Prop} {host : Host} {q : Request}
    {w w' : World} {r : q.Result} (hrun : Prog.Exec (system A) (q.prog host) w r w')
    (hreported : q.Reported r) {id : EnclaveId} {s : EnclaveState} (hs : w.store.get? id = some s)
    {pid : PartitionId} {ps : PartitionState} (hps : s.partitions[pid]? = some ps)
    (hdrops : q.Drops id pid) (htears : q.TearsDown s) :
    TeardownMade w.log w'.log q.tfBackend s.desired ps.desired (q.ReportsError r id pid) := by
  have hentry : (pid, ps) ∈ s.partitions.toList :=
    Std.ExtTreeMap.mem_toList_iff_getElem?_eq_some.mpr hps
  cases q with
  | reconcile fs root req registry =>
    obtain ⟨report, rfl⟩ := hreported
    obtain ⟨hdry, desired, hload, hremoved⟩ := hdrops
    rw [Request.prog, reconcile_of_loaded hload] at hrun
    exact (teardownMade_of_reconcileLoaded hdry hrun hs hremoved htears hentry).mono
      (List.suffix_refl _) fun e he => ⟨report, rfl, he⟩
  | deleteEnclave state id' resourcesOnly =>
    obtain ⟨report, rfl⟩ := hreported
    obtain rfl : id = id' := hdrops
    exact (teardownMade_of_deleteEnclave hrun hs htears hentry).mono
      (List.suffix_refl _) fun e he => ⟨report, rfl, he⟩
  | deletePartition state id' pid' =>
    obtain ⟨report, rfl⟩ := hreported
    obtain ⟨rfl, rfl⟩ := hdrops
    exact (teardownMade_of_deletePartition hrun hs hps).mono
      (List.suffix_refl _) fun e he => ⟨report, rfl, he⟩

/-- A handler that finds no handle tears nothing down. -/
theorem wpE_deleteEnclave_handleless {A : (c : Call) → Resp c → Prop} {state : AppState}
    {id : EnclaveId} {resourcesOnly : Bool} {s : EnclaveState} {w : World}
    (hs : w.store.get? id = some s) (hhandle : s.enclaveHandle = none) :
    Prog.wpE (system A) (deleteEnclave state id resourcesOnly)
      (fun _ w' => w.Only (fun c => c.isQuiet = true ∨ ∃ id, c = .deleteEnclave id) w') w := by
  have hquiet (r : Resp (.getEnclave id)) : w.Only
      (fun c => c.isQuiet = true ∨ ∃ id, c = .deleteEnclave id) (w.next (.getEnclave id) r) :=
    (World.Only.refl w).next (.inl rfl) r
  rw [deleteEnclave, Prog.wpE_bind]
  rintro (e | stored) ⟨hstored, -⟩
  · exact hquiet _
  obtain rfl : stored = some s := Eq.trans hstored hs
  show Prog.wpE (system A) (state.driverOf s >>= _) _ (w.next (.getEnclave id) (.ok (some s)))
  rw [Prog.wpE_bind, AppState.driverOf]
  split
  · rename_i driver _
    have hnothing : destroyEnclave state.tfBackend id driver s resourcesOnly = pure [] := by
      rw [destroyEnclave, hhandle]
    show Prog.wpE (system A) (destroyEnclave state.tfBackend id driver s resourcesOnly >>= _) _ _
    rw [hnothing]
    show Prog.wpE (system A) (apiStoreCall (perform (.deleteEnclave id)) >>= _) _ _
    rw [Prog.wpE_bind]
    rintro (e | _) - <;> exact (hquiet _).next (.inr ⟨id, rfl⟩) _
  · exact hquiet _

/-- Where a request does not tear a record down, no teardown of the enclave is called. -/
theorem only_of_request {A : (c : Call) → Resp c → Prop} {host : Host} {q : Request}
    {w w' : World} {r : q.Result} (hrun : Prog.Exec (system A) (q.prog host) w r w')
    (hreported : q.Reported r) {id : EnclaveId} {s : EnclaveState} (hs : w.store.get? id = some s)
    {pid : PartitionId} (hdrops : q.Drops id pid) (hkept : ¬q.TearsDown s) :
    w.Only (fun c => c.TearsDown id → c.isQuiet = true) w' := by
  cases q with
  | reconcile fs root req registry =>
    obtain ⟨report, rfl⟩ := hreported
    obtain ⟨hdry, desired, hload, hremoved⟩ := hdrops
    rw [Request.prog, reconcile_of_loaded hload] at hrun
    obtain ⟨newer, hlog, hnewer⟩ := (tearsDown_of_run hdry hrun).1
    refine ⟨newer, hlog, fun ev hev htears => ?_⟩
    by_contra hloud
    obtain ⟨s', hs', htearable⟩ := hnewer ev hev id htears (Bool.eq_false_of_not_eq_true hloud)
    obtain rfl := Option.some.inj (hs.symm.trans hs'.1)
    exact hkept htearable
  | deleteEnclave state id' resourcesOnly =>
    obtain rfl : id = id' := hdrops
    have hhandle : s.enclaveHandle = none := Option.not_isSome_iff_eq_none.mp hkept
    obtain ⟨newer, hlog, hnewer⟩ := hrun.wp (wpE_deleteEnclave_handleless hs hhandle)
    refine ⟨newer, hlog, fun ev hev htears => (hnewer ev hev).resolve_right ?_⟩
    rintro ⟨id', hdelete⟩
    rw [hdelete] at htears
    cases htears
  | deletePartition state id' pid' => exact absurd trivial hkept

/-- What each teardown in the log met, and what it did on the machine. -/
structure Teardowns : Type where
  site : List Event → Site
  calls : List Event → List LocalEvent

/-- The teardowns in the log answered what the backend made of these. -/
def Teardowns.Traced (t : Teardowns) (host : Host) (log : List Event) : Prop :=
  ∀ tf enc part authEnv runId r older,
    (⟨.tfTeardown tf enc part authEnv runId, r⟩ : Event) :: older <:+ log →
    let now := (⟨.tfTeardown tf enc part authEnv runId, r⟩ : Event) :: older
    Prog.Exec (t.site now).machine (tf.teardownLocal host enc part authEnv runId) [] r (t.calls now)

/-- The teardown of the partition was called since `start`; the newest event of `now` is its
answer. -/
def Request.CalledAt (q : Request) (s : EnclaveState) (ps : PartitionState)
    (start log now : List Event) (answer : Except DriverError Unit) : Prop :=
  ∃ authEnv runId older,
    now = (⟨.tfTeardown q.tfBackend s.desired ps.desired authEnv runId, answer⟩ : Event) :: older ∧
      now <:+ log ∧ start <:+ older

/-- The teardown failed and the report has its error, or it has destroyed the resources. -/
def Request.Settles (q : Request) (host : Host) (r : q.Result) (s : EnclaveState)
    (pid : PartitionId) (ps : PartitionState) (answer : Except DriverError Unit)
    (calls : List LocalEvent) : Prop :=
  (∃ e, answer = .error e ∧ q.ReportsError r s.desired.id pid e) ∨
    Destroyed host s.desired ps.desired calls

/-- **When Terraform resources are accounted for.** A teardown accounts for the Terraform state of
its partition, whatever the subprocess does, iff the workspace is there or the store has no such
state. Where a request drops the record of a partition, and the record is one that it tears down,
the teardown was called, and the resources were destroyed, or there is no state, or the report has
the error, under that same condition and no other. A record that it drops without that is accounted
for iff there is no state. -/
theorem terraform_accounted (host : Host) :
    (∀ (site : Site) (tf : TerraformBackend) (enc : Enclave) (part : Partition)
      (authEnv : HashMap String String) (runId : Option Uuid) (r : Except DriverError Unit)
      (calls : List LocalEvent), tf.testMode = false →
      Prog.Exec site.machine (tf.teardownLocal host enc part authEnv runId) [] r calls →
      ((r = .ok () → Destroyed host enc part calls ∨ site.stateHeld enc part = false) ↔
        site.hasWorkspace host enc part = true ∨ site.stateHeld enc part = false)) ∧
      ∀ (q : Request) (w w' : World) (r : q.Result),
        Prog.Exec (system anyAnswer) (q.prog host) w r w' → q.Reported r →
        ∀ id s pid ps, w.store.get? id = some s → s.partitions[pid]? = some ps →
          q.Drops id pid → q.tfBackend.testMode = false →
          ∀ t : Teardowns, t.Traced host w'.log →
          (q.TearsDown s → ∃ now answer, q.CalledAt s ps w.log w'.log now answer ∧
            (q.Settles host r s pid ps answer (t.calls now) ∨
                (t.site now).stateHeld s.desired ps.desired = false ↔
              (t.site now).hasWorkspace host s.desired ps.desired = true ∨
                (t.site now).stateHeld s.desired ps.desired = false)) ∧
          (¬q.TearsDown s →
            ((∃ now answer, q.CalledAt s ps w.log w'.log now answer ∧
                q.Settles host r s pid ps answer (t.calls now)) ∨
                (t.site w'.log).stateHeld s.desired ps.desired = false ↔
              (t.site w'.log).stateHeld s.desired ps.desired = false)) := by
  refine ⟨fun _ _ _ _ _ _ _ _ => teardown_accounts_iff, ?_⟩
  intro q w w' r hrun hreported id s pid ps hs hps hdrops htest t ht
  have hid : s.desired.id = id := Store.id_of_get? hs
  refine ⟨fun htears => ?_, fun hkept => or_iff_right ?_⟩
  · obtain ⟨authEnv, runId, answer, older, hev, hstart, herrors⟩ :=
      teardownMade_of_request hrun hreported hs hps hdrops htears
    refine ⟨_, answer, ⟨authEnv, runId, older, rfl, hev, hstart⟩, ?_⟩
    rw [← teardown_accounts_iff htest (ht _ _ _ _ _ _ _ hev), Request.Settles, hid]
    cases answer with
    | ok u => simp
    | error e => exact ⟨fun _ => nofun, fun _ => .inl (.inl ⟨e, rfl, herrors e rfl⟩)⟩
  · rintro ⟨_, answer, ⟨authEnv, runId, older, rfl, hev, hstart⟩, -⟩
    obtain ⟨newer, hlog, hnewer⟩ := only_of_request hrun hreported hs hdrops hkept
    obtain ⟨later, hlater⟩ := hev
    obtain ⟨earlier, rfl⟩ := hstart
    rw [hlog, ← List.cons_append, ← List.append_assoc] at hlater
    have hcall := hnewer _ (List.append_cancel_right hlater ▸
      List.mem_append_right _ (List.mem_cons_self ..))
    cases hcall (.tfTeardown _ _ _ _ _ hid)

/-! ### The server has moved -/

/-- There is no workspace on the disk, and a state in the store. -/
def diskless : Teardowns where
  site _ := ⟨fun _ => false, fun _ => true⟩
  calls log := match log with
    | ⟨.tfTeardown tf enc part _ _, _⟩ :: _ =>
      if tf.testMode then []
      else [⟨.exists_ (TerraformBackend.workspaceDir plainHost enc.id.val part.id.val), false⟩]
    | _ => []

/-- Every teardown in the log succeeded. -/
def teardownsSucceed : (c : Call) → Resp c → Prop
  | .tfTeardown _ _ _ _ _, r => r = .ok ()
  | _, _ => True

theorem teardownsSucceed_okAnswer (w : World) (c : Call) : teardownsSucceed c (okAnswer w c) := by
  cases c <;> trivial

theorem teardownsSucceed_saAnswer (w : World) (c : Call) : teardownsSucceed c (saAnswer w c) := by
  cases c <;> trivial

theorem diskless_traced {log : List Event} (h : ∀ ev ∈ log, teardownsSucceed ev.1 ev.2) :
    diskless.Traced plainHost log := by
  rintro tf enc part authEnv runId r older hev now
  obtain rfl : r = .ok () := h _ (hev.subset (List.mem_cons_self ..))
  show Prog.Exec (Site.machine _) _ [] _ (if tf.testMode = true then [] else _)
  rw [TerraformBackend.teardownLocal]
  split
  · exact .ret _ _
  · have hmissing : (diskless.site now).machine.adm []
        (.exists_ (TerraformBackend.workspaceDir plainHost enc.id.val part.id.val)) false := rfl
    exact .call _ hmissing (.ret _ _)

theorem exec_keyedWorld : ∃ r, Prog.Exec (system teardownsSucceed) (applyKeyed.prog plainHost)
    .empty r keyedWorld :=
  ⟨_, Prog.exec_run (M := system teardownsSucceed)
    (fun w c => ⟨answers_saAnswer w c, teardownsSucceed_saAnswer w c⟩) _ _⟩

theorem exec_unkeyedWorld : ∃ report, Prog.Exec (system teardownsSucceed)
    (deleteKeyed.prog plainHost) keyedWorld (.ok report) unkeyedWorld ∧ report.errors = [] :=
  ⟨_, Prog.exec_run (M := system teardownsSucceed)
    (fun w c => ⟨answers_okAnswer w c, teardownsSucceed_okAnswer w c⟩) _ _, rfl⟩

theorem teardownsSucceed_unkeyedWorld : ∀ ev ∈ unkeyedWorld.log, teardownsSucceed ev.1 ev.2 := by
  obtain ⟨r, happly⟩ := exec_keyedWorld
  obtain ⟨report, hdelete, -⟩ := exec_unkeyedWorld
  exact log_answers hdelete (log_answers happly fun _ h => absurd h List.not_mem_nil)

/-- The partition as it was applied. -/
theorem keyedWorld_partition : ∃ s ps, keyedWorld.store.get? ⟨"a"⟩ = some s ∧
    s.partitions[(⟨"p"⟩ : PartitionId)]? = some ps := ⟨_, _, rfl, rfl⟩

/-- The answers of a machine on which everything is there and `destroy` succeeds. -/
def stockedAnswer (_ : List LocalEvent) : (c : LocalCall) → LocalResp c
  | .exists_ _ => true
  | .runTf _ _ _ _ _ => .ok (0, "Destroy complete!")
  | .writeRun _ _ _ _ _ _ => ()

/-- The workspaces are on the disk, and the store has the states. -/
def stockedSite : Site := ⟨fun _ => true, fun _ => true⟩

/-- The calls of the teardown that is the newest event. -/
def stockedCalls : List Event → List LocalEvent
  | ⟨.tfTeardown tf enc part authEnv runId, _⟩ :: _ =>
    (Prog.run stockedSite.machine.next stockedAnswer
      (tf.teardownLocal plainHost enc part authEnv runId) []).2
  | _ => []

theorem stocked_traced {log : List Event} (h : ∀ ev ∈ log, teardownsSucceed ev.1 ev.2) :
    (⟨fun _ => stockedSite, stockedCalls⟩ : Teardowns).Traced plainHost log := by
  rintro tf enc part authEnv runId r older hev now
  obtain rfl : r = .ok () := h _ (hev.subset (List.mem_cons_self ..))
  have hrun := Prog.exec_run (M := stockedSite.machine) (o := stockedAnswer)
    (fun _ c => by cases c <;> first | rfl | trivial)
    (tf.teardownLocal plainHost enc part authEnv runId) []
  have hok : (Prog.run stockedSite.machine.next stockedAnswer
      (tf.teardownLocal plainHost enc part authEnv runId) []).1 = .ok () := by
    rw [TerraformBackend.teardownLocal]
    split <;> rfl
  rw [hok] at hrun
  exact hrun

/-- Where the workspace is there, deleting the partition destroys what is in its state. -/
theorem terraform_accounted_destroyed :
    ∃ s ps now, keyedWorld.store.get? ⟨"a"⟩ = some s ∧
      s.partitions[(⟨"p"⟩ : PartitionId)]? = some ps ∧ now <:+ unkeyedWorld.log ∧
      stockedSite.stateHeld s.desired ps.desired = true ∧
      Destroyed plainHost s.desired ps.desired (stockedCalls now) := by
  obtain ⟨s, ps, hs, hps⟩ := keyedWorld_partition
  obtain ⟨report, hdelete, herrors⟩ := exec_unkeyedWorld
  obtain ⟨now, answer, ⟨_, _, _, -, hnow, -⟩, haccounted⟩ :=
    ((terraform_accounted plainHost).2 deleteKeyed keyedWorld unkeyedWorld (.ok report)
      (exec_anyAnswer hdelete) ⟨report, rfl⟩ ⟨"a"⟩ s ⟨"p"⟩ ps hs hps ⟨rfl, rfl⟩ rfl
      ⟨fun _ => stockedSite, stockedCalls⟩ (stocked_traced teardownsSucceed_unkeyedWorld)).1 trivial
  refine ⟨s, ps, now, hs, hps, hnow, rfl, ?_⟩
  rcases haccounted.mpr (.inl rfl) with (⟨e, -, report', hreport, hreported⟩ | hdestroyed) | hnone
  · obtain rfl := Except.ok.inj hreport
    rw [herrors] at hreported
    cases hreported
  · exact hdestroyed
  · cases hnone

/-- **The server has moved** to a machine without the workspaces. A partition is deleted without
an error, its Terraform state is in the store, and no `destroy` was run. -/
theorem moved_server_forgets :
    ∃ w w' report s ps, History anyAnswer plainHost (fun _ _ => True) w ∧
      Prog.Exec (system anyAnswer) (deletePartition ⟨keyedOnly, "", ""⟩ ⟨"a"⟩ ⟨"p"⟩).run w
        (.ok report) w' ∧ report.errors = [] ∧
      w.store.get? ⟨"a"⟩ = some s ∧ s.partitions[(⟨"p"⟩ : PartitionId)]? = some ps ∧
      (∃ s', w'.store.get? ⟨"a"⟩ = some s' ∧ s'.partitions[(⟨"p"⟩ : PartitionId)]? = none) ∧
      diskless.Traced plainHost w'.log ∧
      ∀ now, now <:+ w'.log → (diskless.site now).stateHeld s.desired ps.desired = true ∧
        ¬ Destroyed plainHost s.desired ps.desired (diskless.calls now) := by
  obtain ⟨s, ps, hs, hps⟩ := keyedWorld_partition
  obtain ⟨report, hdelete, herrors⟩ := exec_unkeyedWorld
  refine ⟨keyedWorld, unkeyedWorld, report, s, ps,
    .request applyKeyed .empty trivial visits_keyedWorld, exec_anyAnswer hdelete, herrors, hs, hps,
    ⟨_, rfl, rfl⟩, diskless_traced teardownsSucceed_unkeyedWorld, fun now _ => ⟨rfl, ?_⟩⟩
  rintro ⟨authToken, binary, authEnv, output, hev⟩
  simp only [diskless] at hev
  split at hev
  · split at hev
    · cases hev
    · cases List.mem_singleton.mp hev
  · cases hev

end Nclav
