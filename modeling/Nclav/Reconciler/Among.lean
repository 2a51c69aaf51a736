import Nclav.Effect.Among
import Nclav.Reconciler.Records

/-!
# A run among other requests

The server answers requests side by side, and between two calls of a run others may have read and
written the store. `recordContract` is what they rely on of each other where it is about single
records: every record that is written satisfies `R` in the world where it is written, and `R` is not
lost when more is called.
-/

namespace Nclav

open Effect

/-- A property of records that stays true when more is called and when a partition is dropped. -/
structure RecordRule (R : World → EnclaveState → Prop) : Prop where
  later : ∀ {w w' s}, w.log <:+ w'.log → R w s → R w' s
  erase : ∀ {w s} (pid : PartitionId), R w s → R w { s with partitions := s.partitions.erase pid }

/-- Every record that is written satisfies `R`. -/
def recordContract (A : (c : Call) → Resp c → Prop) {R : World → EnclaveState → Prop}
    (hR : RecordRule R) : Contract (system A) where
  inv w := w.Records (R w)
  le w w' := w.log <:+ w'.log
  guarantee w c := ∀ s, c = .upsertEnclave s → R w s
  le_refl w := List.suffix_refl _
  le_trans h h' := h.trans h'
  step {w c r} hinv hguarantee _ := by
    have hlog : w.log <:+ (w.next c r).log := List.suffix_cons _ _
    have hrecords : (w.next c r).Records (R w) :=
      World.Records.next hinv c r hguarantee fun _ pid _ _ hs => hR.erase pid hs
    exact ⟨hlog, fun id s hs => hR.later hlog (hrecords id s hs)⟩

section

variable {A : (c : Call) → Resp c → Prop} {R : World → EnclaveState → Prop} {hR : RecordRule R}
  {w : World}

theorem amongE_orFail {ε α : Type} {wrap : ε → ReconcileError} {p : Sys (Except ε α)}
    {Q : α → World → Prop}
    (h : p.Among (recordContract A hR) (fun r w' => ∀ a, r = .ok a → Q a w') w) :
    Prog.AmongE (recordContract A hR) Q (orFail wrap p) w := by
  refine Prog.Among.map (h.mono fun r w' hr a ha => ?_)
  cases r with
  | error e => cases ha
  | ok b => exact hr a (congrArg Except.ok (Except.ok.inj ha))

/-- A call that writes no record, and its answer, are in the log. -/
theorem among_perform {c : Call} (hc : ∀ s, c ≠ .upsertEnclave s) :
    (perform c).Among (recordContract A hR) (fun r w' => (⟨c, r⟩ : Event) ∈ w'.log) w := by
  refine Prog.Among.perform (fun w' _ _ s hs => absurd hs (hc s)) fun w' r _ _ _ w'' hle _ => ?_
  exact hle.subset (List.mem_cons_self ..)

theorem amongE_perform {c : Call} (hc : ∀ s, c ≠ .upsertEnclave s) :
    Prog.AmongE (recordContract A hR) (fun r w' => (⟨c, r⟩ : Event) ∈ w'.log)
      (monadLift (perform c) : Rec (Resp c)) w :=
  Prog.AmongE.monadLift (among_perform hc)

theorem among_upsertEnclave {s : EnclaveState} (hs : R w s) :
    (perform (.upsertEnclave s)).Among (recordContract A hR) (fun _ _ => True) w := by
  refine Prog.Among.perform (fun w' hle _ s' hs' => ?_) fun _ _ _ _ _ _ _ _ => trivial
  obtain rfl := Call.upsertEnclave.inj hs'
  exact hR.later hle hs

theorem amongE_upsertEnclave {s : EnclaveState} (hs : R w s) :
    Prog.AmongE (recordContract A hR) (fun _ _ => True) (upsertEnclave s) w :=
  amongE_orFail ((among_upsertEnclave hs).mono fun _ _ _ _ _ => trivial)

/-- The event has been appended. -/
theorem amongE_appendEvent {event : Uuid → DateTime → AuditEvent}
    (hw : w.Records (R w)) :
    Prog.AmongE (recordContract A hR)
      (fun _ w' => ∃ id at_, (⟨.appendEvent (event id at_), .ok ()⟩ : Event) ∈ w'.log)
      (appendEvent event) w := by
  rw [appendEvent]
  refine (amongE_perform (by simp)).bind hw fun id w₁ _ hw₁ _ => ?_
  refine (amongE_perform (by simp)).bind hw₁ fun now w₂ _ hw₂ _ => ?_
  refine amongE_orFail ((among_perform (by simp)).mono fun r w₃ hr a ha => ?_)
  obtain rfl : r = .ok a := ha
  exact ⟨id, now, hr⟩

/-- A record that is read satisfies `R`. -/
theorem amongE_getEnclave {id : EnclaveId} :
    Prog.AmongE (recordContract A hR)
      (fun stored w' => ∀ s, stored = some s → s.desired.id = id ∧ R w' s)
      (storeCall (perform (.getEnclave id))) w := by
  refine amongE_orFail (Prog.Among.perform (by rintro w' - - s ⟨⟩) ?_)
  rintro w' r hle hw' ⟨hr, -⟩ w'' hle' hw'' stored rfl s rfl
  have hs : w'.store.get? id = some s := Eq.symm hr
  exact ⟨Store.id_of_get? hs, hR.later ((List.suffix_cons _ _).trans hle') (hw' id s hs)⟩

/-- So does each record that is listed. -/
theorem amongE_listEnclaves :
    Prog.AmongE (recordContract A hR)
      (fun records w' => ∀ s ∈ records, R w' s)
      (storeCall (perform .listEnclaves)) w := by
  refine amongE_orFail (Prog.Among.perform (by rintro w' - - s ⟨⟩) ?_)
  rintro w' r hle hw' ⟨hr, -⟩ w'' hle' hw'' records rfl s hs
  obtain ⟨entry, hentry, rfl⟩ := List.mem_map.mp ((List.Perm.mem_iff hr).mp hs)
  have hget : w'.store.get? entry.1 = some entry.2 :=
    Std.ExtTreeMap.mem_toList_iff_getElem?_eq_some.mp hentry
  exact hR.later ((List.suffix_cons _ _).trans hle') (hw' _ _ hget)

/-! ## The passes -/

/-- The records that the run has read satisfy `R`. -/
def Run.Reads (run : Run) (R : World → EnclaveState → Prop) (w : World) : Prop :=
  ∀ id s, run.existing id = some s → s.desired.id = id ∧ R w s

theorem Run.Reads.later {run : Run} {w' : World} (hR : RecordRule R) (h : run.Reads R w)
    (hlog : w.log <:+ w'.log) : run.Reads R w' :=
  fun id s hs => ⟨(h id s hs).1, hR.later hlog (h id s hs).2⟩

variable {run : Run}

theorem teardownRemoved_among {id : EnclaveId} (hreads : run.Reads R w) (errors : List ReportError) :
    Prog.AmongE (recordContract A hR) (fun _ _ => True) (teardownRemoved run errors id) w := by
  refine ((teardownRemoved_calls (fun s hs => (hreads id s hs).1) errors).among
    (fun w' c hc s hs => ?_) w).mono fun _ _ _ => trivial
  subst hs
  rcases hc with hc | hc <;> cases hc

/-- A loop over enclaves, in which what the run has read is kept. -/
theorem run_loop_among {β α : Type} {f : β → α → Rec β} {xs : List α} {b : β}
    (hf : ∀ b x (w : World), x ∈ xs → w.Records (R w) → run.Reads R w →
      Prog.AmongE (recordContract A hR) (fun _ _ => True) (f b x) w)
    (hw : w.Records (R w)) (hreads : run.Reads R w) :
    Prog.AmongE (recordContract A hR) (fun _ w' => run.Reads R w') (xs.foldlM f b) w :=
  Prog.AmongE.foldlM (fun _ _ _ hle h => h.later hR hle)
    (fun b x w hx hw h => (hf b x w hx hw h).since.mono fun _ _ hend => h.later hR hend.1) hw hreads

/-- **The passes among others**, from what the provision and the wiring of one enclave keep. -/
theorem passes_among {removed : List EnclaveId} {ordered : List Enclave}
    (hprovision : ∀ errors enc (w : World), enc ∈ ordered → w.Records (R w) → run.Reads R w →
      Prog.AmongE (recordContract A hR) (fun _ _ => True) (provisionEnclave run errors enc) w)
    (hwire : ∀ errors enc (w : World), enc ∈ ordered → w.Records (R w) →
      Prog.AmongE (recordContract A hR) (fun _ _ => True) (wireEnclave run errors enc) w)
    (hw : w.Records (R w)) (hreads : run.Reads R w) :
    Prog.AmongE (recordContract A hR) (fun _ _ => True) (passes run removed ordered) w := by
  rw [passes]
  refine (run_loop_among (fun errors id w _ _ hreads => teardownRemoved_among hreads errors) hw
    hreads).bind hw fun errors w₁ _ hw₁ hreads₁ => ?_
  refine (run_loop_among hprovision hw₁ hreads₁).bind hw₁ fun errors w₂ _ hw₂ hreads₂ => ?_
  exact (run_loop_among (fun errors enc w henc hw _ => hwire errors enc w henc hw) hw₂
    hreads₂).mono fun _ _ _ => trivial

/-- The wiring of an enclave, where `R` does not depend on import handles. -/
theorem wireEnclave_among_of {enc : Enclave}
    (himports : ∀ {w s} importHandles, R w s → R w { s with importHandles })
    (errors : List ReportError) (hw : w.Records (R w)) :
    Prog.AmongE (recordContract A hR) (fun _ _ => True) (wireEnclave run errors enc) w := by
  rw [wireEnclave]
  split
  · exact Prog.AmongE.pure fun _ _ _ => trivial
  rename_i driver _
  refine amongE_getEnclave.bind hw fun stored w₁ _ hw₁ hread => ?_
  rcases stored with _ | s
  · exact Prog.AmongE.pure fun _ _ _ => trivial
  obtain ⟨-, hs⟩ := hread s rfl
  have hloop : Prog.AmongE (recordContract A hR)
      (fun acc _ => acc.encState = { s with importHandles := acc.encState.importHandles })
      (enc.allImports.foldlM (wireImport driver enc) { encState := s, changed := false, errors })
      w₁ := by
    refine ((wireImports_calls _).among (fun w' c hc s' hs' => ?_) w₁).mono fun _ _ hacc => hacc.1
    subst hs'
    cases hc.2
  refine hloop.since.bind hw₁ fun acc w₂ _ hw₂ hacc => ?_
  obtain ⟨hle, hacc⟩ := hacc
  split
  · have hwritten : R w₂ acc.encState := by
      rw [hacc]
      exact himports _ (hR.later hle hs)
    exact (amongE_upsertEnclave hwritten).bind hw₂ fun _ _ _ _ _ =>
      Prog.AmongE.pure fun _ _ _ => trivial
  · exact Prog.AmongE.pure fun _ _ _ => trivial

/-! ## The run -/

theorem applyPasses_among {removed : List EnclaveId} {ordered : List Enclave}
    {changes : List Change} (hw : w.Records (R w)) (hreads : run.Reads R w)
    (hpasses : ∀ w : World, w.Records (R w) → run.Reads R w →
      Prog.AmongE (recordContract A hR) (fun _ _ => True) (passes run removed ordered) w) :
    Prog.AmongE (recordContract A hR) (fun _ _ => True)
      (applyPasses run removed ordered changes) w := by
  rw [applyPasses]
  refine (amongE_perform (by simp)).since.bind hw fun now w₁ _ hw₁ hnow => ?_
  have hstarted : Prog.AmongE (recordContract A hR) (fun _ _ => True)
      (storeCall (perform (.appendEvent (.reconcileStarted run.runId now false)))) w₁ :=
    amongE_orFail ((among_perform (by simp)).mono fun _ _ _ _ _ => trivial)
  refine hstarted.since.bind hw₁ fun _ w₂ _ hw₂ hend => ?_
  refine (hpasses w₂ hw₂ (hreads.later hR (hnow.1.trans hend.1))).bind hw₂ fun errors w₃ _ hw₃ _ => ?_
  refine (amongE_perform (by simp)).bind hw₃ fun now' w₄ _ hw₄ _ => ?_
  have hcompleted : Prog.AmongE (recordContract A hR) (fun _ _ => True) (storeCall (perform
      (.appendEvent (.reconcileCompleted run.runId now' changes.length false)))) w₄ :=
    amongE_orFail ((among_perform (by simp)).mono fun _ _ _ _ _ => trivial)
  exact hcompleted.bind hw₄ fun _ w₅ _ _ _ => Prog.AmongE.pure fun _ _ _ => trivial

/-- The snapshot is made of the records that were listed. -/
theorem mem_of_get?_actualStates {records : List EnclaveState} {id : EnclaveId} {s : EnclaveState}
    (h : (actualStates records)[id]? = some s) : s ∈ records ∧ s.desired.id = id := by
  rw [actualStates, get?_foldl_insert (fun s : EnclaveState => s.desired.id) (fun s => s)] at h
  have hfind : records.reverse.find? (·.desired.id = id) = some s := by simpa using h
  exact ⟨List.mem_reverse.mp (List.mem_of_find?_eq_some hfind), by simpa using List.find?_some hfind⟩

/-- **A reconcile among other requests**, from what the provision and the wiring of one enclave
keep. -/
theorem reconcile_among {host : Host} {fs : FileSystem} {root : Dir} {req : ReconcileRequest}
    {registry : DriverRegistry}
    (hprovision : ∀ (run : Run) errors enc (w : World), run.host = host → w.Records (R w) →
      run.Reads R w →
      Prog.AmongE (recordContract A hR) (fun _ _ => True) (provisionEnclave run errors enc) w)
    (hwire : ∀ (run : Run) errors enc (w : World), w.Records (R w) →
      Prog.AmongE (recordContract A hR) (fun _ _ => True) (wireEnclave run errors enc) w)
    (hw : w.Records (R w)) :
    Prog.AmongE (recordContract A hR) (fun _ _ => True) (reconcile host fs root req registry) w := by
  rw [reconcile]
  split
  · exact Prog.AmongE.throw
  rw [reconcileLoaded]
  split
  · exact Prog.AmongE.throw
  refine amongE_listEnclaves.bind hw fun records w₁ _ hw₁ hrecords => ?_
  refine (amongE_perform (by simp)).since.bind hw₁ fun removed w₂ _ hw₂ hend => ?_
  dsimp only
  split
  · exact Prog.AmongE.pure fun _ _ _ => trivial
  refine (amongE_perform (by simp)).since.bind hw₂ fun runId w₃ _ hw₃ hend' => ?_
  have hreads : Run.Reads ⟨host, req, registry, actualStates records, runId⟩ R w₃ := by
    intro id s hs
    obtain ⟨hmem, hid⟩ := mem_of_get?_actualStates hs
    exact ⟨hid, hR.later (hend.1.trans hend'.1) (hrecords s hmem)⟩
  refine (applyPasses_among hw₃ hreads fun w hw hreads => ?_).bind hw₃ fun _ w₄ _ _ _ =>
    Prog.AmongE.pure fun _ _ _ => trivial
  exact passes_among (fun errors enc w _ hw hreads => hprovision _ errors enc w rfl hw hreads)
    (fun errors enc w _ hw => hwire _ errors enc w hw) hw hreads

end

end Nclav
