import Nclav.Driver.Local
import Nclav.Reconciler.Reconcile

/-!
# Runs in which nothing fails

Where no driver call fails, Terraform is in test mode and every enclave has a driver, no part of
a run has anything to report.
-/

namespace Nclav

open Effect

/-! ## The teardown pass -/

section

variable {A : (c : Call) → Resp c → Prop} {run : Run}

theorem wpE_teardownRemovedEnclave_faultless (htest : run.req.tfBackend.testMode = true)
    (id : EnclaveId) (existing : EnclaveState) (errors : List ReportError) (w : World) :
    Prog.wpE (system A) (teardownRemovedEnclave run id existing errors)
      (fun r _ => ∀ a, r = .ok a → a = errors) w := by
  rw [teardownRemovedEnclave]
  split
  · rename_i driver handle _ _
    refine Prog.wpE_bind_ok ?_
    rw [Prog.wpE_monadLift, Prog.wp_perform]
    rintro entries - _ ⟨⟩
    refine Prog.wpE_bind_ok (Prog.wpE_mono (Prog.wp_foldlM_ok (fun _ a _ => a = errors) ?_
      (fun _ _ h => h) rfl) fun _ w₁ h₁ errors₁ hr₁ => ?_)
    · rintro pre entry post errors₁ w₁ - rfl
      refine Prog.wpE_bind_ok ?_
      rw [Prog.wpE_monadLift, TerraformBackend.teardown, Prog.wp_perform]
      rintro destroyed ⟨hdestroyed, -⟩ _ ⟨⟩
      obtain rfl : destroyed = .ok () := hdestroyed htest
      rcases entry.2.partitionHandle with _ | handle'
      · simp only
        rintro _ ⟨⟩
        rfl
      · simp only
        refine Prog.wpE_bind_ok ?_
        rw [Prog.wpE_monadLift, Prog.wp_perform]
        rintro _ - _ ⟨⟩ _ ⟨⟩
        rfl
    · obtain rfl := h₁ errors₁ hr₁
      split
      · rintro _ ⟨⟩
        rfl
      · refine Prog.wpE_bind_ok ?_
        rw [wpE_orFail, Prog.wp_perform]
        rintro _ - _ _ _ ⟨⟩
        rfl
  · rintro _ ⟨⟩
    rfl

theorem wpE_teardownPass_faultless (htest : run.req.tfBackend.testMode = true)
    (removed : List EnclaveId) (w : World) :
    Prog.wpE (system A) (teardownPass run removed) (fun r _ => ∀ a, r = .ok a → a = []) w := by
  refine Prog.wp_foldlM_ok (fun _ a _ => a = []) ?_ (fun _ _ h => h) rfl
  rintro pre id post errors w₁ - rfl
  rw [teardownRemoved]
  split
  · rintro _ ⟨⟩
    rfl
  refine Prog.wpE_bind_ok (Prog.wpE_mono (wpE_teardownRemovedEnclave_faultless htest id _ [] w₁)
    fun _ w₂ h₂ errors₂ hr₂ => ?_)
  obtain rfl := h₂ errors₂ hr₂
  refine Prog.wpE_bind_ok ?_
  rw [wpE_orFail, Prog.wp_perform]
  rintro _ - _ _ _ ⟨⟩
  rfl

end

/-! ## The provision pass -/

section

variable {A : (c : Call) → Resp c → Prop} {run : Run} {driver : Driver} {enc : Enclave}

theorem wp_applyPartition_faultless (hA : DriversSucceed A)
    (htest : run.req.tfBackend.testMode = true) {part : Partition}
    {inputs : HashMap String String} {existing : Option Handle} (s : EnclaveState) (w : World) :
    Prog.wp (system A) (applyPartition run driver enc part inputs existing s)
      (fun applied _ => ∃ result, applied.2 = .ok result) w := by
  rintro (e | sa) ⟨-, hsa⟩
  · cases hA _ _ hsa rfl
  rintro r - outputs ⟨houtputs, -⟩
  obtain rfl : outputs = .ok (TerraformBackend.testOutputs part) := houtputs htest
  exact ⟨_, rfl⟩

theorem wpE_provisionPartition_faultless (hA : DriversSucceed A)
    (htest : run.req.tfBackend.testMode = true) (acc : EnclaveState × List ReportError)
    (part : Partition) (w : World) :
    Prog.wpE (system A) (provisionPartition run driver enc acc part)
      (fun r _ => ∀ a, r = .ok a → a.2 = acc.2) w := by
  simp only [provisionPartition]
  split
  · rintro _ ⟨⟩
    rfl
  refine Prog.wpE_bind_ok (wpE_upsertEnclave_ok (Prog.wpE_bind_ok ?_))
  rw [Prog.wpE_monadLift]
  refine Prog.wp_mono (wp_applyPartition_faultless hA htest _ _) ?_
  rintro ⟨s, outcome⟩ w₁ ⟨result, rfl⟩ _ ⟨⟩
  rw [recordPartition]
  refine Prog.wpE_bind_ok ?_
  rw [Prog.wpE_monadLift, Prog.wp_perform]
  rintro now - _ ⟨⟩
  refine Prog.wpE_bind_ok (wpE_appendEvent_ok fun w₂ _ => ?_)
  rintro _ ⟨⟩
  rfl

theorem wpE_provisionEnclave_faultless (hA : DriversSucceed A)
    (htest : run.req.tfBackend.testMode = true)
    (hdriver : ∃ driver, run.registry.forEnclave enc = .ok driver) (errors : List ReportError)
    (w : World) :
    Prog.wpE (system A) (provisionEnclave run errors enc)
      (fun r _ => ∀ a, r = .ok a → a = errors) w := by
  obtain ⟨driver, hdriver⟩ := hdriver
  refine wpE_provisionEnclave_ok hdriver (fun existing result now w₁ _ _ => ?_)
    fun existing e now w₁ w₂ hfailed _ _ => ?_
  · refine wpE_provisionContents_ok ?_
    refine Prog.wpE_mono (Prog.wp_foldlM_ok (fun _ a _ => a.2 = errors) ?_ (fun _ _ h => h) rfl)
      fun _ w₂ h₂ acc hacc => ?_
    · rintro pre part post acc w₂ - rfl
      exact wpE_provisionPartition_faultless hA htest acc part w₂
    refine Prog.wpE_mono (Prog.wp_foldlM_ok (fun _ a _ => a.2 = errors) ?_ (fun _ _ h => h)
      (h₂ acc hacc)) fun _ w₃ h₃ acc' hacc' w₄ _ => h₃ acc' hacc'
    rintro pre ex post acc' w₃ - rfl
    refine wpE_provisionExport_ok (fun _ _ _ _ _ => rfl) fun _ _ hfailed => ?_
    cases hA _ _ hfailed rfl
  · cases hA _ _ hfailed rfl

/-! ## The wiring pass -/

theorem wpE_wireEnclave_faultless (hA : DriversSucceed A) (errors : List ReportError)
    (w : World) :
    Prog.wpE (system A) (wireEnclave run errors enc) (fun r _ => ∀ a, r = .ok a → a = errors) w := by
  rw [wireEnclave]
  split
  · rintro _ ⟨⟩
    rfl
  refine Prog.wpE_bind_ok (wpE_getEnclave_ok fun w₁ _ => ?_)
  split
  · rintro _ ⟨⟩
    rfl
  refine Prog.wpE_bind_ok (Prog.wpE_mono (Prog.wp_foldlM_ok (fun _ a _ => a.errors = errors) ?_
    (fun _ _ h => h) rfl) fun _ w₂ h₂ acc hacc => ?_)
  · rintro pre im post acc w₂ - rfl
    refine wpE_wireImport_ok (fun _ => rfl) (fun _ _ _ => rfl) (fun _ _ _ _ _ _ _ _ _ => rfl)
      fun _ _ _ _ hfailed => ?_
    cases hA _ _ hfailed rfl
  have herrors := h₂ acc hacc
  split
  · refine Prog.wpE_bind_ok (wpE_upsertEnclave_ok ?_)
    rintro _ ⟨⟩
    exact herrors
  · rintro _ ⟨⟩
    exact herrors

end

/-- **Runs in which nothing fails** report no error. -/
theorem errors_of_run {A : (c : Call) → Resp c → Prop} {host : Host} {req : ReconcileRequest}
    {registry : DriverRegistry} {desired : List Enclave} {w w' : World} (hA : DriversSucceed A)
    (htest : req.tfBackend.testMode = true)
    (hdrivers : ∀ enc ∈ desired, ∃ driver, registry.forEnclave enc = .ok driver)
    (hdry : req.dryRun = false) {report : ReconcileReport}
    (hrun : Prog.Exec (system A) (reconcileLoaded host req registry desired).run w
      (.ok report) w') : report.errors = [] := by
  refine (hrun.wp (wpE_reconcileLoaded_keeps (I := fun _ => True) (J := fun _ errors => errors = [])
    hdry (fun _ _ _ _ => trivial) (fun _ _ _ h _ => h) ?_ trivial)).2 report rfl
  intro run resolved removed w₁ hstart _ _
  obtain rfl := hstart.registry_eq
  obtain rfl := hstart.req_eq
  have hdriver : ∀ enc ∈ orderedDesired resolved desired,
      ∃ driver, run.registry.forEnclave enc = .ok driver :=
    fun enc henc => hdrivers enc (mem_of_mem_orderedDesired henc)
  have hok : Prog.wpE (system A) (passes run removed (orderedDesired resolved desired))
      (fun r _ => ∀ errors, r = .ok errors → errors = []) w₁ := by
    refine Prog.wpE_bind_ok (Prog.wpE_mono (wpE_teardownPass_faultless htest removed w₁)
      fun _ w₂ h₂ errors₁ hr₁ => ?_)
    obtain rfl := h₂ errors₁ hr₁
    refine Prog.wpE_bind_ok (Prog.wpE_mono (Prog.wp_foldlM_ok (fun _ a _ => a = []) ?_
      (fun _ _ h => h) rfl) fun _ w₃ h₃ errors₂ hr₂ => ?_)
    · rintro pre enc post errors₂ w₃ hsplit rfl
      exact wpE_provisionEnclave_faultless hA htest (hdriver enc (by simp [hsplit])) [] w₃
    obtain rfl := h₃ errors₂ hr₂
    refine Prog.wp_foldlM_ok (fun _ a _ => a = []) ?_ (fun _ _ h => h) rfl
    rintro pre enc post errors₃ w₄ - rfl
    exact wpE_wireEnclave_faultless hA [] w₄
  exact Prog.wpE_mono hok fun _ _ h => ⟨trivial, h⟩

end Nclav
