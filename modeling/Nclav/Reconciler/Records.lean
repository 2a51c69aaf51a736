import Nclav.Reconciler.Reconcile

/-!
# The records of a run

A run writes records in two places: the provision pass, whose records are those of
`EnclaveSteps`, and the wiring pass, which writes a stored record back with other import
handles. So a property of records that both keep is one of the whole store.
-/

namespace Nclav

open Effect

/-- `I` says of every stored record that it satisfies `R`, and is kept by every call that does
not write another one or drop a partition. -/
structure Stores (R : EnclaveState → Prop) (I : World → Prop) : Prop where
  records : ∀ {w}, I w → ∀ {id s}, w.store.get? id = some s → R s
  next : ∀ {w} c r, I w → (∀ s, c = .upsertEnclave s → R s) →
    (∀ id pid, c ≠ .deletePartition id pid) → I (w.next c r)

/-- Every stored record satisfies `R`. -/
def World.Records (R : EnclaveState → Prop) (w : World) : Prop :=
  ∀ id s, w.store.get? id = some s → R s

section

variable {R : EnclaveState → Prop} {I : World → Prop}

theorem World.Records.next {w : World} (h : w.Records R) (c : Call) (r : Resp c)
    (hupsert : ∀ s, c = .upsertEnclave s → R s)
    (hdelete : ∀ id pid, c = .deletePartition id pid →
      ∀ s, R s → R { s with partitions := s.partitions.erase pid }) :
    (w.next c r).Records R := by
  intro id s hs
  by_cases hstore : (w.next c r).store.get? id = w.store.get? id
  · rw [hstore] at hs
    exact h id s hs
  cases c with
  | upsertEnclave s' =>
    cases r with
    | ok _ =>
      rw [next_store, nextStore, Store.get?_upsert] at hs
      split at hs
      · obtain rfl := Option.some.inj hs
        exact hupsert s' rfl
      · exact h id s hs
    | error e => exact absurd rfl hstore
  | deleteEnclave id' =>
    cases r with
    | ok _ =>
      rw [next_store, nextStore, Store.get?_delete] at hs
      split at hs
      · cases hs
      · exact h id s hs
    | error e => exact absurd rfl hstore
  | deletePartition id' pid =>
    cases r with
    | ok _ =>
      rw [next_store, nextStore, Store.get?_deletePartition] at hs
      split at hs
      · obtain ⟨s', hs', rfl⟩ := Option.map_eq_some_iff.mp hs
        exact hdelete id' pid rfl s' (h id' s' hs')
      · exact h id s hs
    | error e => exact absurd rfl hstore
  | _ => exact absurd rfl hstore

theorem stores_records (R : EnclaveState → Prop) : Stores R (World.Records R) where
  records h _ _ hs := h _ _ hs
  next c r h hupsert hdelete := h.next c r hupsert fun id pid hc => absurd hc (hdelete id pid)

theorem Stores.quiet (hI : Stores R I) {w w' : World} (h : I w) (hquiet : w.Quiet w') : I w' := by
  refine hquiet.keeps (fun w c r hc hw => hI.next c r hw ?_ ?_) h
  · rintro s rfl
    cases hc
  · rintro id pid rfl
    cases hc

end

/-! ## The passes -/

section

variable {A : (c : Call) → Resp c → Prop} {R : EnclaveState → Prop} {I : World → Prop} {run : Run}
  {enc : Enclave}

theorem keeps_teardownRemoved (hI : Stores R I) {id : EnclaveId}
    (hkeyed : ∀ s, run.existing id = some s → s.desired.id = id) (errors : List ReportError) :
    Prog.Keeps (system A) I (teardownRemoved run errors id) := by
  refine (teardownRemoved_calls hkeyed errors).keeps _ fun w c r hc _ hw => hI.next c r hw ?_ ?_
  · rintro s rfl
    rcases hc with hc | hc <;> cases hc
  · rintro id' pid rfl
    rcases hc with hc | hc <;> cases hc

theorem keeps_provisionEnclave {C : EnclaveState → Prop} (hI : Stores R I)
    (hsteps : EnclaveSteps run enc R C) (errors : List ReportError) : Prog.Keeps (system A) I (provisionEnclave run errors enc) := by
  refine (provisionEnclave_records hsteps errors).keeps _ fun w c r hc _ hw => hI.next c r hw ?_ ?_
  · rintro s rfl
    cases hc with
    | upsertEnclave _ h => exact h
  · rintro id pid rfl
    cases hc

theorem keeps_wireEnclave (hI : Stores R I)
    (himports : ∀ s importHandles, R s → R { s with importHandles }) (errors : List ReportError) :
    Prog.Keeps (system A) I (wireEnclave run errors enc) := by
  refine Prog.Keeps.of_ensures (P := fun _ _ => True) fun w hw => ?_
  rw [wireEnclave]
  split
  · exact Prog.Ensures.pure hw trivial
  refine (ensures_getEnclave fun w₁ hw₁ => hI.quiet hw hw₁).bind
    fun stored w₁ hw₁ hend => ?_
  obtain ⟨hstored, hquiet⟩ := hend
  rcases stored with _ | s
  · exact Prog.Ensures.pure hw₁ trivial
  have hs : R s := hI.records hw hstored.symm
  refine Prog.Ensures.bind ((wireImports_calls _).ensures (fun w c r hc _ h => ?_) hw₁)
    fun acc w₂ hw₂ hacc => ?_
  · refine hI.next c r h ?_ ?_
    · rintro s' rfl
      cases hc.2
    · rintro id pid rfl
      cases hc.2
  have hacc' : R acc.encState := by
    rw [hacc.1]
    exact himports s _ hs
  split
  · refine (ensures_upsertEnclave fun r => hI.next _ r hw₂ ?_ (by rintro _ _ ⟨⟩)).bind
      fun _ w₃ hw₃ _ => Prog.Ensures.pure hw₃ trivial
    rintro _ ⟨⟩
    exact hacc'
  · exact Prog.Ensures.pure hw₂ trivial

/-- **The records of the passes.** -/
theorem keeps_passes (hI : Stores R I) {removed : List EnclaveId} {ordered : List Enclave}
    (hkeyed : ∀ id s, run.existing id = some s → s.desired.id = id)
    (hsteps : ∀ enc ∈ ordered, ∃ C, EnclaveSteps run enc R C)
    (himports : ∀ s importHandles, R s → R { s with importHandles }) :
    Prog.Keeps (system A) I (passes run removed ordered) :=
  (Prog.Keeps.foldlM (fun errors id _ => keeps_teardownRemoved hI (hkeyed id) errors) _).bind
    fun _ => (Prog.Keeps.foldlM (fun errors enc henc =>
      (hsteps enc henc).elim fun _ h => keeps_provisionEnclave hI h errors) _).bind
        fun _ => Prog.Keeps.foldlM (fun errors _ _ => keeps_wireEnclave hI himports errors) _

end

end Nclav
