import Nclav.System.Call

/-!
# What one enclave sees of a run

A call of a driver or of Terraform is about one enclave, its `subject`, and a write of the
store changes one record. The view of an enclave is its record together with the calls about
it, and only a call that touches the enclave changes it. So what a pass does to an enclave
is proved where that enclave is visited, and carried over the rest of the pass.
-/

namespace Nclav

open Effect

/-- The enclave that a driver or Terraform call is about. -/
def Call.subject : Call → Option EnclaveId
  | .provisionEnclave _ enc _ => some enc.id
  | .teardownEnclave _ enc _ => some enc.id
  | .provisionPartition _ enc _ _ _ => some enc.id
  | .teardownPartition _ enc _ _ => some enc.id
  | .provisionExport _ enc _ _ _ => some enc.id
  | .provisionImport _ importer _ _ _ => some importer.id
  | .listPartitionResources _ enc _ _ => some enc.id
  | .tfProvision _ enc _ _ _ _ => some enc.id
  | .tfTeardown _ enc _ _ _ => some enc.id
  | _ => none

/-- The record that a store call writes. -/
def Call.written : Call → Option EnclaveId
  | .upsertEnclave s => some s.desired.id
  | .deleteEnclave id => some id
  | .deletePartition id _ => some id
  | _ => none

/-- The call is about the enclave or writes its record. -/
def Call.Touches (c : Call) (id : EnclaveId) : Prop := c.subject = some id ∨ c.written = some id

theorem Call.not_touches_of_isQuiet {c : Call} (hc : c.isQuiet = true) (id : EnclaveId) :
    ¬ c.Touches id := by
  rintro (h | h) <;> cases c <;> first | (cases hc; done) | cases h

namespace World

/-- The calls about an enclave. -/
def trace (w : World) (id : EnclaveId) : List Event :=
  w.log.filter fun ev => ev.1.subject = some id

/-- The enclave has the same record and the same calls. -/
structure SameView (id : EnclaveId) (w w' : World) : Prop where
  store : w'.store.get? id = w.store.get? id
  trace : w'.trace id = w.trace id

section

variable {id : EnclaveId} {w w' w'' : World}

theorem SameView.refl (id : EnclaveId) (w : World) : SameView id w w := ⟨rfl, rfl⟩

theorem SameView.trans (h : SameView id w w') (h' : SameView id w' w'') : SameView id w w'' :=
  ⟨h'.store.trans h.store, h'.trace.trans h.trace⟩

theorem SameView.symm (h : SameView id w w') : SameView id w' w := ⟨h.store.symm, h.trace.symm⟩

theorem trace_next_of_subject {c : Call} (hc : c.subject = some id) (w : World) (r : Resp c) :
    (w.next c r).trace id = ⟨c, r⟩ :: w.trace id := by
  rw [trace, next_log, List.filter_cons, if_pos (by simpa using hc)]
  rfl

theorem trace_next_of_ne {c : Call} (hc : c.subject ≠ some id) (w : World) (r : Resp c) :
    (w.next c r).trace id = w.trace id := by
  rw [trace, next_log, List.filter_cons, if_neg (by simpa using hc)]
  rfl

theorem get?_nextStore_of_ne {c : Call} (hc : c.written ≠ some id) (st : Store) (r : Resp c) :
    (nextStore st c r).get? id = st.get? id := by
  cases c with
  | upsertEnclave s =>
    have hne : id ≠ s.desired.id := fun h => hc (by rw [h]; rfl)
    cases r with
    | ok _ => exact (Store.get?_upsert ..).trans (if_neg hne)
    | error e => rfl
  | deleteEnclave id' =>
    have hne : id ≠ id' := fun h => hc (by rw [h]; rfl)
    cases r with
    | ok _ => exact (Store.get?_delete ..).trans (if_neg hne)
    | error e => rfl
  | deletePartition id' pid =>
    have hne : id ≠ id' := fun h => hc (by rw [h]; rfl)
    cases r with
    | ok _ => exact (Store.get?_deletePartition ..).trans (if_neg hne)
    | error e => rfl
  | _ => rfl

theorem sameView_next {c : Call} (hc : ¬ c.Touches id) (w : World) (r : Resp c) :
    SameView id w (w.next c r) :=
  ⟨get?_nextStore_of_ne (fun h => hc (.inr h)) w.store r,
    trace_next_of_ne (fun h => hc (.inl h)) w r⟩

theorem Quiet.sameView (h : w.Quiet w') (id : EnclaveId) : SameView id w w' := by
  obtain ⟨hstore, evs, hlog, hevs⟩ := h
  refine ⟨by rw [hstore], ?_⟩
  have hnone : (evs.filter fun ev => ev.1.subject = some id) = [] := by
    refine List.filter_eq_nil_iff.mpr fun ev hev => ?_
    have hnot := Call.not_touches_of_isQuiet (hevs ev hev) id
    simpa using fun h => hnot (.inl h)
  rw [trace, trace, hlog, List.filter_append, hnone, List.nil_append]

theorem mem_trace {ev : Event} : ev ∈ w.trace id ↔ ev ∈ w.log ∧ ev.1.subject = some id := by
  rw [trace, List.mem_filter, decide_eq_true_eq]

/-- Looking for the newest event of a kind, the calls about the enclave are enough. -/
theorem findSome?_trace {β : Type} {f : Event → Option β}
    (hf : ∀ ev : Event, ev.1.subject ≠ some id → f ev = none) (w : World) :
    (w.trace id).findSome? f = w.log.findSome? f := by
  rw [trace]
  induction w.log with
  | nil => rfl
  | cons ev evs ih =>
    rw [List.filter_cons]
    by_cases hev : ev.1.subject = some id
    · rw [if_pos (by simpa using hev), List.findSome?_cons, List.findSome?_cons, ih]
    · rw [if_neg (by simpa using hev), ih, List.findSome?_cons, hf ev hev]

theorem find?_trace {f : Event → Bool} (hf : ∀ ev : Event, ev.1.subject ≠ some id → f ev = false)
    (w : World) : (w.trace id).find? f = w.log.find? f := by
  rw [trace, List.find?_filter]
  congr 1
  funext ev
  by_cases hev : ev.1.subject = some id
  · simp [hev]
  · simp [hev, hf ev hev]

end

end World

/-- Calls that do not touch an enclave leave its view alone. -/
theorem keeps_sameView {A : (c : Call) → Resp c → Prop} {ε α : Type} {P : Call → Prop}
    {Q : α → Prop} {x : ExceptT ε Sys α} (hx : Prog.CallsE P Q x) {id : EnclaveId}
    (hP : ∀ c, P c → ¬ c.Touches id) (w : World) :
    Prog.Keeps (system A) (w.SameView id) x :=
  hx.keeps _ fun w' _ r hc _ h => h.trans (World.sameView_next (hP _ hc) w' r)

end Nclav
