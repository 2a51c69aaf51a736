import Nclav.Guarantees.ErrorFree
import Nclav.Guarantees.NothingLost
import Nclav.Guarantees.Provenance

/-!
# Requests side by side

Requests overlap: between any two calls of a reconcile another one may read and write, or an enclave or
one of its partitions may be deleted. Writes are lost then, but whatever record is stored in the end,
or in between, is well-formed, holds nothing that was not told in the audit trail, and holds no handle
that was not returned for what it is stored under.
-/

namespace Nclav

open Effect

/-- A request, whatever it answers. -/
def Request.task (host : Host) (q : Request) : Sys Unit := (q.prog host).bind fun _ => .ret ()

/-- The requests that a server will ever get, none of which has begun. -/
def serverPool {ι : Type} (host : Host) (requests : ι → Request) : Pool ι Call Resp World Unit :=
  ⟨fun i => (requests i).task host, .empty⟩

/-- Any interleaving of their calls, with any answers. -/
abbrev SideBySide {ι : Type} [DecidableEq ι] (s s' : Pool ι Call Resp World Unit) : Prop :=
  Pool.Runs (system anyAnswer) (fun _ _ _ => True) s s'

section

variable {host : Host} {R : World → EnclaveState → Prop} {hR : RecordRule R} {w : World}

theorem task_among
    (hprovision : ∀ (run : Run) errors enc (w : World), run.host = host → w.Records (R w) →
      run.Reads R w → Prog.AmongE (recordContract anyAnswer hR) (fun _ _ => True)
        (provisionEnclave run errors enc) w)
    (hwire : ∀ (run : Run) errors enc (w : World), w.Records (R w) →
      Prog.AmongE (recordContract anyAnswer hR) (fun _ _ => True) (wireEnclave run errors enc) w)
    (hw : w.Records (R w)) (q : Request) :
    (q.task host).Among (recordContract anyAnswer hR) (fun _ _ => True) w := by
  have hdelete : ∀ {ε α : Type} {id : EnclaveId} {Q : α → Prop} {x : ExceptT ε Sys α},
      Prog.CallsE (Call.Deletes id) Q x →
        x.run.Among (recordContract anyAnswer hR) (fun _ _ => True) w := by
    intro ε α id Q x hx
    refine Prog.Among.mono (hx.among (T := recordContract anyAnswer hR) (fun w' c hc s hs => ?_) w)
      fun _ _ _ => trivial
    subst hs
    cases hc
  refine Prog.Among.bind (Q := fun _ _ => True) ?_ hw fun _ w' _ _ _ _ _ _ => trivial
  cases q with
  | reconcile fs root req registry =>
    exact Prog.Among.mono (reconcile_among hprovision hwire hw) fun _ _ _ => trivial
  | deleteEnclave state id resourcesOnly => exact hdelete (deleteEnclave_calls resourcesOnly)
  | deletePartition state id pid => exact hdelete (deletePartition_calls pid)

variable (hR) in
/-- A property of records that the provision and the wiring of an enclave keep is one of every record
that is ever stored. -/
theorem records_of_sideBySide
    (hprovision : ∀ (run : Run) errors enc (w : World), run.host = host → w.Records (R w) →
      run.Reads R w → Prog.AmongE (recordContract anyAnswer hR) (fun _ _ => True)
        (provisionEnclave run errors enc) w)
    (hwire : ∀ (run : Run) errors enc (w : World), w.Records (R w) →
      Prog.AmongE (recordContract anyAnswer hR) (fun _ _ => True) (wireEnclave run errors enc) w)
    {ι : Type} [DecidableEq ι] {requests : ι → Request} {s : Pool ι Call Resp World Unit}
    (h : SideBySide (serverPool host requests) s) : s.world.Records (R s.world) := by
  have hempty : World.empty.Records (R .empty) := by
    intro id s hs
    rw [World.empty, Store.get?_empty] at hs
    cases hs
  obtain ⟨-, hrecords, -⟩ := h.among (T := recordContract anyAnswer hR) (Q := fun _ _ _ => True)
    hempty fun i => task_among hprovision hwire hempty (requests i)
  exact hrecords

/-- A property that each written record has where the records before it have it. -/
theorem records_of_steps {P : EnclaveState → Prop} (hP : RecordRule fun _ s => P s)
    (hsteps : ∀ (run : Run) enc, run.host = host → (∀ s, run.existing enc.id = some s → P s) →
      ∃ C, EnclaveSteps run enc P C)
    (himports : ∀ (s : EnclaveState) importHandles, P s → P { s with importHandles })
    {ι : Type} [DecidableEq ι] {requests : ι → Request} {s : Pool ι Call Resp World Unit}
    (h : SideBySide (serverPool host requests) s) : s.world.Records P := by
  refine records_of_sideBySide hP ?_ ?_ h
  · intro run errors enc w hhost _ hreads
    obtain ⟨C, hsteps⟩ := hsteps run enc hhost fun s hs => (hreads enc.id s hs).2
    refine ((provisionEnclave_records hsteps errors).among (fun w' c hc s hs => ?_) w).mono
      fun _ _ _ => trivial
    subst hs
    cases hc with
    | upsertEnclave _ hs => exact hs
  · intro run errors enc w hw
    exact wireEnclave_among_of (fun {_ s} handles hs => himports s handles hs) errors hw

/-! ## Well-formed records -/

theorem recordRule_wellFormed (host : Host) :
    RecordRule fun _ s => EnclaveState.WellFormed host s where
  later _ h := h
  erase _ h :=
    ⟨h.enclave, h.cloud, fun pid' ps hps => h.partition pid' ps (HashMap.get?_of_erase hps),
      fun pid' ps hps => h.handle pid' ps (HashMap.get?_of_erase hps)⟩

theorem wellFormed_of_sideBySide {ι : Type} [DecidableEq ι] {requests : ι → Request}
    {s : Pool ι Call Resp World Unit} (h : SideBySide (serverPool host requests) s) :
    s.world.Records (EnclaveState.WellFormed host) :=
  records_of_steps (recordRule_wellFormed host)
    (fun _ _ hhost hexisting => ⟨_, enclaveSteps_wellFormed hhost hexisting⟩)
    (fun _ _ hs => ⟨hs.enclave, hs.cloud, hs.partition, hs.handle⟩) h

/-! ## Records by id -/

theorem recordRule_keyed : RecordRule fun _ s => EnclaveState.Keyed s where
  later _ h := h
  erase _ h pid' ps hps := h pid' ps (HashMap.get?_of_erase hps)

theorem keyed_of_sideBySide {ι : Type} [DecidableEq ι] {requests : ι → Request}
    {s : Pool ι Call Resp World Unit} (h : SideBySide (serverPool host requests) s) :
    s.world.Records EnclaveState.Keyed :=
  records_of_steps recordRule_keyed (fun _ _ _ hexisting => ⟨_, enclaveSteps_keyed hexisting⟩)
    (fun _ _ hs => hs) h

end

/-- **Whatever is stored is sound.** In every interleaving of reconciles and deletions, each of which
may stop anywhere, every stored record is well-formed, was told of in the audit trail and holds
nothing that was not returned for it. -/
theorem records_sound_side_by_side {host : Host} {ι : Type} [DecidableEq ι]
    {requests : ι → Request} {s : Pool ι Call Resp World Unit}
    (h : SideBySide (serverPool host requests) s) (id : EnclaveId) (state : EnclaveState)
    (hstate : s.world.store.get? id = some state) :
    state.WellFormed host ∧ state.Audited s.world ∧ state.Sourced s.world := by
  have haccounted : s.world.Records fun state => state.Accounted s.world :=
    records_of_sideBySide recordRule_accounted
      (fun run errors enc w _ hw hreads => provisionEnclave_among errors hw hreads)
      (fun run errors enc w hw => wireEnclave_among errors hw) h
  obtain ⟨haudited, hsourced⟩ := haccounted id state hstate
  exact ⟨wellFormed_of_sideBySide h id state hstate, haudited, hsourced⟩

/-! ### Two reconciles in turns -/

/-- Each makes a call, then the other. -/
def inTurns : Pool Bool Call Resp World Unit :=
  Pool.schedule World.next okAnswer (List.replicate 30 [false, true]).flatten
    (serverPool namingHost fun _ => applyNamed "p")

theorem sideBySide_inTurns :
    SideBySide (serverPool namingHost fun _ => applyNamed "p") inTurns :=
  Pool.runs_schedule (M := system anyAnswer) (fun w c => ⟨answers_okAnswer w c, trivial⟩) _

/-- Both have come to their end, and the record that is stored is sound. -/
theorem inTurns_sound :
    (∀ i, inTurns.threads i = .ret ()) ∧ ∃ state, inTurns.world.store.get? ⟨"a"⟩ = some state ∧
      state.partitions.toList.length = 1 ∧ state.WellFormed namingHost ∧
      state.Audited inTurns.world ∧ state.Sourced inTurns.world := by
  have hends : ∀ i, inTurns.threads i = .ret () := by
    intro i
    cases i with
    | false => rfl
    | true => rfl
  obtain ⟨state, hstate, hpartition⟩ : ∃ state,
      inTurns.world.store.get? ⟨"a"⟩ = some state ∧ state.partitions.toList.length = 1 :=
    ⟨_, rfl, rfl⟩
  exact ⟨hends, state, hstate, hpartition,
    records_sound_side_by_side sideBySide_inTurns ⟨"a"⟩ state hstate⟩

end Nclav
