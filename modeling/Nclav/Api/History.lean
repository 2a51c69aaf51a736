import Nclav.Api.Steps
import Nclav.Reconciler.Steps

/-!
# Histories

The server's requests one after another, from the empty store on. A request may be cut off
between any two of its calls, as when the server is killed. `Always P` says that `P` holds and
has held after every call so far, the store at an earlier time being what the calls up to then
have made of it (`replay`).
-/

namespace Nclav

open Effect

/-- What the calls so far have made of the empty store. -/
def replay : List Event → Store
  | [] => .empty
  | ev :: evs => World.nextStore (replay evs) ev.1 ev.2

/-- Every call has an answer that is admitted. -/
def Answerable (A : (c : Call) → Resp c → Prop) : Prop := ∀ w c, ∃ r, answers w c r ∧ A c r

theorem answerable_anyAnswer : Answerable anyAnswer :=
  fun w c => ⟨okAnswer w c, answers_okAnswer w c, trivial⟩

namespace World

/-- The store is what the calls so far have made of the empty one. -/
def Replayed (w : World) : Prop := w.store = replay w.log

theorem Replayed.next {w : World} (h : w.Replayed) (c : Call) (r : Resp c) :
    (w.next c r).Replayed := by
  rw [Replayed, next_store, next_log, h]
  rfl

theorem Replayed.visits {A : (c : Call) → Resp c → Prop} {α : Type} {p : Sys α} {w v : World}
    (hv : Prog.Visits (system A) p w v) (h : w.Replayed) : v.Replayed := by
  induction hv with
  | here => exact h
  | call r _ _ ih => exact ih (h.next _ r)

/-- The property holds, and held after each of the calls so far. -/
structure Always (P : World → Prop) (w : World) : Prop where
  replayed : w.Replayed
  past : ∀ l, l <:+ w.log → P ⟨replay l, l⟩

section

variable {P : World → Prop} {w : World}

theorem Always.now (h : w.Always P) : P w := by
  have hnow := h.past w.log (List.suffix_refl _)
  rw [← show w.store = replay w.log from h.replayed] at hnow
  exact hnow

theorem Always.empty (h : P .empty) : World.empty.Always P := by
  refine ⟨rfl, fun l hl => ?_⟩
  obtain rfl := List.suffix_nil.mp hl
  exact h

theorem Always.next (h : w.Always P) {c : Call} {r : Resp c} (hP : P (w.next c r)) :
    (w.next c r).Always P := by
  have hreplayed := h.replayed.next c r
  refine ⟨hreplayed, fun l hl => ?_⟩
  rcases List.suffix_cons_iff.mp hl with rfl | hl
  · have heq : (⟨replay (⟨c, r⟩ :: w.log), ⟨c, r⟩ :: w.log⟩ : World) = w.next c r := by
      rw [show replay (⟨c, r⟩ :: w.log) = (w.next c r).store from hreplayed.symm]
      rfl
    rw [heq]
    exact hP
  · exact h.past l hl

/-- A property of the past is one of every world that a run can be cut off at. -/
theorem Always.of_visits {A : (c : Call) → Resp c → Prop} (hA : Answerable A) {α : Type}
    {p : Sys α} (h : ∀ a w', Prog.Exec (system A) p w a w' → w'.Always P) (hw : w.Replayed)
    {v : World} (hv : Prog.Visits (system A) p w v) : v.Always P := by
  refine ⟨hw.visits hv, ?_⟩
  refine hv.of_exec (J := fun v => ∀ l, l <:+ v.log → P ⟨replay l, l⟩) (fun w c => hA w c) ?_
    fun a w' hrun => (h a w' hrun).past
  exact fun w c r hpast l hl => hpast l (hl.trans (List.suffix_cons _ _))

end

end World

/-! ## Reachable worlds -/

/-- The worlds that requests lead to, each possibly cut off. Between two requests the server may
be restarted with other drivers or another API address; the library it hashes with stays. -/
inductive Reachable (host : Host) : World → Prop
  | empty : Reachable host .empty
  | reconcile {w v : World} (fs : FileSystem) (root : Dir) (req : ReconcileRequest)
      (registry : DriverRegistry) : Reachable host w →
      Prog.Visits (system anyAnswer) (reconcile host fs root req registry).run w v →
      Reachable host v
  | deleteEnclave {w v : World} (state : AppState) (id : EnclaveId) (resourcesOnly : Bool) :
      Reachable host w →
      Prog.Visits (system anyAnswer) (deleteEnclave state id resourcesOnly).run w v →
      Reachable host v
  | deletePartition {w v : World} (state : AppState) (id : EnclaveId) (pid : PartitionId) :
      Reachable host w →
      Prog.Visits (system anyAnswer) (deletePartition state id pid).run w v →
      Reachable host v

section

variable {A : (c : Call) → Resp c → Prop} {host : Host} {P : World → Prop}

/-- A reconcile, dry or not, keeps what quiet calls and its passes keep. -/
theorem keeps_reconcile {fs : FileSystem} {root : Dir} {req : ReconcileRequest}
    {registry : DriverRegistry} {I : World → Prop} (hI : ∀ w w', I w → w.Quiet w' → I w')
    (hpasses : ∀ desired, loadEnclaves fs req.enclavesDir root = .ok desired →
      ∀ run resolved removed w w',
      RunStart host req registry desired w run resolved removed → w.Quiet w' → I w → I w' →
      Prog.wpE (system A) (passes run removed (orderedDesired resolved desired))
        (fun _ w'' => I w'') w') :
    Prog.Keeps (system A) I (reconcile host fs root req registry) := by
  intro w hw
  rw [reconcile]
  split
  · exact hw
  rename_i desired hload
  rcases hdry : req.dryRun with _ | _
  · refine Prog.wpE_mono (wpE_reconcileLoaded_keeps (I := I) (J := fun _ _ => True) hdry hI
      (fun _ _ _ _ _ => trivial) (fun run resolved removed w' hstart hw' hI' => ?_) hw)
      fun _ _ h => h.1
    exact Prog.wpE_mono (hpasses desired hload run resolved removed w w' hstart hw' hw hI')
      fun _ _ h => ⟨h, fun _ _ => trivial⟩
  · exact Prog.wpE_mono (wpE_reconcileLoaded_dry hdry) fun _ w' hw' => hI w w' hw hw'

/-- **Invariants of histories.** What holds of the empty world, and is kept by every request at
each of its calls, holds of every reachable world. -/
theorem Reachable.invariant (hempty : P .empty)
    (hreconcile : ∀ fs root req registry,
      Prog.Keeps (system anyAnswer) (World.Always P)
        (Nclav.reconcile host fs root req registry))
    (henclave : ∀ state id resourcesOnly,
      Prog.Keeps (system anyAnswer) (World.Always P) (Nclav.deleteEnclave state id resourcesOnly))
    (hpartition : ∀ state id pid,
      Prog.Keeps (system anyAnswer) (World.Always P) (Nclav.deletePartition state id pid))
    {w : World} (h : Reachable host w) : P w := by
  suffices halways : w.Always P from halways.now
  induction h with
  | empty => exact .empty hempty
  | reconcile fs root req registry _ hv ih =>
    exact .of_visits answerable_anyAnswer
      (fun a w' hrun => hrun.wp (hreconcile fs root req registry ih)) ih.replayed hv
  | deleteEnclave state id resourcesOnly _ hv ih =>
    exact .of_visits answerable_anyAnswer
      (fun a w' hrun => hrun.wp (henclave state id resourcesOnly ih)) ih.replayed hv
  | deletePartition state id pid _ hv ih =>
    exact .of_visits answerable_anyAnswer
      (fun a w' hrun => hrun.wp (hpartition state id pid ih)) ih.replayed hv

end

/-! ## Histories under a condition -/

/-- A request to the server. -/
inductive Request : Type 1 where
  | reconcile (fs : FileSystem) (root : Dir) (req : ReconcileRequest) (registry : DriverRegistry)
  | deleteEnclave (state : AppState) (id : EnclaveId) (resourcesOnly : Bool)
  | deletePartition (state : AppState) (id : EnclaveId) (pid : PartitionId)

/-- What a request answers. -/
def Request.Result : Request → Type
  | .reconcile _ _ _ _ => Except ReconcileError ReconcileReport
  | .deleteEnclave _ _ _ | .deletePartition _ _ _ => Except ApiError DestroyReport

/-- What a request does. -/
def Request.prog (host : Host) : (q : Request) → Sys q.Result
  | .reconcile fs root req registry => (Nclav.reconcile host fs root req registry).run
  | .deleteEnclave state id resourcesOnly => (Nclav.deleteEnclave state id resourcesOnly).run
  | .deletePartition state id pid => (Nclav.deletePartition state id pid).run

/-- The worlds that requests lead to, each possibly cut off and each meeting the condition `C` in
the world where it starts, the answers being restricted by `A`. -/
inductive History (A : (c : Call) → Resp c → Prop) (host : Host) (C : World → Request → Prop) :
    World → Prop
  | empty : History A host C .empty
  | request {w v : World} (q : Request) : History A host C w → C w q →
      Prog.Visits (system A) (q.prog host) w v → History A host C v

/-- What a request that was started in `w₀` may do next. -/
inductive RequestStep (host : Host) (w₀ : World) : Request → World → Call → Prop
  | quiet {q : Request} {w : World} {c : Call} (h : c.isQuiet = true) : RequestStep host w₀ q w c
  | reconcile {fs : FileSystem} {root : Dir} {req : ReconcileRequest} {registry : DriverRegistry}
    {desired : List Enclave} {resolved : ResolvedGraph} {run : Run} {w : World} {c : Call}
    (hload : loadEnclaves fs req.enclavesDir root = .ok desired)
    (hvalid : validate host.topo desired = .ok resolved) (hdry : req.dryRun = false)
    (hhost : run.host = host) (hreq : run.req = req) (hregistry : run.registry = registry)
    (hexisting : ∀ id, run.existing id = w₀.store.get? id) (h : ReconcileStep run desired w c) :
    RequestStep host w₀ (.reconcile fs root req registry) w c
  | deleteEnclave {state : AppState} {id : EnclaveId} {resourcesOnly : Bool} {w : World}
    {c : Call} (h : DeleteStep state id (w₀.store.get? id) (!resourcesOnly) c) :
    RequestStep host w₀ (.deleteEnclave state id resourcesOnly) w c
  | deletePartition {state : AppState} {id : EnclaveId} {pid : PartitionId} {w : World}
    {c : Call} (h : DeleteStep state id (w₀.store.get? id) false c) :
    RequestStep host w₀ (.deletePartition state id pid) w c

/-- The worlds that a request leads to. -/
abbrev Request.Steps (q : Request) (host : Host) (w : World) : World → Prop :=
  Effect.Steps World.next (RequestStep host w q) w

section

variable {A : (c : Call) → Resp c → Prop} {host : Host} {C : World → Request → Prop}
  {P : World → Prop} {q : Request} {w w' : World}

theorem Request.Steps.of_quiet (h : w.Quiet w') : q.Steps host w w' :=
  h.keeps (fun _ c r hc h => .next c r h (.quiet hc)) .refl

/-- **A request follows its steps.** -/
theorem Request.steps {r : q.Result} (hrun : Prog.Exec (system A) (q.prog host) w r w') :
    q.Steps host w w' := by
  cases q with
  | reconcile fs root req registry =>
    rcases hload : loadEnclaves fs req.enclavesDir root with e | desired
    · rw [prog, reconcile_of_load_error hload] at hrun
      cases hrun
      exact .refl
    rw [prog, reconcile_of_loaded hload] at hrun
    rcases steps_of_run hrun with hquiet | ⟨hdry, ⟨resolved, hvalid⟩, run, hhost, hreq,
      hregistry, hexisting, hsteps⟩
    · exact .of_quiet hquiet
    · exact hsteps.mono fun _ _ h =>
        .reconcile hload hvalid hdry hhost hreq hregistry hexisting h
  | deleteEnclave state id resourcesOnly =>
    exact (steps_of_deleteEnclave hrun).mono fun _ _ h => .deleteEnclave h
  | deletePartition state id pid =>
    exact (steps_of_deletePartition hrun).mono fun _ _ h => .deletePartition h

/-- The steps lead through every world where a request may be cut off. -/
theorem Request.steps_of_visits (hA : Answerable A) (hw : w.Replayed)
    (hv : Prog.Visits (system A) (q.prog host) w w') : q.Steps host w w' := by
  -- a run extends to an end, and its steps there are traced back by the log
  have hback : w.log <:+ w'.log → w'.Replayed → q.Steps host w w' := by
    refine hv.of_exec (J := fun v => w.log <:+ v.log → v.Replayed → q.Steps host w v)
      (fun w c => hA w c) (fun v c r hnext hlog hv => ?_) fun _ _ hrun _ _ => Request.steps hrun
    have hsteps := hnext (hlog.trans (List.suffix_cons _ _)) (hv.next c r)
    rcases hsteps.last with hfirst | ⟨u, c', r', hprev, -, hlast⟩
    · rw [← hfirst] at hlog
      exact absurd hlog.length_le (by simp)
    · have hlogs : (⟨c, r⟩ : Event) :: v.log = ⟨c', r'⟩ :: u.log := congrArg World.log hlast
      have hu : u.Replayed := hprev.invariant (fun _ c r _ h => h.next c r) hw
      have heq : v = u := by
        refine World.ext ?_ (List.cons.inj hlogs).2
        rw [show v.store = replay v.log from hv, show u.store = replay u.log from hu,
          (List.cons.inj hlogs).2]
      rw [heq]
      exact hprev
  exact hback (log_suffix_visits hv) (hw.visits hv)

/-- **Invariants of histories under a condition.** What holds of the empty world and is kept by
every step of a request that meets the condition holds of every world of the history. -/
theorem History.invariant (hA : Answerable A) (hempty : P .empty)
    (hstep : ∀ w q, P w → C w q → ∀ w₁ c r, w.log <:+ w₁.log → P w₁ →
      (∀ ev ∈ (w₁.next c r).log, A ev.1 ev.2) → RequestStep host w q w₁ c → P (w₁.next c r))
    (h : History A host C w) : P w := by
  suffices hall : P w ∧ w.Replayed ∧ ∀ ev ∈ w.log, A ev.1 ev.2 from hall.1
  induction h with
  | empty => exact ⟨hempty, rfl, fun _ h => absurd h List.not_mem_nil⟩
  | @request w v q _ hC hv ih =>
    obtain ⟨hw, hreplayed, hlog⟩ := ih
    have hans := log_answers_visits hv hlog
    refine ⟨?_, hreplayed.visits hv, hans⟩
    have hsteps := (Request.steps_of_visits hA hreplayed hv).invariant
      (I := fun w₁ => w.log <:+ w₁.log ∧ ((∀ ev ∈ w₁.log, A ev.1 ev.2) → P w₁))
      (fun w₁ c r hc hw₁ => ⟨hw₁.1.trans (List.suffix_cons _ _), fun hans => ?_⟩)
      ⟨List.suffix_refl _, fun _ => hw⟩
    · exact hsteps.2 hans
    · have hprev := hw₁.2 fun ev hev => hans ev (List.mem_cons_of_mem _ hev)
      exact hstep w q hw hC w₁ c r hw₁.1 hprev hans hc

/-- **Properties of the past of a history.** What requests that meet the condition keep at each of
their calls has held throughout. -/
theorem History.always (hA : Answerable A) (hempty : P .empty)
    (hkeeps : ∀ w q, C w q → w.Always P →
      Prog.wp (system A) (q.prog host) (fun _ w' => w'.Always P) w)
    (h : History A host C w) : w.Always P := by
  induction h with
  | empty => exact .empty hempty
  | request q _ hC hv ih =>
    exact .of_visits hA (fun a w' hrun => hrun.wp (hkeeps _ q hC ih)) ih.replayed hv

/-- The conditions on requests and answers dropped. -/
theorem History.reachable (h : History anyAnswer host C w) : Reachable host w := by
  induction h with
  | empty => exact .empty
  | request q _ _ hv ih =>
    cases q with
    | reconcile fs root req registry => exact .reconcile fs root req registry ih hv
    | deleteEnclave state id resourcesOnly => exact .deleteEnclave state id resourcesOnly ih hv
    | deletePartition state id pid => exact .deletePartition state id pid ih hv

/-- The store of a history is what its calls have made of the empty one. -/
theorem History.replayed (h : History A host C w) : w.Replayed := by
  induction h with
  | empty => rfl
  | request _ _ _ hv ih => exact ih.visits hv

end

end Nclav
