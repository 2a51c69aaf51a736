import Nclav.Driver.Driver
import Nclav.Effect.Prog
import Nclav.Topo.Digraph

/-!
# The calls of the system

What the server does besides computing: it calls the state store, the drivers, Terraform,
the clock and the random source, and it iterates over hash maps in an order it does not
choose. `Call` lists these calls and `Resp` their answers.

`system A` is the machine they run on. Its world is the state store and the log of all
calls with their answers, newest first. Store calls either fail and change nothing or do what
they say, drivers and Terraform answer anything, and `A` restricts the answers further where
a result needs it (no store failure, drivers that are functions of their arguments).
-/

namespace Nclav

open Effect

/-- What the server takes from libraries and from its environment. -/
structure Host : Type where
  /-- SHA-256, in hex, of the JSON text of a document -/
  digest : Serde.Value → String
  /-- the graph algorithms -/
  topo : Topo.TopoSort
  /-- `$HOME` -/
  home : String

/-- The calls the server makes. -/
inductive Call : Type where
  -- `StateStore`
  | getEnclave (id : EnclaveId)
  | listEnclaves
  | upsertEnclave (state : EnclaveState)
  | deleteEnclave (id : EnclaveId)
  | deletePartition (enclaveId : EnclaveId) (partitionId : PartitionId)
  | appendEvent (event : AuditEvent)
  -- `Driver`
  | provisionEnclave (driver : Driver) (enclave : Enclave) (existing : Option Handle)
  | teardownEnclave (driver : Driver) (enclave : Enclave) (handle : Handle)
  | provisionPartition (driver : Driver) (enclave : Enclave) (partition : Partition)
      (resolvedInputs : HashMap String String) (existing : Option Handle)
  | teardownPartition (driver : Driver) (enclave : Enclave) (partition : Partition)
      (handle : Handle)
  | provisionExport (driver : Driver) (enclave : Enclave) (ex : Export)
      (partitionOutputs : HashMap String String) (existing : Option Handle)
  | provisionImport (driver : Driver) (importer : Enclave) (im : Import)
      (exportHandle : Handle) (existing : Option Handle)
  | listPartitionResources (driver : Driver) (enclave : Enclave) (encHandle : Handle)
      (partition : Partition)
  -- `TerraformBackend`: the subprocesses of a provision or a teardown
  | tfProvision (tf : TerraformBackend) (enclave : Enclave) (partition : Partition)
      (resolvedInputs authEnv : HashMap String String) (reconcileRunId : Option Uuid)
  | tfTeardown (tf : TerraformBackend) (enclave : Enclave) (partition : Partition)
      (authEnv : HashMap String String) (reconcileRunId : Option Uuid)
  -- `Utc::now`, `Uuid::new_v4`
  | now
  | newUuid
  -- the iteration order of a `HashSet` or `HashMap`
  | enclaveOrder (ids : List EnclaveId)
  | partitionOrder (entries : List (PartitionId × PartitionState))

/-- The answers to a call. -/
@[reducible] def Resp : Call → Type
  | .getEnclave _ => Except StoreError (Option EnclaveState)
  | .listEnclaves => Except StoreError (List EnclaveState)
  | .upsertEnclave _ => Except StoreError Unit
  | .deleteEnclave _ => Except StoreError Unit
  | .deletePartition _ _ => Except StoreError Unit
  | .appendEvent _ => Except StoreError Unit
  | .provisionEnclave _ _ _ => Except DriverError ProvisionResult
  | .teardownEnclave _ _ _ => Except DriverError Unit
  | .provisionPartition _ _ _ _ _ => Except DriverError ProvisionResult
  | .teardownPartition _ _ _ _ => Except DriverError Unit
  | .provisionExport _ _ _ _ _ => Except DriverError ProvisionResult
  | .provisionImport _ _ _ _ _ => Except DriverError ProvisionResult
  | .listPartitionResources _ _ _ _ => Except DriverError (List String)
  | .tfProvision _ _ _ _ _ _ => Except DriverError (HashMap String String)
  | .tfTeardown _ _ _ _ _ => Except DriverError Unit
  | .now => DateTime
  | .newUuid => Uuid
  | .enclaveOrder ids => {l : List EnclaveId // l.Perm ids}
  | .partitionOrder entries => {l : List (PartitionId × PartitionState) // l.Perm entries}

/-- A call with its answer. -/
abbrev Event : Type := (c : Call) × Resp c

abbrev Sys : Type → Type := Prog Call Resp

/-- Make one call. -/
abbrev perform (c : Call) : Sys (Resp c) := Prog.perform c

/-! ## The store -/

/-- The enclave records, each under its own id. -/
@[ext] structure Store : Type where
  enclaves : HashMap EnclaveId EnclaveState
  keyed : ∀ (id : EnclaveId) (s : EnclaveState), enclaves[id]? = some s → s.desired.id = id

namespace Store

def empty : Store where
  enclaves := ∅
  keyed := fun id s h => by simp at h

/-- The record stored under an id. -/
def get? (st : Store) (id : EnclaveId) : Option EnclaveState := st.enclaves[id]?

/-- `upsert_enclave`: replace the whole record. -/
def upsert (st : Store) (s : EnclaveState) : Store where
  enclaves := st.enclaves.insert s.desired.id s
  keyed := fun id s' h => by
    rw [HashMap.get?_insert] at h
    by_cases hid : id = s.desired.id
    · rw [if_pos hid] at h
      rw [hid, ← Option.some.inj h]
    · rw [if_neg hid] at h
      exact st.keyed id s' h

/-- `delete_enclave`. -/
def delete (st : Store) (id : EnclaveId) : Store where
  enclaves := st.enclaves.erase id
  keyed := fun id' s h => by
    rw [HashMap.get?_erase] at h
    by_cases hid : id' = id
    · rw [if_pos hid] at h
      cases h
    · rw [if_neg hid] at h
      exact st.keyed id' s h

/-- `delete_partition`: drop one partition from a record, if the record is there. -/
def deletePartition (st : Store) (id : EnclaveId) (pid : PartitionId) : Store :=
  match st.get? id with
  | some s => st.upsert { s with partitions := s.partitions.erase pid }
  | none => st

@[simp] theorem get?_empty (id : EnclaveId) : empty.get? id = none := by
  simp [empty, get?]

@[simp] theorem get?_upsert (st : Store) (s : EnclaveState) (id : EnclaveId) :
    (st.upsert s).get? id = if id = s.desired.id then some s else st.get? id :=
  HashMap.get?_insert _ _ _ _

@[simp] theorem get?_delete (st : Store) (id id' : EnclaveId) :
    (st.delete id).get? id' = if id' = id then none else st.get? id' :=
  HashMap.get?_erase _ _ _

theorem id_of_get? {st : Store} {id : EnclaveId} {s : EnclaveState} (h : st.get? id = some s) :
    s.desired.id = id :=
  st.keyed id s h

theorem get?_deletePartition (st : Store) (id id' : EnclaveId) (pid : PartitionId) :
    (st.deletePartition id pid).get? id' =
      if id' = id then (st.get? id).map fun s => { s with partitions := s.partitions.erase pid }
      else st.get? id' := by
  rw [deletePartition]
  cases h : st.get? id with
  | none =>
    by_cases hid : id' = id
    · rw [if_pos hid, hid, h, Option.map_none]
    · rw [if_neg hid]
  | some s =>
    have hkey : s.desired.id = id := id_of_get? h
    simp [hkey]

/-- The handle stored under an export's name. -/
def exportHandle (st : Store) (id : EnclaveId) (name : String) : Option Handle :=
  (st.get? id).bind (·.exportHandles[name]?)

/-- The handle that an alias is bound to. -/
def importHandle (st : Store) (id : EnclaveId) (alias_ : String) : Option Handle :=
  (st.get? id).bind (·.importHandles[alias_]?)

/-- The record of a partition. -/
def partition (st : Store) (id : EnclaveId) (pid : PartitionId) : Option PartitionState :=
  (st.get? id).bind (·.partitions[pid]?)

end Store

/-! ## The machine -/

/-- The state store, and the calls made so far, newest first. -/
@[ext] structure World : Type where
  store : Store
  log : List Event

namespace World

def empty : World := ⟨.empty, []⟩

/-- A world with the given store and no calls made. -/
def ofStore (st : Store) : World := ⟨st, []⟩

/-- The store after a call was answered. -/
def nextStore (st : Store) : (c : Call) → Resp c → Store
  | .upsertEnclave s, .ok _ => st.upsert s
  | .deleteEnclave id, .ok _ => st.delete id
  | .deletePartition id pid, .ok _ => st.deletePartition id pid
  | _, _ => st

/-- The world after a call was answered. -/
def next (w : World) (c : Call) (r : Resp c) : World := ⟨nextStore w.store c r, ⟨c, r⟩ :: w.log⟩

@[simp] theorem next_log (w : World) (c : Call) (r : Resp c) :
    (w.next c r).log = ⟨c, r⟩ :: w.log := rfl

@[simp] theorem next_store (w : World) (c : Call) (r : Resp c) :
    (w.next c r).store = nextStore w.store c r := rfl

end World

namespace TerraformBackend

/-- The stubbed outputs of test mode. -/
def testOutputs (partition : Partition) : HashMap String String :=
  partition.declaredOutputs.foldl (fun m k => m.insert k s!"test://{k}") ∅

end TerraformBackend

/-- What the store and the test mode of Terraform admit. -/
def answers (w : World) : (c : Call) → Resp c → Prop
  | .getEnclave id, .ok s => s = w.store.get? id
  | .listEnclaves, .ok l => l.Perm (w.store.enclaves.toList.map (·.2))
  | .tfProvision tf _ part _ _ _, r => tf.testMode = true → r = .ok (TerraformBackend.testOutputs part)
  | .tfTeardown tf _ _ _ _, r => tf.testMode = true → r = .ok ()
  | _, _ => True

/-- The machine of the system, its answers restricted by `A`. -/
def system (A : (c : Call) → Resp c → Prop) : Machine Call Resp World where
  adm w c r := answers w c r ∧ A c r
  next := World.next

@[simp] theorem system_next (A : (c : Call) → Resp c → Prop) :
    (system A).next = World.next := rfl

@[simp] theorem system_adm (A : (c : Call) → Resp c → Prop) (w : World) (c : Call)
    (r : Resp c) : (system A).adm w c r ↔ answers w c r ∧ A c r := Iff.rfl

/-- Any answer. -/
def anyAnswer (c : Call) (_ : Resp c) : Prop := True

/-- A call of the state store. -/
def Call.isStore : Call → Bool
  | .getEnclave _ | .listEnclaves | .upsertEnclave _ | .deleteEnclave _ | .deletePartition _ _
  | .appendEvent _ => true
  | _ => false

/-- An answer that is an error. -/
def failed : (c : Call) → Resp c → Bool
  | .getEnclave _, .error _ => true
  | .listEnclaves, .error _ => true
  | .upsertEnclave _, .error _ => true
  | .deleteEnclave _, .error _ => true
  | .deletePartition _ _, .error _ => true
  | .appendEvent _, .error _ => true
  | .provisionEnclave _ _ _, .error _ => true
  | .teardownEnclave _ _ _, .error _ => true
  | .provisionPartition _ _ _ _ _, .error _ => true
  | .teardownPartition _ _ _ _, .error _ => true
  | .provisionExport _ _ _ _ _, .error _ => true
  | .provisionImport _ _ _ _ _, .error _ => true
  | .listPartitionResources _ _ _ _, .error _ => true
  | .tfProvision _ _ _ _ _ _, .error _ => true
  | .tfTeardown _ _ _ _ _, .error _ => true
  | _, _ => false

/-- No store call fails. -/
def storeOk (c : Call) (r : Resp c) : Prop := c.isStore = true → failed c r = false

/-- No call fails. -/
def allOk (c : Call) (r : Resp c) : Prop := failed c r = false

/-- A call whose failure ends a run of the reconciler. -/
def Call.isFatal : Call → Bool
  | .teardownEnclave _ _ _ => true
  | c => c.isStore

/-- A call of a driver. -/
def Call.isDriver : Call → Bool
  | .provisionEnclave _ _ _ | .teardownEnclave _ _ _ | .provisionPartition _ _ _ _ _
  | .teardownPartition _ _ _ _ | .provisionExport _ _ _ _ _ | .provisionImport _ _ _ _ _
  | .listPartitionResources _ _ _ _ => true
  | _ => false

/-- The drivers are functions of their arguments. -/
def answersBy (F : (c : Call) → Resp c) (c : Call) (r : Resp c) : Prop :=
  c.isDriver = true → r = F c

/-- No store call may fail. -/
def StoreSafe (A : (c : Call) → Resp c → Prop) : Prop :=
  ∀ c r, A c r → c.isStore = true → failed c r = false

/-- No call whose failure ends a run may fail. -/
def NeverAborts (A : (c : Call) → Resp c → Prop) : Prop :=
  ∀ c r, A c r → c.isFatal = true → failed c r = false

theorem NeverAborts.storeSafe {A : (c : Call) → Resp c → Prop} (h : NeverAborts A) :
    StoreSafe A := fun c r hr hc => h c r hr (by cases c <;> first | exact hc | rfl)

theorem neverAborts_allOk : NeverAborts allOk := fun _ _ h _ => h

/-- An outcome without errors: Terraform answers as in test mode, an export's handle is its
name, and an import's handle is that of its export. -/
def okAnswer (w : World) : (c : Call) → Resp c
  | .getEnclave id => .ok (w.store.get? id)
  | .listEnclaves => .ok (w.store.enclaves.toList.map fun e => e.2)
  | .upsertEnclave _ => .ok ()
  | .deleteEnclave _ => .ok ()
  | .deletePartition _ _ => .ok ()
  | .appendEvent _ => .ok ()
  | .provisionEnclave _ _ _ => .ok ⟨.null, ∅⟩
  | .teardownEnclave _ _ _ => .ok ()
  | .provisionPartition _ _ _ _ _ => .ok ⟨.null, ∅⟩
  | .teardownPartition _ _ _ _ => .ok ()
  | .provisionExport _ _ ex _ _ => .ok ⟨.str ex.name, ∅⟩
  | .provisionImport _ _ _ exportHandle _ => .ok ⟨exportHandle, ∅⟩
  | .listPartitionResources _ _ _ _ => .ok []
  | .tfProvision _ _ part _ _ _ => .ok (TerraformBackend.testOutputs part)
  | .tfTeardown _ _ _ _ _ => .ok ()
  | .now => 0
  | .newUuid => 0
  | .enclaveOrder ids => ⟨ids, List.Perm.refl _⟩
  | .partitionOrder entries => ⟨entries, List.Perm.refl _⟩

theorem answers_okAnswer (w : World) (c : Call) : answers w c (okAnswer w c) := by
  cases c with
  | getEnclave => rfl
  | listEnclaves => exact List.Perm.refl _
  | tfProvision => exact fun _ => rfl
  | tfTeardown => exact fun _ => rfl
  | _ => trivial

theorem allOk_okAnswer (w : World) (c : Call) : allOk c (okAnswer w c) := by
  cases c <;> rfl

/-- Every call has an answer that is no error. -/
theorem exists_answer_ok (w : World) (c : Call) : ∃ r, answers w c r ∧ allOk c r :=
  ⟨okAnswer w c, answers_okAnswer w c, allOk_okAnswer w c⟩

/-- The run without errors is a run of the system. -/
theorem exec_okAnswer {α : Type} (p : Sys α) (w : World) :
    Prog.Exec (system anyAnswer) p w (Prog.run World.next okAnswer p w).1
      (Prog.run World.next okAnswer p w).2 :=
  Prog.exec_run (M := system anyAnswer) (fun w c => ⟨answers_okAnswer w c, trivial⟩) p w

/-- A run under a restriction of the answers is a run under a weaker one. -/
theorem exec_weaken {A A' : (c : Call) → Resp c → Prop} (hA : ∀ c r, A c r → A' c r) {α : Type}
    {p : Sys α} {w w' : World} {a : α} (h : Prog.Exec (system A) p w a w') :
    Prog.Exec (system A') p w a w' := by
  have hadm : ∀ w c r, (system A).adm w c r → (system A').adm w c r :=
    fun _ _ _ h => ⟨h.1, hA _ _ h.2⟩
  exact h.mono hadm rfl

theorem exec_anyAnswer {A : (c : Call) → Resp c → Prop} {α : Type} {p : Sys α} {w w' : World}
    {a : α} (h : Prog.Exec (system A) p w a w') : Prog.Exec (system anyAnswer) p w a w' :=
  exec_weaken (fun _ _ _ => trivial) h

theorem storeOk_of_allOk (c : Call) (r : Resp c) (h : allOk c r) : storeOk c r := fun _ => h

/-- What was called stays in the log. -/
theorem log_subset {A : (c : Call) → Resp c → Prop} {α : Type} {p : Sys α} {w w' : World} {a : α}
    (h : Prog.Exec (system A) p w a w') : w.log ⊆ w'.log := by
  induction h with
  | ret => exact fun _ h => h
  | call r _ _ ih => exact fun ev hev => ih (List.mem_cons_of_mem _ hev)

/-- The answers in the log are admitted ones. -/
theorem log_answers {A : (c : Call) → Resp c → Prop} {α : Type} {p : Sys α} {w w' : World} {a : α}
    (h : Prog.Exec (system A) p w a w') (hw : ∀ ev ∈ w.log, A ev.1 ev.2) :
    ∀ ev ∈ w'.log, A ev.1 ev.2 := by
  induction h with
  | ret => exact hw
  | call r hr _ ih =>
    refine ih fun ev hev => ?_
    rcases List.mem_cons.mp hev with rfl | hev
    · exact hr.2
    · exact hw ev hev

theorem log_answers_visits {A : (c : Call) → Resp c → Prop} {α : Type} {p : Sys α}
    {w v : World} (h : Prog.Visits (system A) p w v) (hw : ∀ ev ∈ w.log, A ev.1 ev.2) :
    ∀ ev ∈ v.log, A ev.1 ev.2 := by
  induction h with
  | here => exact hw
  | call r hr _ ih => exact ih (List.forall_mem_cons.mpr ⟨hr.2, hw⟩)

theorem log_suffix_visits {A : (c : Call) → Resp c → Prop} {α : Type} {p : Sys α} {w v : World}
    (h : Prog.Visits (system A) p w v) : w.log <:+ v.log := by
  induction h with
  | here => exact List.suffix_refl _
  | call r _ _ ih => exact (List.suffix_cons _ _).trans ih

/-- A call of this kind was made. -/
def World.Logged (w : World) (p : Event → Prop) : Prop := ∃ ev ∈ w.log, p ev

theorem World.Logged.exec {A : (c : Call) → Resp c → Prop} {α : Type} {q : Sys α} {w w' : World}
    {a : α} {p : Event → Prop} (h : w.Logged p) (hrun : Prog.Exec (system A) q w a w') :
    w'.Logged p := by
  obtain ⟨ev, hev, hp⟩ := h
  exact ⟨ev, log_subset hrun hev, hp⟩

theorem World.logged_next (w : World) {c : Call} {r : Resp c} {p : Event → Prop} (h : p ⟨c, r⟩) :
    (w.next c r).Logged p :=
  ⟨⟨c, r⟩, List.mem_cons_self .., h⟩

section

variable {A : (c : Call) → Resp c → Prop} {ε α β : Type} {p : Event → Prop}

/-- What is logged by the first part is logged by the whole. -/
theorem wpE_bind_logged {x : ExceptT ε Sys α} {f : α → ExceptT ε Sys β} {w : World}
    (h : Prog.wpE (system A) x (fun r w' => ∀ a, r = .ok a → w'.Logged p) w) :
    Prog.wpE (system A) (x >>= f) (fun r w' => ∀ b, r = .ok b → w'.Logged p) w := by
  refine Prog.wpE_bind_ok (Q := fun _ w => w.Logged p) (Prog.wpE_mono h fun r w₁ h₁ a hr => ?_)
  exact Prog.wp_iff.mpr fun _ _ hrest _ _ => (h₁ a hr).exec hrest

/-- What is logged by the second part is logged by the whole. -/
theorem wpE_bind_logs {x : ExceptT ε Sys α} {f : α → ExceptT ε Sys β} {w : World}
    (h : ∀ a w, Prog.wpE (system A) (f a) (fun r w' => ∀ b, r = .ok b → w'.Logged p) w) :
    Prog.wpE (system A) (x >>= f) (fun r w' => ∀ b, r = .ok b → w'.Logged p) w :=
  Prog.wpE_bind_ok (Q := fun _ w => w.Logged p) (Prog.wp_iff.mpr fun _ w₁ _ a _ => h a w₁)

/-- What is logged on the way past one element is logged by the whole loop. -/
theorem wpE_foldlM_logged {f : β → α → ExceptT ε Sys β} {xs : List α} {x : α} (hx : x ∈ xs)
    (hstep : ∀ b w, Prog.wpE (system A) (f b x) (fun r w' => ∀ b', r = .ok b' → w'.Logged p) w)
    (b : β) (w : World) :
    Prog.wpE (system A) (xs.foldlM f b) (fun r w' => ∀ b', r = .ok b' → w'.Logged p) w := by
  induction xs generalizing b w with
  | nil => cases hx
  | cons y ys ih =>
    rw [List.foldlM_cons]
    rcases List.mem_cons.mp hx with rfl | hx
    · exact wpE_bind_logged (hstep b w)
    · exact wpE_bind_logs fun b' w' => ih hx b' w'

end

/-! ## Quiet calls

Reading the store, the clock and the random source, and the audit log, leave nothing behind
that a later part of a run looks at. -/

/-- A call that changes no record and reaches no driver. -/
def Call.isQuiet : Call → Bool
  | .getEnclave _ | .listEnclaves | .appendEvent _ | .now | .newUuid | .enclaveOrder _
  | .partitionOrder _ => true
  | _ => false

/-- No store call among them may fail. -/
def QuietSafe (A : (c : Call) → Resp c → Prop) : Prop :=
  ∀ c r, A c r → c.isStore = true → c.isQuiet = true → failed c r = false

theorem StoreSafe.quietSafe {A : (c : Call) → Resp c → Prop} (h : StoreSafe A) : QuietSafe A :=
  fun c r hr hc _ => h c r hr hc

namespace World

/-- Only quiet calls lie between the two worlds. -/
structure Quiet (w w' : World) : Prop where
  store : w'.store = w.store
  log : ∃ evs : List Event, w'.log = evs ++ w.log ∧ ∀ ev ∈ evs, ev.1.isQuiet = true

theorem Quiet.refl (w : World) : Quiet w w := ⟨rfl, [], rfl, fun _ h => absurd h List.not_mem_nil⟩

theorem nextStore_of_isQuiet {c : Call} (hc : c.isQuiet = true) (st : Store) (r : Resp c) :
    nextStore st c r = st := by
  cases c <;> first | rfl | cases hc

theorem Quiet.next {w w' : World} (h : Quiet w w') {c : Call} (hc : c.isQuiet = true)
    (r : Resp c) : Quiet w (w'.next c r) := by
  obtain ⟨hstore, evs, hlog, hevs⟩ := h
  refine ⟨(nextStore_of_isQuiet hc _ r).trans hstore, ⟨c, r⟩ :: evs, ?_, ?_⟩
  · rw [next_log, hlog, List.cons_append]
  · exact List.forall_mem_cons.mpr ⟨hc, hevs⟩

theorem Quiet.trans {w w' w'' : World} (h : Quiet w w') (h' : Quiet w' w'') : Quiet w w'' := by
  obtain ⟨hstore, evs, hlog, hevs⟩ := h
  obtain ⟨hstore', evs', hlog', hevs'⟩ := h'
  refine ⟨hstore'.trans hstore, evs' ++ evs, by rw [hlog', hlog, List.append_assoc], ?_⟩
  intro ev hev
  rcases List.mem_append.mp hev with hev | hev
  · exact hevs' ev hev
  · exact hevs ev hev

/-- What the newest event of a kind was is the same after quiet calls, if no quiet call is of
that kind. -/
theorem Quiet.findSome? {β : Type} {w w' : World} (h : Quiet w w') {f : Event → Option β}
    (hf : ∀ ev : Event, ev.1.isQuiet = true → f ev = none) :
    w'.log.findSome? f = w.log.findSome? f := by
  obtain ⟨-, evs, hlog, hevs⟩ := h
  rw [hlog, List.findSome?_append]
  have hnone : evs.findSome? f = none :=
    List.findSome?_eq_none_iff.mpr fun ev hev => hf ev (hevs ev hev)
  rw [hnone, Option.none_or]

/-- What every quiet call keeps holds after quiet calls. -/
theorem Quiet.keeps {I : World → Prop} {w w' : World} (h : Quiet w w')
    (hI : ∀ w c r, Call.isQuiet c = true → I w → I (w.next c r)) (hw : I w) : I w' := by
  obtain ⟨hstore, evs, hlog, hevs⟩ := h
  induction evs generalizing w' with
  | nil =>
    obtain rfl : w' = w := by
      cases w
      cases w'
      cases hstore
      cases hlog
      rfl
    exact hw
  | cons ev evs ih =>
    have hprev : I ⟨w.store, evs ++ w.log⟩ :=
      ih rfl rfl fun ev' hev' => hevs ev' (List.mem_cons_of_mem _ hev')
    have hq := hevs ev (List.mem_cons_self ..)
    have heq : w' = World.next ⟨w.store, evs ++ w.log⟩ ev.1 ev.2 := by
      cases w'
      cases hstore
      cases hlog
      rw [World.next, nextStore_of_isQuiet hq]
      rfl
    rw [heq]
    exact hI _ _ _ hq hprev

theorem Quiet.log_suffix {w w' : World} (h : Quiet w w') : w.log <:+ w'.log := by
  obtain ⟨-, evs, hlog, -⟩ := h
  exact ⟨evs, hlog.symm⟩

theorem Quiet.log_subset {w w' : World} (h : Quiet w w') : w.log ⊆ w'.log := by
  obtain ⟨-, evs, hlog, -⟩ := h
  rw [hlog]
  exact List.subset_append_right _ _

theorem Logged.quiet {w w' : World} {p : Event → Prop} (h : w.Logged p) (hquiet : w.Quiet w') :
    w'.Logged p := by
  obtain ⟨ev, hev, hp⟩ := h
  exact ⟨ev, hquiet.log_subset hev, hp⟩

/-- An event that is not quiet was there before. -/
theorem Quiet.mem_log {w w' : World} (h : Quiet w w') {ev : Event} (hev : ev ∈ w'.log)
    (hloud : ev.1.isQuiet = false) : ev ∈ w.log := by
  obtain ⟨-, evs, hlog, hevs⟩ := h
  rw [hlog] at hev
  rcases List.mem_append.mp hev with hnew | hold
  · rw [hevs ev hnew] at hloud
    cases hloud
  · exact hold

end World

end Nclav
