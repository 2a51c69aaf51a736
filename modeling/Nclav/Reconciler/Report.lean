import Nclav.Config.Loader
import Nclav.Driver.Terraform
import Nclav.Graph.Validate
import Nclav.Store.Hash
import Nclav.System.Trace

/-!
# Requests, reports and the reconciler's monad

What a reconcile is asked for, what it reports and how it fails. An entry of the report's
`errors` is kept with its parts here; `render` is the text that the source pushes.

`Rec` is the monad of the reconciler: calls of the system, and failure with a
`ReconcileError`. `storeCall` is a store call whose error ends the run (`?` in the source).
-/

namespace Nclav

open Effect

structure ReconcileRequest : Type where
  enclavesDir : String
  dryRun : Bool
  apiBase : String
  authToken : String
  /-- skip the Terraform subprocesses -/
  testMode : Bool
  /-- keep the cloud project when an enclave is torn down -/
  resourcesOnly : Bool

def ReconcileRequest.default : ReconcileRequest where
  enclavesDir := ""
  dryRun := false
  apiBase := "http://127.0.0.1:8080"
  authToken := ""
  testMode := false
  resourcesOnly := false

/-- The Terraform backend that a request sets up. -/
def ReconcileRequest.tfBackend (req : ReconcileRequest) : TerraformBackend where
  apiBase := req.apiBase
  authToken := req.authToken
  testMode := req.testMode

inductive Change : Type where
  | enclaveCreated (id : EnclaveId)
  | enclaveUpdated (id : EnclaveId)
  | enclaveDeleted (id : EnclaveId)
  | partitionCreated (enclaveId : EnclaveId) (partitionId : PartitionId)
  | partitionUpdated (enclaveId : EnclaveId) (partitionId : PartitionId)
  | partitionDeleted (enclaveId : EnclaveId) (partitionId : PartitionId)
  | exportWired (enclaveId : EnclaveId) (exportName : String)
  | importWired (importerEnclave : EnclaveId) (alias_ : String)
  deriving DecidableEq

/-- An entry of the report's errors. -/
inductive ReportError : Type where
  | teardown (enclaveId : EnclaveId) (partitionId : PartitionId) (e : DriverError)
  | enclave (enclaveId : EnclaveId) (message : String)
  | partition (enclaveId : EnclaveId) (partitionId : PartitionId) (message : String)
  | export_ (enclaveId : EnclaveId) (exportName message : String)
  | import_ (enclaveId : EnclaveId) (alias_ message : String)
  deriving DecidableEq

namespace ReportError

/-- The text of an entry. -/
def render : ReportError → String
  | .teardown id partId e => s!"teardown {id.val}/{partId.val}: {e}"
  | .enclave id msg => s!"enclave {id.val}: {msg}"
  | .partition id partId msg => s!"partition {id.val}/{partId.val}: {msg}"
  | .export_ id name msg => s!"export {id.val}/{name}: {msg}"
  | .import_ id name msg => s!"import {id.val}/{name}: {msg}"

/-- The enclave that an entry names. -/
def enclaveId : ReportError → EnclaveId
  | .teardown id _ _ => id
  | .enclave id _ => id
  | .partition id _ _ => id
  | .export_ id _ _ => id
  | .import_ id _ _ => id

/-- A pass over an enclave appends to the errors, and what it appends names the enclave. -/
def Adds (id : EnclaveId) (errors errors' : List ReportError) : Prop :=
  ∃ new, errors' = errors ++ new ∧ ∀ e ∈ new, e.enclaveId = id

section

variable {id : EnclaveId} {errors errors' errors'' : List ReportError}

theorem Adds.refl (id : EnclaveId) (errors : List ReportError) : Adds id errors errors :=
  ⟨[], (List.append_nil _).symm, fun _ h => absurd h List.not_mem_nil⟩

theorem Adds.trans (h : Adds id errors errors') (h' : Adds id errors' errors'') :
    Adds id errors errors'' := by
  obtain ⟨new, rfl, hnew⟩ := h
  obtain ⟨new', rfl, hnew'⟩ := h'
  refine ⟨new ++ new', List.append_assoc .., fun e he => ?_⟩
  rcases List.mem_append.mp he with he | he
  · exact hnew e he
  · exact hnew' e he

theorem Adds.single {e : ReportError} (h : e.enclaveId = id) (errors : List ReportError) :
    Adds id errors (errors ++ [e]) := by
  refine ⟨[e], rfl, fun e' he' => ?_⟩
  rw [List.mem_singleton.mp he']
  exact h

theorem Adds.subset (h : Adds id errors errors') : errors ⊆ errors' := by
  obtain ⟨new, rfl, -⟩ := h
  exact List.subset_append_left _ _

/-- Without errors at the end there were none before. -/
theorem Adds.eq_nil (h : Adds id errors errors') (hnil : errors' = []) : errors = [] := by
  obtain ⟨new, rfl, -⟩ := h
  exact (List.append_eq_nil_iff.mp hnil).1

theorem Adds.mem (h : Adds id errors errors') {e : ReportError} (he : e ∈ errors') :
    e ∈ errors ∨ e.enclaveId = id := by
  obtain ⟨new, rfl, hnew⟩ := h
  exact (List.mem_append.mp he).imp_right (hnew e)

end

end ReportError

structure ReconcileReport : Type where
  dryRun : Bool
  changes : List Change
  errors : List ReportError
  deriving DecidableEq

inductive ReconcileError : Type where
  | config : ConfigError → ReconcileError
  | graph : GraphError → ReconcileError
  | store : StoreError → ReconcileError
  | driver : DriverError → ReconcileError

/-! ## The monad -/

abbrev Rec : Type → Type := ExceptT ReconcileError Sys

/-- Run a fallible call; its error ends the reconcile. -/
def orFail {ε α : Type} (wrap : ε → ReconcileError) (p : Sys (Except ε α)) : Rec α :=
  ExceptT.mk (p.bind fun r => .ret (r.mapError wrap))

/-- A store call with `?`. -/
abbrev storeCall {α : Type} (p : Sys (Except StoreError α)) : Rec α := orFail .store p

def upsertEnclave (state : EnclaveState) : Rec Unit := storeCall (perform (.upsertEnclave state))

/-- Append an audit event, stamped with a fresh id and the time. -/
def appendEvent (event : Uuid → DateTime → AuditEvent) : Rec Unit := do
  let id ← perform .newUuid
  let now ← perform .now
  storeCall (perform (.appendEvent (event id now)))

section

variable {W : Type} {M : Machine Call Resp W}

@[simp] theorem wpE_orFail {ε α : Type} (wrap : ε → ReconcileError) (p : Sys (Except ε α))
    (Q : Except ReconcileError α → W → Prop) (w : W) :
    Prog.wpE M (orFail wrap p) Q w ↔ Prog.wp M p (fun r => Q (r.mapError wrap)) w := by
  rw [orFail]
  rw [Prog.wpE_mk, Prog.wp_bind]
  exact Iff.rfl

@[simp] theorem wpE_upsertEnclave (state : EnclaveState)
    (Q : Except ReconcileError Unit → W → Prop) (w : W) :
    Prog.wpE M (upsertEnclave state) Q w ↔
      ∀ r, M.adm w (.upsertEnclave state) r →
        Q (r.mapError .store) (M.next w (.upsertEnclave state) r) :=
  wpE_orFail _ _ _ _

end

section

variable {A : (c : Call) → Resp c → Prop}

/-- An audit event is a few quiet calls; it may fail. -/
theorem wpE_appendEvent {event : Uuid → DateTime → AuditEvent}
    {Q : Except ReconcileError Unit → World → Prop} {w : World}
    (hok : ∀ w', w.Quiet w' → Q (.ok ()) w')
    (herr : ¬ StoreSafe A → ∀ e w', w.Quiet w' → Q (.error (.store e)) w') :
    Prog.wpE (system A) (appendEvent event) Q w := by
  intro id _ now _ r hr
  have hquiet := (((World.Quiet.refl w).next (c := .newUuid) rfl id).next (c := .now) rfl now).next
    (c := .appendEvent (event id now)) rfl r
  cases r with
  | ok _ => exact hok _ hquiet
  | error e => exact herr (fun hsafe => by cases hsafe _ _ hr.2 rfl) e _ hquiet

theorem ensures_perform {c : Call} {I : World → Prop} {P : Resp c → World → Prop} {w : World}
    (h : ∀ r, answers w c r → A c r → I (w.next c r) ∧ P r (w.next c r)) :
    Prog.Ensures (system A) I P (monadLift (perform c) : Rec (Resp c)) w :=
  Prog.Ensures.monadLift fun r hr => h r hr.1 hr.2

/-- Around an audit event only quiet calls are made. -/
theorem ensures_appendEvent {event : Uuid → DateTime → AuditEvent} {I : World → Prop} {w : World}
    (hI : ∀ w', w.Quiet w' → I w') :
    Prog.Ensures (system A) I (fun _ w' => w.Quiet w') (appendEvent event) w := by
  refine wpE_appendEvent (fun w' hw' => ⟨hI w' hw', fun _ _ => hw'⟩)
    fun _ e w' hw' => ⟨hI w' hw', ?_⟩
  rintro _ ⟨⟩

theorem ensures_upsertEnclave {s : EnclaveState} {I : World → Prop} {w : World}
    (hI : ∀ r, I (w.next (.upsertEnclave s) r)) :
    Prog.Ensures (system A) I (fun _ w' => w' = w.next (.upsertEnclave s) (.ok ()))
      (upsertEnclave s) w := by
  rw [Prog.Ensures, wpE_upsertEnclave]
  rintro (e | ⟨⟩) -
  · refine ⟨hI _, ?_⟩
    rintro _ ⟨⟩
  · exact ⟨hI _, fun _ _ => rfl⟩

theorem ensures_getEnclave {id : EnclaveId} {I : World → Prop} {w : World}
    (hI : ∀ w', w.Quiet w' → I w') :
    Prog.Ensures (system A) I (fun s w' => s = w.store.get? id ∧ w.Quiet w')
      (storeCall (perform (.getEnclave id))) w := by
  rw [Prog.Ensures, wpE_orFail, Prog.wp_perform]
  rintro (e | s) ⟨hs, -⟩
  · refine ⟨hI _ ((World.Quiet.refl w).next rfl _), ?_⟩
    rintro _ ⟨⟩
  · refine ⟨hI _ ((World.Quiet.refl w).next rfl _), ?_⟩
    rintro _ ⟨⟩
    exact ⟨hs, (World.Quiet.refl w).next rfl _⟩

/-- Past an audit event only quiet calls were made. -/
theorem wpE_appendEvent_ok {event : Uuid → DateTime → AuditEvent} {Q : World → Prop} {w : World}
    (h : ∀ w', w.Quiet w' → Q w') :
    Prog.wpE (system A) (appendEvent event) (fun r w' => ∀ a, r = .ok a → Q w') w :=
  wpE_appendEvent (fun w' hw' _ _ => h w' hw') fun _ _ _ _ _ => nofun

/-- Past a store call it was answered. -/
theorem wpE_upsertEnclave_ok {s : EnclaveState} {Q : World → Prop} {w : World}
    (h : Q (w.next (.upsertEnclave s) (.ok ()))) :
    Prog.wpE (system A) (upsertEnclave s) (fun r w' => ∀ a, r = .ok a → Q w') w := by
  rw [wpE_upsertEnclave]
  rintro (e | ⟨⟩) _
  · rintro _ ⟨⟩
  · exact fun _ _ => h

theorem wpE_getEnclave_ok {id : EnclaveId} {Q : Option EnclaveState → World → Prop} {w : World}
    (h : ∀ w', w.Quiet w' → Q (w.store.get? id) w') :
    Prog.wpE (system A) (storeCall (perform (.getEnclave id)))
      (fun r w' => ∀ a, r = .ok a → Q a w') w := by
  rw [wpE_orFail, Prog.wp_perform]
  rintro (e | s) ⟨hs, -⟩
  · rintro _ ⟨⟩
  · rintro _ ⟨⟩
    obtain rfl : s = w.store.get? id := hs
    exact h _ ((World.Quiet.refl w).next (c := .getEnclave id) rfl _)

theorem succeeds_upsertEnclave (hA : StoreSafe A) (s : EnclaveState) :
    Prog.Succeeds (system A) (upsertEnclave s) := by
  intro w r hr
  cases r with
  | ok _ => exact ⟨_, rfl⟩
  | error e => cases hA _ _ hr.2 rfl

theorem succeeds_getEnclave (hA : StoreSafe A) (id : EnclaveId) :
    Prog.Succeeds (system A) (storeCall (perform (.getEnclave id))) := by
  intro w r hr
  cases r with
  | ok _ => exact ⟨_, rfl⟩
  | error e => cases hA _ _ hr.2 rfl

theorem succeeds_deleteEnclave (hA : StoreSafe A) (id : EnclaveId) :
    Prog.Succeeds (system A) (storeCall (perform (.deleteEnclave id))) := by
  intro w r hr
  cases r with
  | ok _ => exact ⟨_, rfl⟩
  | error e => cases hA _ _ hr.2 rfl

theorem succeeds_teardownEnclave (hA : NeverAborts A) (driver : Driver) (enc : Enclave)
    (handle : Handle) :
    Prog.Succeeds (system A) (orFail .driver (perform (.teardownEnclave driver enc handle))) := by
  intro w r hr
  cases r with
  | ok _ => exact ⟨_, rfl⟩
  | error e => cases hA _ _ hr.2 rfl

theorem succeeds_appendEvent (hA : StoreSafe A) (event : Uuid → DateTime → AuditEvent) :
    Prog.Succeeds (system A) (appendEvent event) := fun _ =>
  wpE_appendEvent (fun _ _ => ⟨_, rfl⟩) fun hunsafe => absurd hA hunsafe

end

section

variable {W : Type} {M : Machine Call Resp W} {σ α : Type} {f : σ → α → Rec σ} {xs : List α}

/-- The invariant rule for a loop that ends in `C`, say without errors: what is not in `C` does
not come back to it, so the invariant is needed of steps from `C` only. -/
theorem wpE_foldlM_clean (C : σ → Prop) (I : List α → σ → W → Prop)
    (hback : ∀ b, ∀ x ∈ xs, Prog.CallsE (fun _ => True) (fun a => C a → C b) (f b x))
    (hstep : ∀ pre x post b w, xs = pre ++ x :: post → C b → I pre b w →
      Prog.wpE M (f b x) (fun r w' => ∀ b', r = .ok b' → C b' → I (pre ++ [x]) b' w') w)
    {b : σ} {w : W} (hinit : I [] b w) :
    Prog.wpE M (xs.foldlM f b) (fun r w' => ∀ b', r = .ok b' → C b' → C b ∧ I xs b' w') w := by
  refine Prog.wp_foldlM_ok (fun pre b' w' => C b' → C b ∧ I pre b' w') ?_ (fun _ _ h => h)
    fun h => ⟨h, hinit⟩
  intro pre x post b' w' hxs hI
  have hx : x ∈ xs := by simp [hxs]
  have hclean := (hback b' x hx).wpE (M := M) (I := fun _ => True) (fun _ _ _ _ _ _ => trivial)
    (w := w') trivial
  by_cases hb' : C b'
  · obtain ⟨hb, hI'⟩ := hI hb'
    exact Prog.wpE_mono (hstep pre x post b' w' hxs hb' hI')
      fun r w'' h b'' hr hC => ⟨hb, h b'' hr hC⟩
  · exact Prog.wpE_mono hclean fun r w'' h b'' hr hC => absurd (h.1 b'' hr hC) hb'

end

section

variable {P : Call → Prop}

theorem callsE_orFail {ε α : Type} {wrap : ε → ReconcileError} {p : Sys (Except ε α)}
    {Q : Except ε α → Prop} (hp : Prog.Calls P Q p) :
    Prog.CallsE P (fun _ => True) (orFail wrap p) :=
  hp.bind fun _ _ _ _ => trivial

theorem callsE_perform {c : Call} (hc : P c) :
    Prog.CallsE P (fun _ => True) (monadLift (perform c) : Rec (Resp c)) :=
  Prog.CallsE.monadLift (Prog.Calls.perform hc)

theorem callsE_upsertEnclave {s : EnclaveState} (hs : P (.upsertEnclave s)) :
    Prog.CallsE P (fun _ => True) (upsertEnclave s) :=
  callsE_orFail (Prog.Calls.perform hs)

theorem callsE_deleteEnclave {id : EnclaveId} (hid : P (.deleteEnclave id)) :
    Prog.CallsE P (fun _ => True) (storeCall (perform (.deleteEnclave id))) :=
  callsE_orFail (Prog.Calls.perform hid)

theorem callsE_appendEvent {event : Uuid → DateTime → AuditEvent} (hid : P .newUuid)
    (hnow : P .now) (hevent : ∀ e, P (.appendEvent e)) :
    Prog.CallsE P (fun _ => True) (appendEvent event) :=
  (callsE_perform hid).bind fun _ _ => (callsE_perform hnow).bind fun _ _ =>
    callsE_orFail (Prog.Calls.perform (hevent _))

end

end Nclav
