import Nclav.Reconciler.Diff

/-!
# Wiring imports

The last pass of a run: each desired enclave's record is read again and every import whose
alias it does not bind yet is provisioned from the exporter's stored export handle. The
record is written back once, if anything was bound.
-/

namespace Nclav

open Effect

/-- The state of the wiring loop of one enclave. -/
structure WiringState : Type where
  encState : EnclaveState
  changed : Bool
  errors : List ReportError

/-- One import: passed over when its alias is bound already, or when the exporter or its
export is not there. -/
def wireImport (driver : Driver) (enc : Enclave) (acc : WiringState) (im : Import) :
    Rec WiringState :=
  if (acc.encState.importHandles[im.alias_]?).isSome then return acc
  else do
    let exporter ← storeCall (perform (.getEnclave im.from_))
    match exporter.bind (·.exportHandles[im.exportName]?) with
    | none => return acc
    | some exportHandle => do
      let result ← perform
        (.provisionImport driver enc im exportHandle (acc.encState.importHandles[im.alias_]?))
      match result with
      | .ok result => do
        appendEvent fun id at_ => .importWired id at_ enc.id im.exportName
        return { acc with
          encState := { acc.encState with
            importHandles := acc.encState.importHandles.insert im.alias_ result.handle }
          changed := true }
      | .error e =>
        return { acc with errors := acc.errors ++ [.import_ enc.id im.alias_ (toString e)] }

/-- The imports of one enclave. -/
def wireEnclave (run : Run) (errors : List ReportError) (enc : Enclave) :
    Rec (List ReportError) :=
  match run.registry.forEnclave enc with
  -- reported by the provision pass
  | .error _ => return errors
  | .ok driver => do
    let stored ← storeCall (perform (.getEnclave enc.id))
    match stored with
    | none => return errors
    | some encState => do
      let acc ← enc.allImports.foldlM (wireImport driver enc)
        { encState, changed := false, errors }
      if acc.changed then do
        upsertEnclave acc.encState
        return acc.errors
      else return acc.errors

/-- The wiring pass. -/
def wiringPass (run : Run) (ordered : List Enclave) (errors : List ReportError) :
    Rec (List ReportError) :=
  ordered.foldlM (wireEnclave run) errors

/-! ## The calls of the pass -/

/-- The calls that wire the enclave `enc`. -/
inductive Call.Wires (enc : Enclave) : Call → Prop
  | getEnclave (id : EnclaveId) : Wires enc (.getEnclave id)
  | upsertEnclave (s : EnclaveState) : Wires enc (.upsertEnclave s)
  | appendEvent (event : AuditEvent) : Wires enc (.appendEvent event)
  | now : Wires enc .now
  | newUuid : Wires enc .newUuid
  | provisionImport (driver : Driver) (im : Import) (exportHandle : Handle)
    (existing : Option Handle) (h : im ∈ enc.allImports) :
    Wires enc (.provisionImport driver enc im exportHandle existing)

/-- The calls that wire one import: all but the write of the record. -/
def Call.WiresImport (enc : Enclave) (c : Call) : Prop := c.Wires enc ∧ c.written = none

section

variable {run : Run} {driver : Driver} {enc : Enclave}

/-- Wiring an import changes nothing but the import handles of the record at hand. -/
theorem wireImport_calls {im : Import} (him : im ∈ enc.allImports) (acc : WiringState) :
    Prog.CallsE (Call.WiresImport enc)
      (fun a => a.encState = { acc.encState with importHandles := a.encState.importHandles } ∧
        ReportError.Adds enc.id acc.errors a.errors)
      (wireImport driver enc acc im) := by
  rw [wireImport]
  split
  · exact Prog.CallsE.pure ⟨rfl, .refl _ _⟩
  · refine Prog.CallsE.bind (callsE_orFail (Prog.Calls.perform ⟨.getEnclave _, rfl⟩))
      fun exporter _ => ?_
    split
    · exact Prog.CallsE.pure ⟨rfl, .refl _ _⟩
    · refine Prog.CallsE.bind (callsE_perform ⟨.provisionImport _ _ _ _ him, rfl⟩)
        fun result _ => ?_
      cases result with
      | ok result =>
        exact Prog.CallsE.bind (callsE_appendEvent ⟨.newUuid, rfl⟩ ⟨.now, rfl⟩
          fun e => ⟨.appendEvent e, rfl⟩) fun _ _ => Prog.CallsE.pure ⟨rfl, .refl _ _⟩
      | error e => exact Prog.CallsE.pure ⟨rfl, .single rfl _⟩

theorem wireImports_calls (acc : WiringState) :
    Prog.CallsE (Call.WiresImport enc)
      (fun a => a.encState = { acc.encState with importHandles := a.encState.importHandles } ∧
        ReportError.Adds enc.id acc.errors a.errors)
      (enc.allImports.foldlM (wireImport driver enc) acc) := by
  refine Prog.CallsE.foldlM _ (fun a im him ha => ?_) ⟨rfl, .refl _ _⟩
  refine (wireImport_calls him a).mono (fun _ h => h) fun a' ha' => ⟨?_, ha.2.trans ha'.2⟩
  rw [ha'.1, ha.1]

/-- Wiring an enclave reads records, provisions imports of it, writes records and reports only
errors of it. -/
theorem wireEnclave_calls (errors : List ReportError) :
    Prog.CallsE (Call.Wires enc) (ReportError.Adds enc.id errors)
      (wireEnclave run errors enc) := by
  rw [wireEnclave]
  split
  · exact Prog.CallsE.pure (.refl _ _)
  · refine Prog.CallsE.bind (callsE_orFail (Prog.Calls.perform (.getEnclave _)))
      fun stored _ => ?_
    split
    · exact Prog.CallsE.pure (.refl _ _)
    · refine Prog.CallsE.bind ((wireImports_calls _).mono (fun _ h => h.1) fun _ h => h.2)
        fun acc hacc => ?_
      split
      · exact Prog.CallsE.bind (callsE_upsertEnclave (.upsertEnclave _))
          fun _ _ => Prog.CallsE.pure hacc
      · exact Prog.CallsE.pure hacc

theorem Call.Wires.not_touches {c : Call} (h : c.Wires enc) (hwritten : c.written = none)
    {id : EnclaveId} (hne : id ≠ enc.id) : ¬ c.Touches id := by
  rintro (hc | hc)
  · cases h with
    | provisionImport => exact hne (Option.some.inj hc).symm
    | _ => cases hc
  · rw [hwritten] at hc
    cases hc

/-- Wiring an enclave touches no other. -/
theorem sameView_wireEnclave {A : (c : Call) → Resp c → Prop} {id : EnclaveId}
    (hne : id ≠ enc.id) (errors : List ReportError) (w : World) :
    Prog.Keeps (system A) (w.SameView id) (wireEnclave run errors enc) := by
  intro w₁ hw₁
  rw [wireEnclave]
  split
  · exact hw₁
  rw [Prog.wpE_bind, wpE_orFail, Prog.wp_perform]
  intro r hr
  have hw₂ : w.SameView id (w₁.next (.getEnclave enc.id) r) :=
    hw₁.trans (World.sameView_next (Call.not_touches_of_isQuiet rfl id) w₁ r)
  rcases r with e | stored
  · exact hw₂
  rcases stored with _ | s
  · exact hw₂
  have hs : s.desired.id = enc.id := Store.id_of_get? (Eq.symm hr.1)
  simp only [Except.mapError, Prog.onOk_ok]
  rw [Prog.wpE_bind]
  refine Prog.wpE_mono ((wireImports_calls _).wpE (I := w.SameView id) (fun w' c r hc _ hw' =>
    hw'.trans (World.sameView_next (hc.1.not_touches hc.2 hne) w' r)) hw₂) fun r w₃ h₃ => ?_
  rcases r with e | acc
  · exact h₃.2
  rw [Prog.onOk_ok]
  split
  · rw [Prog.wpE_bind, wpE_upsertEnclave]
    intro r _
    have hid : acc.encState.desired.id = enc.id := by
      rw [(h₃.1 acc rfl).1]
      exact hs
    have hnot : ¬ (Call.upsertEnclave acc.encState).Touches id := by
      rintro (hc | hc)
      · cases hc
      · exact hne ((Option.some.inj hc).symm.trans hid)
    have hw₄ := h₃.2.trans (World.sameView_next hnot w₃ r)
    cases r with
    | ok _ => exact hw₄
    | error e => exact hw₄
  · exact h₃.2

end

/-! ## What wiring leaves alone -/

/-- The record without its import handles. -/
def EnclaveState.rest (s : EnclaveState) : EnclaveState := { s with importHandles := ∅ }

/-- Both worlds store the same records, up to import handles. -/
def World.SameRest (w w' : World) : Prop :=
  ∀ id, (w'.store.get? id).map (·.rest) = (w.store.get? id).map (·.rest)

/-- Both worlds store the same export handles. -/
def World.SameExports (w w' : World) : Prop :=
  ∀ id name, w'.store.exportHandle id name = w.store.exportHandle id name

section

variable {A : (c : Call) → Resp c → Prop} {run : Run} {enc : Enclave} {w w' w'' : World}

theorem World.SameRest.refl (w : World) : w.SameRest w := fun _ => rfl

theorem World.SameRest.trans (h : w.SameRest w') (h' : w'.SameRest w'') : w.SameRest w'' :=
  fun id => (h' id).trans (h id)

theorem World.sameRest_of_store (h : w'.store = w.store) : w.SameRest w' := fun _ => by rw [h]

theorem World.SameRest.exists_record (h : w.SameRest w') {id : EnclaveId} {s : EnclaveState}
    (hs : w.store.get? id = some s) :
    ∃ s', w'.store.get? id = some s' ∧ s'.rest = s.rest := by
  have hid := h id
  rw [hs, Option.map_some] at hid
  exact Option.map_eq_some_iff.mp hid

theorem World.SameRest.sameExports (h : w.SameRest w') : w.SameExports w' := by
  intro id name
  have hrest : ∀ w : World, w.store.exportHandle id name =
      ((w.store.get? id).map (·.rest)).bind (·.exportHandles[name]?) := by
    intro w
    rw [Store.exportHandle]
    cases w.store.get? id <;> rfl
  rw [hrest, hrest, h id]

theorem World.SameExports.refl (w : World) : w.SameExports w := fun _ _ => rfl

theorem World.SameExports.trans (h : w.SameExports w') (h' : w'.SameExports w'') :
    w.SameExports w'' :=
  fun id name => (h' id name).trans (h id name)

theorem World.sameExports_of_store (h : w'.store = w.store) : w.SameExports w' :=
  fun _ _ => by rw [h]

/-- A record written back with other import handles. -/
theorem World.sameRest_upsert {s s' : EnclaveState} (hs : w.store.get? s.desired.id = some s)
    (hrest : s'.rest = s.rest) (r : Except StoreError Unit) :
    w.SameRest (w.next (.upsertEnclave s') r) := by
  intro id
  rcases r with e | ⟨⟩
  · rfl
  have hid : s'.desired = s.desired := by
    have h := congrArg EnclaveState.desired hrest
    exact h
  rw [World.next_store, World.nextStore, Store.get?_upsert, hid]
  by_cases heq : id = s.desired.id
  · rw [if_pos heq, heq, hs]
    exact congrArg some hrest
  · rw [if_neg heq]

/-- While the imports of an enclave are wired its record stays as it was read. -/
theorem store_of_wiresImport {c : Call} (hc : c.WiresImport enc) (r : Resp c) (st : Store) :
    World.nextStore st c r = st := by
  obtain ⟨h, hwritten⟩ := hc
  cases h with
  | upsertEnclave => cases hwritten
  | _ => rfl

/-- Wiring an enclave leaves everything alone but import handles. -/
theorem sameRest_wireEnclave (errors : List ReportError) (w : World) :
    Prog.Keeps (system A) w.SameRest (wireEnclave run errors enc) := by
  refine Prog.Keeps.of_ensures (P := fun _ _ => True) fun w₁ hw₁ => ?_
  have hquiet : ∀ w₂, w₁.Quiet w₂ → w.SameRest w₂ :=
    fun w₂ hw₂ => hw₁.trans (World.sameRest_of_store hw₂.store)
  rw [wireEnclave]
  split
  · exact Prog.Ensures.pure hw₁ trivial
  rename_i driver _
  refine (ensures_getEnclave hquiet).bind fun stored w₂ hw₂ ⟨hstored, hquiet₂⟩ => ?_
  rcases stored with _ | s
  · exact Prog.Ensures.pure hw₂ trivial
  have hs : w₂.store.get? s.desired.id = some s := by
    rw [hquiet₂.store, Store.id_of_get? hstored.symm, hstored]
  have hloop : Prog.Ensures (system A) w.SameRest
      (fun acc w₃ => w₃.store = w₂.store ∧
        acc.encState = { s with importHandles := acc.encState.importHandles })
      (enc.allImports.foldlM (wireImport driver enc) { encState := s, changed := false, errors })
      w₂ := by
    refine Prog.wpE_mono ((wireImports_calls _).wpE (I := fun w₃ => w₃.store = w₂.store)
      (fun w₃ c r hc _ h => (store_of_wiresImport hc r w₃.store).trans h) rfl) fun r w₃ h => ?_
    exact ⟨hw₂.trans (World.sameRest_of_store h.2), fun acc hr => ⟨h.2, (h.1 acc hr).1⟩⟩
  refine hloop.bind fun acc w₃ hw₃ ⟨hstore, hacc⟩ => ?_
  split
  · refine (ensures_upsertEnclave fun r => hw₃.trans
      (World.sameRest_upsert (s := s) ?_ ?_ r)).bind
      fun _ w₄ hw₄ _ => Prog.Ensures.pure hw₄ trivial
    · rw [hstore]
      exact hs
    · rw [hacc]
      rfl
  · exact Prog.Ensures.pure hw₃ trivial

theorem sameExports_wireEnclave (errors : List ReportError) {w w' : World}
    {r : Except ReconcileError (List ReportError)}
    (hrun : Prog.Exec (system A) (wireEnclave run errors enc).run w r w') : w.SameExports w' :=
  (hrun.wp (sameRest_wireEnclave errors w (.refl w))).sameExports

end

/-! ## What each part does

The rules of the parts that end in a success. -/

section

variable {A : (c : Call) → Resp c → Prop} {run : Run} {driver : Driver} {enc : Enclave}
  {w : World}

theorem wpE_wireImport_ok {acc : WiringState} {im : Import} {Q : WiringState → World → Prop}
    (hbound : (acc.encState.importHandles[im.alias_]?).isSome = true → Q acc w)
    (hmissing : ∀ w', w.Quiet w' → w.store.exportHandle im.from_ im.exportName = none → Q acc w')
    (hok : acc.encState.importHandles[im.alias_]? = none → ∀ xh result w₁ w₂, w.Quiet w₁ →
      w.store.exportHandle im.from_ im.exportName = some xh →
      A (.provisionImport driver enc im xh none) (.ok result) →
      (w₁.next (.provisionImport driver enc im xh none) (.ok result)).Quiet w₂ →
      Q { acc with
        encState := { acc.encState with
          importHandles := acc.encState.importHandles.insert im.alias_ result.handle }
        changed := true } w₂)
    (hfailed : ∀ xh e w₁, w.Quiet w₁ →
      A (.provisionImport driver enc im xh none) (.error e) →
      Q { acc with errors := acc.errors ++ [.import_ enc.id im.alias_ (toString e)] }
        (w₁.next (.provisionImport driver enc im xh none) (.error e))) :
    Prog.wpE (system A) (wireImport driver enc acc im) (fun r w' => ∀ a, r = .ok a → Q a w') w := by
  rw [wireImport]
  split
  · rename_i hsome
    rintro _ ⟨⟩
    exact hbound hsome
  · rename_i hunbound
    have hnone : acc.encState.importHandles[im.alias_]? = none := by simpa using hunbound
    refine Prog.wpE_bind_ok (wpE_getEnclave_ok fun w₁ hw₁ => ?_)
    split
    · rename_i hmiss
      rintro _ ⟨⟩
      exact hmissing w₁ hw₁ hmiss
    · rename_i xh hxh
      rw [hnone]
      refine Prog.wpE_bind_ok ?_
      rw [Prog.wpE_monadLift, Prog.wp_perform]
      rintro (e | result) ⟨-, hr⟩
      · rintro _ ⟨⟩ _ ⟨⟩
        exact hfailed xh e w₁ hw₁ hr
      · rintro _ ⟨⟩
        refine Prog.wpE_bind_ok (wpE_appendEvent_ok fun w₂ hw₂ => ?_)
        rintro _ ⟨⟩
        exact hok hnone xh result w₁ w₂ hw₁ hxh hr hw₂

theorem wpE_wireEnclave_ok {errors : List ReportError} {s : EnclaveState}
    {Q : List ReportError → World → Prop} (hdriver : run.registry.forEnclave enc = .ok driver)
    (hstored : w.store.get? enc.id = some s)
    (h : ∀ w₁, w.Quiet w₁ → Prog.wpE (system A)
      (enc.allImports.foldlM (wireImport driver enc)
        { encState := s, changed := false, errors })
      (fun r w₂ => ∀ acc, r = .ok acc →
        (acc.changed = true → Q acc.errors (w₂.next (.upsertEnclave acc.encState) (.ok ()))) ∧
          (acc.changed = false → Q acc.errors w₂)) w₁) :
    Prog.wpE (system A) (wireEnclave run errors enc) (fun r w' => ∀ a, r = .ok a → Q a w') w := by
  rw [wireEnclave, hdriver]
  refine Prog.wpE_bind_ok (wpE_getEnclave_ok fun w₁ hw₁ => ?_)
  rw [hstored]
  refine Prog.wpE_bind_ok (Prog.wpE_mono (h w₁ hw₁) fun _ w₂ h₂ acc hacc => ?_)
  obtain ⟨hchanged, hsame⟩ := h₂ acc hacc
  split
  · rename_i hch
    refine Prog.wpE_bind_ok (wpE_upsertEnclave_ok ?_)
    rintro _ ⟨⟩
    exact hchanged hch
  · rename_i hch
    rintro _ ⟨⟩
    exact hsame (by simpa using hch)

end

/-! ## Where the pass does not end the run -/

section

variable {A : (c : Call) → Resp c → Prop} {run : Run} {driver : Driver} {enc : Enclave}

theorem succeeds_wireImport (hA : StoreSafe A) (acc : WiringState) (im : Import) :
    Prog.Succeeds (system A) (wireImport driver enc acc im) := by
  rw [wireImport]
  split
  · exact .pure _
  · refine (succeeds_getEnclave hA _).bind fun exporter => ?_
    split
    · exact .pure _
    · refine (Prog.Succeeds.monadLift _).bind fun result => ?_
      cases result with
      | ok result => exact (succeeds_appendEvent hA _).bind fun _ => .pure _
      | error e => exact .pure _

theorem succeeds_wiringPass (hA : StoreSafe A) (ordered : List Enclave)
    (errors : List ReportError) :
    Prog.Succeeds (system A) (wiringPass run ordered errors) := by
  refine Prog.Succeeds.foldlM (fun errors enc _ => ?_) _
  rw [wireEnclave]
  rcases run.registry.forEnclave enc with e | driver
  · exact .pure _
  refine (succeeds_getEnclave hA _).bind fun stored => ?_
  cases stored with
  | none => exact .pure _
  | some encState =>
    refine (Prog.Succeeds.foldlM (fun acc im _ => succeeds_wireImport hA acc im) _).bind
      fun acc => ?_
    split
    · exact (succeeds_upsertEnclave hA _).bind fun _ => .pure _
    · exact .pure _

end

end Nclav
