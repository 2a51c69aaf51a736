import Nclav.Reconciler.Reconcile

/-!
# Where the handles of a run come from

The provision pass stores the handles of the exports, the wiring pass those of the imports.
The lemmas here follow both through a run: what is stored under an export's name and under
an alias is what the newest call answered, or what was stored before the run.
-/

namespace Nclav

open Effect

/-- The export of this name that a call provisioned, and its handle. -/
def Event.exported (id : EnclaveId) (name : String) : Event → Option (Export × Handle)
  | ⟨.provisionExport _ enc ex _ _, .ok result⟩ =>
    if enc.id = id ∧ ex.name = name then some (ex, result.handle) else none
  | _ => none

/-- The newest export of this name that was provisioned. -/
def World.lastExport (w : World) (id : EnclaveId) (name : String) : Option (Export × Handle) :=
  w.log.findSome? (Event.exported id name)

theorem Event.exported_of_subject_ne {id : EnclaveId} {ev : Event} (h : ev.1.subject ≠ some id)
    (name : String) : ev.exported id name = none := by
  rw [Event.exported.eq_def]
  split
  · rename_i enc ex _ _ _
    exact if_neg fun hcond => h (congrArg some hcond.1)
  · rfl

/-- The import of this alias was provisioned. -/
def Event.imports (id : EnclaveId) (alias_ : String) : Event → Bool
  | ⟨.provisionImport _ importer im _ _, .ok _⟩ => importer.id = id ∧ im.alias_ = alias_
  | _ => false

/-- The newest call that provisioned an import of this alias. -/
def World.lastImport (w : World) (id : EnclaveId) (alias_ : String) : Option Event :=
  w.log.find? (Event.imports id alias_)

theorem Event.imports_of_subject_ne {id : EnclaveId} {ev : Event} (h : ev.1.subject ≠ some id)
    (alias_ : String) : ev.imports id alias_ = false := by
  rw [Event.imports.eq_def]
  split
  · rename_i importer im _ _ _
    exact decide_eq_false fun hcond => h (congrArg some hcond.1)
  · rfl

namespace World

theorem SameView.lastImport {id : EnclaveId} {w w' : World} (h : w.SameView id w')
    (alias_ : String) : w'.lastImport id alias_ = w.lastImport id alias_ := by
  have hf : ∀ ev : Event, ev.1.subject ≠ some id → ev.imports id alias_ = false :=
    fun ev hev => Event.imports_of_subject_ne hev alias_
  rw [World.lastImport, World.lastImport, ← find?_trace hf, ← find?_trace hf, h.trace]

theorem lastImport_next_of_not {w : World} {c : Call} {r : Resp c} {id : EnclaveId} {a : String}
    (h : Event.imports id a ⟨c, r⟩ = false) :
    (w.next c r).lastImport id a = w.lastImport id a := by
  rw [lastImport, next_log, List.find?_cons_of_neg]
  · rfl
  · rw [h]
    exact Bool.false_ne_true

theorem SameView.lastExport {id : EnclaveId} {w w' : World} (h : w.SameView id w') (name : String) :
    w'.lastExport id name = w.lastExport id name := by
  have hf : ∀ ev : Event, ev.1.subject ≠ some id → ev.exported id name = none :=
    fun ev hev => Event.exported_of_subject_ne hev name
  rw [World.lastExport, World.lastExport, ← findSome?_trace hf, ← findSome?_trace hf, h.trace]

theorem lastExport_next (w : World) (c : Call) (r : Resp c) (id : EnclaveId) (name : String) :
    (w.next c r).lastExport id name =
      (Event.exported id name ⟨c, r⟩).or (w.lastExport id name) := by
  rw [lastExport, next_log, List.findSome?_cons]
  cases Event.exported id name ⟨c, r⟩ <;> rfl

end World

/-! ## The exports -/

/-- The exports have their newest handles in the record. -/
def NewestExports (id : EnclaveId) (exports : List Export) (s : EnclaveState) (w : World) : Prop :=
  ∀ x ∈ exports, ∃ ex h, w.lastExport id x.name = some (ex, h) ∧ s.exportHandles[x.name]? = some h

/-- What the provision pass leaves behind for an enclave, `st` being the store before the run:
a record in which every export has its newest handle and nothing was wired yet. -/
structure Provisioned (registry : DriverRegistry) (st : Store) (enc : Enclave) (w : World) :
    Prop where
  driver : ∃ driver, registry.forEnclave enc = .ok driver
  stored : ∃ s, w.store.get? enc.id = some s ∧ NewestExports enc.id enc.exports s w
  imports : ∀ a, w.store.importHandle enc.id a = st.importHandle enc.id a

section

variable {A : (c : Call) → Resp c → Prop} {run : Run} {driver : Driver} {enc : Enclave}
  {st : Store}

theorem NewestExports.sameView {exports : List Export} {s : EnclaveState} {w w' : World}
    (h : NewestExports enc.id exports s w) (hview : w.SameView enc.id w') :
    NewestExports enc.id exports s w' := by
  intro x hx
  rw [hview.lastExport]
  exact h x hx

theorem Provisioned.sameView {registry : DriverRegistry} {w w' : World}
    (h : Provisioned registry st enc w) (hview : w.SameView enc.id w') :
    Provisioned registry st enc w' where
  driver := h.driver
  stored := by
    obtain ⟨s, hs, hexports⟩ := h.stored
    exact ⟨s, hview.store.trans hs, hexports.sameView hview⟩
  imports a := by
    rw [Store.importHandle, hview.store]
    exact h.imports a

/-- The export loop: every export visited has its newest handle in the record at hand. -/
theorem wpE_exports_clean (acc : EnclaveState × List ReportError) (w : World) :
    Prog.wpE (system A) (enc.exports.foldlM (provisionExport driver enc) acc)
      (fun r w' => ∀ acc', r = .ok acc' → acc'.2 = [] → acc.2 = [] ∧
        (acc'.1 = { acc.1 with exportHandles := acc'.1.exportHandles } ∧
          NewestExports enc.id enc.exports acc'.1 w')) w := by
  let I (pre : List Export) (acc' : EnclaveState × List ReportError) (w' : World) : Prop :=
    acc'.1 = { acc.1 with exportHandles := acc'.1.exportHandles } ∧
      NewestExports enc.id pre acc'.1 w'
  refine wpE_foldlM_clean (·.2 = []) I (fun acc' x hx => ?_) ?_
    ⟨rfl, fun _ h => absurd h List.not_mem_nil⟩
  · exact (provisionExport_calls hx).mono (fun _ _ => trivial) fun _ h => h.2.eq_nil
  rintro pre x post acc' w' - hnil ⟨hacc', hpre⟩
  refine wpE_provisionExport_ok (fun existing result w'' _ hw'' _ => ⟨?_, ?_⟩)
    (fun _ _ _ herrors => ?_)
  · rw [hacc']
  · intro y hy
    rw [(hw''.sameView enc.id).lastExport, World.lastExport_next, HashMap.get?_insert]
    by_cases hname : y.name = x.name
    · exact ⟨x, result.handle, by simp [Event.exported, hname], if_pos hname⟩
    · have hold : y ∈ pre := (List.mem_append.mp hy).resolve_right fun h =>
        hname (by rw [List.mem_singleton.mp h])
      obtain ⟨ex, h, hlast, hhandle⟩ := hpre y hold
      exact ⟨ex, h, by simp [Event.exported, Ne.symm hname, hlast], (if_neg hname).trans hhandle⟩
  · exact absurd herrors (List.append_ne_nil_of_right_ne_nil _ (List.cons_ne_nil _ _))

/-- The partition loop leaves the wiring alone and takes no error back. -/
theorem wpE_partitions_sameWiring (acc : EnclaveState × List ReportError)
    (hacc : acc.1.desired = enc) (w : World) :
    Prog.wpE (system A) (enc.partitions.foldlM (provisionPartition run driver enc) acc)
      (fun r _ => ∀ acc', r = .ok acc' →
        acc.1.SameWiring acc'.1 ∧ ReportError.Adds enc.id acc.2 acc'.2) w := by
  have hcalls : Prog.CallsE (Call.ProvisionsOnly enc)
      (fun acc' => acc.1.SameWiring acc'.1 ∧ ReportError.Adds enc.id acc.2 acc'.2)
      (enc.partitions.foldlM (provisionPartition run driver enc) acc) := by
    refine Prog.CallsE.foldlM _ (fun acc' part hpart h => ?_) ⟨.refl _, .refl _ _⟩
    exact (provisionPartition_calls hpart acc').mono
      (fun _ hc => hc.mono fun _ hs => hs.desired.trans (h.1.desired.trans hacc))
      fun _ h' => ⟨h.1.trans h'.1, h.2.trans h'.2⟩
  exact Prog.wpE_mono (hcalls.wpE (I := fun _ => True) (fun _ _ _ _ _ _ => trivial) trivial)
    fun _ _ h => h.1

theorem wpE_provisionContents_clean (hdriver : run.registry.forEnclave enc = .ok driver)
    {s : EnclaveState} (hdesired : s.desired = enc)
    (himports : ∀ a, s.importHandles[a]? = st.importHandle enc.id a) (w : World) :
    Prog.wpE (system A) (provisionContents run driver enc s [])
      (fun r w' => ∀ errors, r = .ok errors → errors = [] →
        Provisioned run.registry st enc w') w := by
  refine wpE_provisionContents_ok ?_
  refine Prog.wpE_mono (wpE_partitions_sameWiring (s, []) hdesired w) fun _ w₁ h₁ acc hacc => ?_
  refine Prog.wpE_mono (wpE_exports_clean acc w₁) fun _ w₂ h₂ acc' hacc' w₃ hw₃ hnil => ?_
  obtain ⟨hwiring, -⟩ := h₁ acc hacc
  obtain ⟨-, hrest, hexports⟩ := h₂ acc' hacc' hnil
  have hid : acc'.1.desired.id = enc.id := by
    rw [hrest]
    exact congrArg Enclave.id (hwiring.desired.trans hdesired)
  have hget : (w₃.next (.upsertEnclave acc'.1) (.ok ())).store.get? enc.id = some acc'.1 :=
    (Store.get?_upsert ..).trans (if_pos hid.symm)
  refine ⟨⟨driver, hdriver⟩, ⟨acc'.1, hget, fun x hx => ?_⟩, fun a => ?_⟩
  · rw [World.lastExport_next, (hw₃.sameView enc.id).lastExport]
    exact hexports x hx
  · rw [Store.importHandle, hget, ← himports, hrest]
    simp only [Option.bind_some]
    rw [hwiring.importHandles]

theorem exportHandles_inFlight (hexisting : run.existing enc.id = st.get? enc.id) (name : String) :
    (EnclaveState.inFlight run enc).exportHandles[name]? = st.exportHandle enc.id name := by
  rw [Store.exportHandle, ← hexisting, EnclaveState.inFlight]
  cases run.existing enc.id with
  | none => simp [EnclaveState.new]
  | some s => rfl

theorem importHandles_inFlight (hexisting : run.existing enc.id = st.get? enc.id) (a : String) :
    (EnclaveState.inFlight run enc).importHandles[a]? = st.importHandle enc.id a := by
  rw [Store.importHandle, ← hexisting, EnclaveState.inFlight]
  cases run.existing enc.id with
  | none => simp [EnclaveState.new]
  | some s => rfl

/-- **One enclave provisioned.** Where that adds no error, its exports have their newest
handles. -/
theorem wpE_provisionEnclave_clean (hexisting : run.existing enc.id = st.get? enc.id)
    (w : World) :
    Prog.wpE (system A) (provisionEnclave run [] enc)
      (fun r w' => ∀ errors, r = .ok errors → errors = [] →
        Provisioned run.registry st enc w') w := by
  rcases hdriver : run.registry.forEnclave enc with e | driver
  · rw [provisionEnclave, hdriver]
    rintro _ ⟨⟩ ⟨⟩
  refine wpE_provisionEnclave_ok hdriver (fun existing result now w₁ _ _ => ?_)
    fun _ _ _ _ _ _ _ _ herrors => ?_
  · refine wpE_provisionContents_clean hdriver ?_ ?_ w₁
    · rfl
    · exact importHandles_inFlight hexisting
  · exact absurd herrors (List.append_ne_nil_of_right_ne_nil _ (List.cons_ne_nil _ _))

/-- The provision pass, where it adds no error. -/
theorem wpE_provisionPass_clean {ordered : List Enclave}
    (hsame : ∀ e ∈ ordered, ∀ e' ∈ ordered, e.id = e'.id → e = e')
    (hexisting : ∀ enc ∈ ordered, run.existing enc.id = st.get? enc.id)
    (errors : List ReportError) (w : World) :
    Prog.wpE (system A) (provisionPass run ordered errors)
      (fun r w' => ∀ errors', r = .ok errors' → errors' = [] → errors = [] ∧
        ∀ enc ∈ ordered, Provisioned run.registry st enc w') w := by
  refine wpE_provisionPass_each (· = []) (Provisioned run.registry st) hsame
    (fun h => h.eq_nil) (fun enc w w' h hview _ => h.sameView hview) ?_ errors w
  rintro enc henc _ w rfl
  exact wpE_provisionEnclave_clean (hexisting enc henc) w

end

/-! ## The imports -/

/-- The newest call for the alias provisioned this import from the handle stored under its
export, and gave this handle. -/
def WiredTo (registry : DriverRegistry) (enc : Enclave) (im : Import) (w : World) (h : Handle) :
    Prop :=
  ∃ driver xh result, registry.forEnclave enc = .ok driver ∧
    w.store.exportHandle im.from_ im.exportName = some xh ∧
    w.lastImport enc.id im.alias_ = some ⟨.provisionImport driver enc im xh none, .ok result⟩ ∧
    result.handle = h

/-- The wiring of `enc` as far as the imports `pre` were visited. An alias bound before the run
keeps its handle; any other is bound by the first import that declares it. -/
def Wiring (registry : DriverRegistry) (st : Store) (enc : Enclave) (pre : List Import)
    (handles : String → Option Handle) (w : World) : Prop :=
  ∀ a, (∃ h, st.importHandle enc.id a = some h ∧ handles a = some h) ∨
    (st.importHandle enc.id a = none ∧ handles a = none ∧ ∀ im ∈ pre, im.alias_ ≠ a) ∨
    st.importHandle enc.id a = none ∧ ∃ im h, enc.allImports.find? (·.alias_ = a) = some im ∧
      WiredTo registry enc im w h ∧ handles a = some h

section

variable {A : (c : Call) → Resp c → Prop} {run : Run} {driver : Driver} {enc : Enclave}
  {st : Store} {registry : DriverRegistry} {w w' : World}

theorem alias_of_find? {imports : List Import} {a : String} {im : Import}
    (h : imports.find? (·.alias_ = a) = some im) : im.alias_ = a := by
  simpa using List.find?_some h

theorem WiredTo.mono {im : Import} {h : Handle} (hwired : WiredTo registry enc im w h)
    (hsame : w.SameExports w')
    (hlast : w'.lastImport enc.id im.alias_ = w.lastImport enc.id im.alias_) :
    WiredTo registry enc im w' h := by
  obtain ⟨driver, xh, result, hdriver, hxh, hev, hh⟩ := hwired
  exact ⟨driver, xh, result, hdriver, (hsame _ _).trans hxh, hlast.trans hev, hh⟩

theorem Wiring.mono {pre : List Import} {handles : String → Option Handle}
    (h : Wiring registry st enc pre handles w) (hsame : w.SameExports w')
    (hlast : ∀ a, w'.lastImport enc.id a = w.lastImport enc.id a) :
    Wiring registry st enc pre handles w' := by
  intro a
  rcases h a with h | h | ⟨hst, im, h, hfind, hwired, hh⟩
  · exact .inl h
  · exact .inr (.inl h)
  · exact .inr (.inr ⟨hst, im, h, hfind, hwired.mono hsame (hlast _), hh⟩)

theorem Wiring.quiet {pre : List Import} {handles : String → Option Handle}
    (h : Wiring registry st enc pre handles w) (hquiet : w.Quiet w') :
    Wiring registry st enc pre handles w' :=
  h.mono (World.sameExports_of_store hquiet.store) (hquiet.sameView enc.id).lastImport

/-- Before an enclave is visited nothing new is bound. -/
theorem Wiring.init {handles : String → Option Handle}
    (h : ∀ a, handles a = st.importHandle enc.id a) :
    Wiring registry st enc [] handles w := by
  intro a
  rcases hst : st.importHandle enc.id a with _ | x
  · exact .inr (.inl ⟨rfl, (h a).trans hst, fun _ h => absurd h List.not_mem_nil⟩)
  · exact .inl ⟨x, rfl, (h a).trans hst⟩

/-- An import whose alias is bound already is passed over. -/
theorem Wiring.skip {pre : List Import} {im : Import} {handles : String → Option Handle}
    (h : Wiring registry st enc pre handles w) (hbound : (handles im.alias_).isSome = true) :
    Wiring registry st enc (pre ++ [im]) handles w := by
  intro a
  rcases h a with h | ⟨hst, hnone, hpre⟩ | h
  · exact .inl h
  · refine .inr (.inl ⟨hst, hnone, fun j hj => ?_⟩)
    rcases List.mem_append.mp hj with hj | hj
    · exact hpre j hj
    · rintro rfl
      rw [List.mem_singleton.mp hj] at hnone
      rw [hnone] at hbound
      cases hbound
  · exact .inr (.inr h)

/-- An import whose alias is not bound yet is the first to declare it, and binds it. -/
theorem Wiring.bind {pre post : List Import} {im : Import} {handles : String → Option Handle}
    (hsplit : enc.allImports = pre ++ im :: post) (h : Wiring registry st enc pre handles w)
    (hunbound : handles im.alias_ = none) (hsame : w.SameExports w')
    (hlast : ∀ a, a ≠ im.alias_ → w'.lastImport enc.id a = w.lastImport enc.id a) {x : Handle}
    (hwired : WiredTo registry enc im w' x) :
    Wiring registry st enc (pre ++ [im])
      (fun a => if a = im.alias_ then some x else handles a) w' := by
  intro a
  by_cases ha : a = im.alias_
  · subst ha
    simp only [if_true]
    rcases h im.alias_ with ⟨y, -, hy⟩ | ⟨hst, -, hpre⟩ | ⟨-, _, y, -, -, hy⟩
    · rw [hunbound] at hy
      cases hy
    · refine .inr (.inr ⟨hst, im, x, ?_, hwired, rfl⟩)
      have hnone : pre.find? (fun j => decide (j.alias_ = im.alias_)) = none :=
        List.find?_eq_none.mpr fun j hj => by simpa using hpre j hj
      rw [hsplit, List.find?_append, hnone, Option.none_or, List.find?_cons]
      simp
    · rw [hunbound] at hy
      cases hy
  · simp only [if_neg ha]
    rcases h a with h | ⟨hst, hnone, hpre⟩ | ⟨hst, j, y, hfind, hj, hy⟩
    · exact .inl h
    · refine .inr (.inl ⟨hst, hnone, fun j hj => ?_⟩)
      rcases List.mem_append.mp hj with hj | hj
      · exact hpre j hj
      · rw [List.mem_singleton.mp hj]
        exact Ne.symm ha
    · refine .inr (.inr ⟨hst, j, y, hfind, hj.mono hsame (hlast _ ?_), hy⟩)
      rw [alias_of_find? hfind]
      exact ha

/-- The wiring loop of an enclave after the imports `pre`, started on the record `s`. -/
structure WiringLoop (registry : DriverRegistry) (st : Store) (enc : Enclave) (s : EnclaveState)
    (w : World) (pre : List Import) (acc : WiringState) (w' : World) : Prop where
  store : w'.store = w.store
  rest : acc.encState = { s with importHandles := acc.encState.importHandles }
  unchanged : acc.changed = false → acc.encState = s
  wiring : Wiring registry st enc pre (fun a => acc.encState.importHandles[a]?) w'

theorem wpE_imports_clean (hdriver : registry.forEnclave enc = .ok driver) {s : EnclaveState}
    (havailable : ∀ im ∈ enc.allImports,
      (w.store.exportHandle im.from_ im.exportName).isSome = true)
    (hwiring : Wiring registry st enc [] (fun a => s.importHandles[a]?) w)
    (errors : List ReportError) :
    Prog.wpE (system A)
      (enc.allImports.foldlM (wireImport driver enc) { encState := s, changed := false, errors })
      (fun r w' => ∀ acc, r = .ok acc → acc.errors = [] → errors = [] ∧
        WiringLoop registry st enc s w enc.allImports acc w') w := by
  have hinit : WiringLoop registry st enc s w [] { encState := s, changed := false, errors } w :=
    ⟨rfl, rfl, fun _ => rfl, hwiring⟩
  refine wpE_foldlM_clean (·.errors = []) (WiringLoop registry st enc s w) (fun acc im him => ?_) ?_
    hinit
  · exact (wireImport_calls him acc).mono (fun _ _ => trivial) fun _ h => h.2.eq_nil
  rintro pre im post acc w₁ hsplit - hloop
  refine wpE_wireImport_ok (fun hbound _ => ?_) (fun w₂ hw₂ hnone => ?_)
    (fun hunbound xh result w₂ w₃ hw₂ hxh _ hw₃ _ => ?_) fun _ _ _ _ _ herrors => ?_
  · exact { hloop with wiring := hloop.wiring.skip hbound }
  · have hsome := havailable im (by simp [hsplit])
    rw [← hloop.store, hnone] at hsome
    cases hsome
  · have hstore : w₃.store = w₁.store := hw₃.store.trans hw₂.store
    have hlast : w₃.lastImport enc.id im.alias_ =
        some ⟨.provisionImport driver enc im xh none, .ok result⟩ := by
      rw [(hw₃.sameView enc.id).lastImport, World.lastImport, World.next_log,
        List.find?_cons_of_pos]
      exact decide_eq_true ⟨rfl, rfl⟩
    have hother : ∀ a, a ≠ im.alias_ → w₃.lastImport enc.id a = w₁.lastImport enc.id a := by
      intro a ha
      rw [(hw₃.sameView enc.id).lastImport, World.lastImport_next_of_not,
        (hw₂.sameView enc.id).lastImport]
      exact decide_eq_false fun h => ha h.2.symm
    have hbind := hloop.wiring.bind hsplit hunbound (World.sameExports_of_store hstore) hother
      ⟨driver, xh, result, hdriver, by rw [hstore]; exact hxh, hlast, rfl⟩
    refine ⟨hstore.trans hloop.store, ?_, nofun, ?_⟩
    · rw [hloop.rest]
    · simpa only [HashMap.get?_insert] using hbind
  · exact absurd herrors (List.append_ne_nil_of_right_ne_nil _ (List.cons_ne_nil _ _))

/-- What the wiring pass keeps of every enclave: its record, with the wiring so far. -/
def WiredSoFar (registry : DriverRegistry) (st : Store) (enc : Enclave) (pre : List Import)
    (w : World) : Prop :=
  (w.store.get? enc.id).isSome = true ∧ Wiring registry st enc pre (w.store.importHandle enc.id) w

/-- **One enclave wired.** Where that adds no error, every declared alias is bound. -/
theorem wpE_wireEnclave_clean (hdriver : ∃ driver, run.registry.forEnclave enc = .ok driver)
    (havailable : ∀ im ∈ enc.allImports,
      (w.store.exportHandle im.from_ im.exportName).isSome = true)
    (hwired : WiredSoFar run.registry st enc [] w) :
    Prog.wpE (system A) (wireEnclave run [] enc)
      (fun r w' => ∀ errors, r = .ok errors → errors = [] →
        w.SameExports w' ∧ WiredSoFar run.registry st enc enc.allImports w') w := by
  obtain ⟨driver, hdriver⟩ := hdriver
  obtain ⟨hstored, hwiring⟩ := hwired
  obtain ⟨s, hs⟩ := Option.isSome_iff_exists.mp hstored
  have hs' : s.desired.id = enc.id := Store.id_of_get? hs
  have hinit : Wiring run.registry st enc [] (fun a => s.importHandles[a]?) w := by
    have heq : w.store.importHandle enc.id = fun a => s.importHandles[a]? := by
      funext a
      rw [Store.importHandle, hs]
      rfl
    rw [← heq]
    exact hwiring
  refine wpE_wireEnclave_ok hdriver hs fun w₁ hw₁ => ?_
  refine Prog.wpE_mono (wpE_imports_clean hdriver (w := w₁)
    (fun im him => by rw [hw₁.store]; exact havailable im him)
    (hinit.quiet hw₁) []) fun r w₂ h₂ acc hacc => ⟨fun hchanged hnil => ?_,
      fun hchanged hnil => ?_⟩
  · obtain ⟨-, hloop⟩ := h₂ acc hacc hnil
    have hid : acc.encState.desired.id = enc.id := by
      rw [hloop.rest]
      exact hs'
    have hget : ∀ id, (w₂.next (.upsertEnclave acc.encState) (.ok ())).store.get? id =
        if id = enc.id then some acc.encState else w₂.store.get? id := by
      intro id
      rw [← hid]
      exact Store.get?_upsert ..
    have hstore : w₂.store = w.store := hloop.store.trans hw₁.store
    have hsame : w₂.SameExports (w₂.next (.upsertEnclave acc.encState) (.ok ())) := by
      refine (World.sameRest_upsert (s := s) ?_ ?_ _).sameExports
      · rw [hstore, hs', hs]
      · rw [hloop.rest]
        rfl
    refine ⟨(World.sameExports_of_store hstore).trans hsame, ?_, ?_⟩
    · rw [hget, if_pos rfl]
      rfl
    · have heq : (w₂.next (.upsertEnclave acc.encState) (.ok ())).store.importHandle enc.id =
          fun a => acc.encState.importHandles[a]? := by
        funext a
        rw [Store.importHandle, hget, if_pos rfl]
        rfl
      rw [heq]
      exact hloop.wiring.mono hsame fun a => World.lastImport_next_of_not rfl
  · obtain ⟨-, hloop⟩ := h₂ acc hacc hnil
    have hstore : w₂.store = w.store := hloop.store.trans hw₁.store
    refine ⟨World.sameExports_of_store hstore, ?_, ?_⟩
    · rw [hstore]
      exact hstored
    · have heq : w₂.store.importHandle enc.id = fun a => acc.encState.importHandles[a]? := by
        funext a
        rw [Store.importHandle, hstore, hs, hloop.unchanged hchanged]
        rfl
      rw [heq]
      exact hloop.wiring

theorem Wiring.forget {pre : List Import} {handles : String → Option Handle}
    (h : Wiring registry st enc pre handles w) : Wiring registry st enc [] handles w := fun a =>
  (h a).imp_right fun h => h.imp_left fun h => ⟨h.1, h.2.1, fun _ h => absurd h List.not_mem_nil⟩

theorem WiredSoFar.sameView {pre : List Import} (h : WiredSoFar registry st enc pre w)
    (hsame : w.SameExports w') (hview : w.SameView enc.id w') :
    WiredSoFar registry st enc pre w' := by
  have heq : w'.store.importHandle enc.id = w.store.importHandle enc.id := by
    funext a
    rw [Store.importHandle, hview.store]
    rfl
  refine ⟨by rw [hview.store]; exact h.1, ?_⟩
  rw [heq]
  exact h.2.mono hsame hview.lastImport

/-- The wiring pass, where it adds no error. -/
theorem wpE_wiringPass_clean {ordered : List Enclave}
    (hsame : ∀ e ∈ ordered, ∀ e' ∈ ordered, e.id = e'.id → e = e')
    (hdriver : ∀ enc ∈ ordered, ∃ driver, run.registry.forEnclave enc = .ok driver)
    (havailable : ∀ enc ∈ ordered, ∀ im ∈ enc.allImports,
      (w.store.exportHandle im.from_ im.exportName).isSome = true)
    (hinit : ∀ enc ∈ ordered, WiredSoFar run.registry st enc [] w) (errors : List ReportError) :
    Prog.wpE (system A) (wiringPass run ordered errors)
      (fun r w' => ∀ errors', r = .ok errors' → errors' = [] → errors = [] ∧
        (w.SameExports w' ∧ ∀ enc ∈ ordered,
          WiredSoFar run.registry st enc enc.allImports w')) w := by
  let I (pre : List Enclave) (_ : List ReportError) (w' : World) : Prop :=
    w.SameExports w' ∧ (∀ enc ∈ ordered, WiredSoFar run.registry st enc [] w') ∧
      ∀ enc ∈ pre, WiredSoFar run.registry st enc enc.allImports w'
  suffices hloop : Prog.wpE (system A) (ordered.foldlM (wireEnclave run) errors)
      (fun r w' => ∀ errors', r = .ok errors' → errors' = [] → errors = [] ∧
        I ordered errors' w') w from
    Prog.wpE_mono hloop fun r w' h errors' hr hnil =>
      ⟨(h errors' hr hnil).1, (h errors' hr hnil).2.1, (h errors' hr hnil).2.2.2⟩
  refine wpE_foldlM_clean (· = []) I (fun errors' enc _ => (wireEnclave_calls errors').mono
    (fun _ _ => trivial) fun _ h => h.eq_nil) ?_
    ⟨.refl w, hinit, fun _ h => absurd h List.not_mem_nil⟩
  rintro pre x post errors' w₁ hsplit hnil ⟨hw₁, hall, hpre⟩
  obtain rfl : errors' = [] := hnil
  have hx : x ∈ ordered := by simp [hsplit]
  refine Prog.wp_iff.mpr fun r w₂ hrun errors'' hr hclean => ?_
  have hvisit := hrun.wp (wpE_wireEnclave_clean (hdriver x hx)
    (fun im him => by rw [hw₁]; exact havailable x hx im him) (hall x hx)) errors'' hr hclean
  have hother : ∀ enc : Enclave, enc.id ≠ x.id → w₁.SameView enc.id w₂ := fun enc hid =>
    hrun.wp (sameView_wireEnclave (A := A) hid [] w₁ (.refl _ _))
  refine ⟨hw₁.trans hvisit.1, fun enc henc => ?_, fun enc henc => ?_⟩
  · by_cases hid : enc.id = x.id
    · rw [hsame enc henc x hx hid]
      exact ⟨hvisit.2.1, hvisit.2.2.forget⟩
    · exact (hall enc henc).sameView hvisit.1 (hother enc hid)
  · have hmem : enc ∈ ordered := by
      rw [hsplit]
      rcases List.mem_append.mp henc with h | h
      · simp [h]
      · simp [List.mem_singleton.mp h]
    by_cases hid : enc.id = x.id
    · rw [hsame enc hmem x hx hid]
      exact hvisit.2
    · have hold : enc ∈ pre := (List.mem_append.mp henc).resolve_right fun h =>
        hid (by rw [List.mem_singleton.mp h])
      exact (hpre enc hold).sameView hvisit.1 (hother enc hid)

theorem Event.exported_of_wires {c : Call} (hc : c.Wires enc) (r : Resp c) (id : EnclaveId)
    (name : String) : Event.exported id name ⟨c, r⟩ = none := by
  cases hc <;> rfl

/-- Wiring provisions no export. -/
theorem wiringPass_lastExport {ordered : List Enclave} (errors : List ReportError)
    (id : EnclaveId) (name : String) (last : Option (Export × Handle)) :
    Prog.Keeps (system A) (fun w => w.lastExport id name = last)
      (wiringPass run ordered errors) := by
  refine Prog.Keeps.foldlM (fun errors enc _ => ?_) errors
  refine (wireEnclave_calls errors).keeps _ fun w c r hc _ hw => ?_
  rw [system_next, World.lastExport_next, Event.exported_of_wires hc]
  exact hw

end

/-! ## Runs without errors -/

/-- The handles of an enclave after a run without errors, `st` being the store before it: the
exports have their newest handles, and every declared alias is bound. -/
structure Clean (registry : DriverRegistry) (st : Store) (enc : Enclave) (w : World) : Prop where
  driver : ∃ driver, registry.forEnclave enc = .ok driver
  exports : ∀ x ∈ enc.exports, ∃ ex h, w.lastExport enc.id x.name = some (ex, h) ∧
    w.store.exportHandle enc.id x.name = some h
  wiring : Wiring registry st enc enc.allImports (w.store.importHandle enc.id) w

section

variable {A : (c : Call) → Resp c → Prop} {host : Host} {req : ReconcileRequest}
  {registry : DriverRegistry} {desired : List Enclave} {w : World}

theorem Clean.quiet {st : Store} {enc : Enclave} {w w' : World} (h : Clean registry st enc w)
    (hquiet : w.Quiet w') : Clean registry st enc w' where
  driver := h.driver
  exports x hx := by
    rw [(hquiet.sameView enc.id).lastExport, hquiet.store]
    exact h.exports x hx
  wiring := by
    rw [hquiet.store]
    exact h.wiring.quiet hquiet

/-- The imports of an accepted list find the export handles that its provision pass stored. -/
theorem exportHandle_isSome_of_provisioned {resolved : ResolvedGraph} {st : Store}
    (hlawful : host.topo.Lawful) (hvalid : validate host.topo desired = .ok resolved)
    (hprov : ∀ enc ∈ orderedDesired resolved desired, Provisioned registry st enc w)
    {enc : Enclave} (henc : enc ∈ desired) {im : Import} (him : im ∈ enc.allImports) :
    (w.store.exportHandle im.from_ im.exportName).isSome = true := by
  obtain ⟨source, ex, hsource, hex, -⟩ := validate_import hvalid henc him
  have hid : source.id = im.from_ := (mem_of_get?_byId hsource).2
  rw [← hid] at hsource ⊢
  obtain ⟨s, hs, hexports⟩ := (hprov source ((mem_orderedDesired hlawful hvalid).mpr hsource)).stored
  obtain ⟨ex', h, -, hhandle⟩ := hexports ex (List.mem_of_find?_eq_some hex)
  obtain hname : ex.name = im.exportName := by simpa using List.find?_some hex
  rw [hname] at hhandle
  rw [Store.exportHandle, hs, Option.bind_some, hhandle]
  rfl

/-- After a provision pass without errors the wiring pass leaves every enclave clean. -/
theorem wpE_wiringPass_of_provisioned {run : Run} {resolved : ResolvedGraph} {st : Store}
    (hlawful : host.topo.Lawful) (hvalid : validate host.topo desired = .ok resolved)
    (hprov : ∀ enc ∈ orderedDesired resolved desired, Provisioned run.registry st enc w)
    (errors : List ReportError) :
    Prog.wpE (system A) (wiringPass run (orderedDesired resolved desired) errors)
      (fun r w' => ∀ errors', r = .ok errors' → errors' = [] →
        ∀ enc, (byId desired)[enc.id]? = some enc → Clean run.registry st enc w') w := by
  have hsame := eq_of_mem_orderedDesired hlawful hvalid
  have hinit : ∀ enc ∈ orderedDesired resolved desired,
      WiredSoFar run.registry st enc [] w := by
    intro enc henc
    obtain ⟨s, hs, -⟩ := (hprov enc henc).stored
    exact ⟨Option.isSome_iff_exists.mpr ⟨s, hs⟩, Wiring.init (hprov enc henc).imports⟩
  have hclean := wpE_wiringPass_clean (A := A) hsame (fun enc henc => (hprov enc henc).driver)
    (fun enc henc im him => exportHandle_isSome_of_provisioned hlawful hvalid hprov
      (mem_of_mem_orderedDesired henc) him) hinit errors
  refine Prog.wp_iff.mpr fun r w' hrun errors' hr hnil enc henc => ?_
  have hmem := (mem_orderedDesired hlawful hvalid).mpr henc
  obtain ⟨s, hs, hexports⟩ := (hprov enc hmem).stored
  obtain ⟨-, hsame', hwired⟩ := hrun.wp hclean errors' hr hnil
  refine ⟨(hprov enc hmem).driver, fun x hx => ?_, (hwired enc hmem).2⟩
  obtain ⟨ex, h, hlast, hhandle⟩ := hexports x hx
  refine ⟨ex, h, hrun.wp (wiringPass_lastExport errors _ _ _ hlast), ?_⟩
  rw [hsame', Store.exportHandle, hs, Option.bind_some, hhandle]

/-- The wiring pass takes no error back. -/
theorem wiringPass_adds {run : Run} {ordered : List Enclave} (errors : List ReportError)
    (w : World) :
    Prog.wpE (system A) (wiringPass run ordered errors)
      (fun r _ => ∀ errors', r = .ok errors' → errors' = [] → errors = []) w :=
  Prog.wpE_mono (wpE_foldlM_clean (· = []) (fun _ _ _ => True)
    (fun errors' _ _ => (wireEnclave_calls errors').mono (fun _ _ => trivial)
      fun _ h => h.eq_nil) (fun _ _ _ _ _ _ _ _ => Prog.wp_iff.mpr fun _ _ _ _ _ _ => trivial)
      trivial) fun _ _ h errors' hr hnil => (h errors' hr hnil).1

/-- **Runs without errors.** Every effective enclave is clean. -/
theorem clean_of_run (hlawful : host.topo.Lawful) (hdry : req.dryRun = false)
    {report : ReconcileReport} {w' : World}
    (hrun : Prog.Exec (system A) (reconcileLoaded host req registry desired).run w
      (.ok report) w') (herrors : report.errors = []) {enc : Enclave}
    (henc : (byId desired)[enc.id]? = some enc) : Clean registry w.store enc w' := by
  let J (w' : World) (errors : List ReportError) : Prop := errors = [] →
    ∀ enc, (byId desired)[enc.id]? = some enc → Clean registry w.store enc w'
  refine (hrun.wp (wpE_reconcileLoaded_keeps (I := fun _ => True) (J := J) hdry
    (fun _ _ _ _ => trivial) (fun _ _ _ h hquiet hnil enc henc => (h hnil enc henc).quiet hquiet)
    ?_ trivial)).2 report rfl herrors enc henc
  intro run resolved removed w₁ hstart _ _
  obtain rfl := hstart.registry_eq
  have hvalid := hstart.valid
  have hsame := eq_of_mem_orderedDesired hlawful hvalid
  have hok : Prog.wpE (system A) (passes run removed (orderedDesired resolved desired))
      (fun r w'' => ∀ errors, r = .ok errors → J w'' errors) w₁ := by
    refine Prog.wpE_bind_ok (Prog.wp_iff.mpr fun _ w₂ _ errors₁ _ => ?_)
    refine Prog.wpE_bind_ok (Prog.wpE_mono (wpE_provisionPass_clean hsame
      (fun enc _ => hstart.existing enc.id) errors₁ w₂) fun _ w₃ h₃ errors₂ hr₂ => ?_)
    by_cases hnil₂ : errors₂ = []
    · obtain ⟨-, hprov⟩ := h₃ errors₂ hr₂ hnil₂
      exact wpE_wiringPass_of_provisioned hlawful hvalid hprov errors₂
    · exact Prog.wpE_mono (wiringPass_adds errors₂ w₃) fun _ _ h errors₃ hr₃ hnil₃ =>
        absurd (h errors₃ hr₃ hnil₃) hnil₂
  exact Prog.wpE_mono hok fun _ _ h => ⟨trivial, h⟩

end

end Nclav
