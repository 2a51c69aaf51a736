import Nclav.Guarantees.ImportHandles

/-!
# Who may import what

Validation checks an import against the first export with its name. The run keeps one handle
for a name, that of the export provisioned last, or the one stored before if none of them
could be provisioned. So an importer is wired only to exports that admit it exactly when all
exports with that name admit it, and so does the declaration behind a handle that is stored
already (`export_access_iff`).
-/

namespace Nclav

open Effect

/-! ## Admitted wirings -/

/-- The export whose provisioning gave this handle. -/
def Event.producer (id : EnclaveId) (name : String) (h : Handle) (ev : Event) : Option Export :=
  (ev.exported id name).bind fun p => if p.2 = h then some p.1 else none

/-- The declaration that a handle stored under an export's name comes from: the newest export
of the run that was given it, or else the one it had before the run. -/
def producer (origin : EnclaveId → String → Export) (w : World) (id : EnclaveId) (name : String)
    (h : Handle) : Export :=
  (w.log.findSome? (Event.producer id name h)).getD (origin id name)

/-- Every import handle was built from an export that admits the importer. -/
def WiresAdmitted (origin : EnclaveId → String → Export) (w : World) : Prop :=
  ∀ driver importer im xh existing result,
    (⟨.provisionImport driver importer im xh existing, .ok result⟩ : Event) ∈ w.log →
      (producer origin w im.from_ im.exportName xh).to_.permitted importer.id = true

section

variable (host : Host) (req : ReconcileRequest) (desired : List Enclave) (st : Store)
  (origin : EnclaveId → String → Export)

/-- Whatever drivers there are and whatever they answer, imports are wired to exports that admit
the importer. -/
def AccessRespected : Prop :=
  ∀ registry r w', Prog.Exec (system anyAnswer) (reconcileLoaded host req registry desired).run
    (.ofStore st) r w' → WiresAdmitted origin w'

/-- All exports that an import still to be wired may find admit the importer: those with the name
that it asks for, and the one behind the handle that is stored under it. -/
def AllCandidatesAdmit : Prop :=
  ∀ importer : Enclave, (byId desired)[importer.id]? = some importer → ∀ im ∈ importer.allImports,
    st.importHandle importer.id im.alias_ = none →
      (∀ source, (byId desired)[im.from_]? = some source → ∀ x ∈ source.exports,
        x.name = im.exportName → x.to_.permitted importer.id = true) ∧
      ((st.exportHandle im.from_ im.exportName).isSome = true →
        (origin im.from_ im.exportName).to_.permitted importer.id = true)

end

/-! ## Where wired handles come from -/

/-- The handle was given in the run, or it was stored before. -/
def FromRun (st : Store) (w : World) (id : EnclaveId) (name : String) (h : Handle) : Prop :=
  (w.Logged fun ev => ∃ x, ev.exported id name = some (x, h)) ∨ st.exportHandle id name = some h

/-- The export handles of a record come from the run or the store before it, and it binds every
alias that was bound before. -/
structure SoundRecord (st : Store) (w : World) (s : EnclaveState) : Prop where
  exports : ∀ name h, s.exportHandles[name]? = some h → FromRun st w s.desired.id name h
  imports : ∀ a, (st.importHandle s.desired.id a).isSome = true →
    (s.importHandles[a]?).isSome = true

/-- What is known of an export that was provisioned, and of an import. -/
def SoundEvent (desired : List Enclave) (st : Store) (w : World) : Event → Prop
  | ⟨.provisionExport _ enc x _ _, _⟩ => (byId desired)[enc.id]? = some enc ∧ x ∈ enc.exports
  | ⟨.provisionImport _ enc im xh _, _⟩ => (byId desired)[enc.id]? = some enc ∧
      im ∈ enc.allImports ∧ st.importHandle enc.id im.alias_ = none ∧
      FromRun st w im.from_ im.exportName xh
  | _ => True

structure Sound (desired : List Enclave) (st : Store) (w : World) : Prop where
  records : ∀ id s, w.store.get? id = some s → SoundRecord st w s
  events : ∀ ev ∈ w.log, SoundEvent desired st w ev

section

variable {A : (c : Call) → Resp c → Prop} {host : Host} {req : ReconcileRequest}
  {registry : DriverRegistry} {desired : List Enclave} {st : Store} {run : Run} {w w' : World}
  {enc : Enclave} {driver : Driver}

theorem FromRun.mono {id : EnclaveId} {name : String} {h : Handle} (hfrom : FromRun st w id name h)
    (hlog : w.log ⊆ w'.log) : FromRun st w' id name h :=
  hfrom.imp_left fun ⟨ev, hev, hx⟩ => ⟨ev, hlog hev, hx⟩

theorem SoundRecord.mono {s : EnclaveState} (hs : SoundRecord st w s) (hlog : w.log ⊆ w'.log) :
    SoundRecord st w' s :=
  ⟨fun name h hh => (hs.exports name h hh).mono hlog, hs.imports⟩

theorem SoundRecord.sameWiring {s s' : EnclaveState} (hs : SoundRecord st w s)
    (hsame : s.SameWiring s') : SoundRecord st w s' := by
  refine ⟨fun name h hh => ?_, fun a ha => ?_⟩
  · rw [hsame.desired]
    rw [hsame.exportHandles] at hh
    exact hs.exports name h hh
  · rw [hsame.importHandles]
    rw [hsame.desired] at ha
    exact hs.imports a ha

theorem SoundRecord.insertExport {s : EnclaveState} (hs : SoundRecord st w s) {name : String}
    {h : Handle} (hfrom : FromRun st w s.desired.id name h) :
    SoundRecord st w { s with exportHandles := s.exportHandles.insert name h } := by
  refine ⟨fun name' h' hh => ?_, hs.imports⟩
  simp only [HashMap.get?_insert] at hh
  split at hh
  · rename_i hname
    obtain rfl := Option.some.inj hh
    rw [hname]
    exact hfrom
  · exact hs.exports name' h' hh

theorem SoundRecord.insertImport {s : EnclaveState} (hs : SoundRecord st w s) (a : String)
    (h : Handle) :
    SoundRecord st w { s with importHandles := s.importHandles.insert a h } := by
  refine ⟨hs.exports, fun a' ha' => ?_⟩
  simp only [HashMap.get?_insert]
  split
  · rfl
  · exact hs.imports a' ha'

theorem SoundEvent.mono {ev : Event} (hev : SoundEvent desired st w ev) (hlog : w.log ⊆ w'.log) :
    SoundEvent desired st w' ev := by
  obtain ⟨c, r⟩ := ev
  cases c with
  | provisionImport => exact ⟨hev.1, hev.2.1, hev.2.2.1, hev.2.2.2.mono hlog⟩
  | _ => exact hev

theorem Sound.next (h : Sound desired st w) {c : Call} {r : Resp c}
    (hrecord : ∀ s, c = .upsertEnclave s → SoundRecord st (w.next c r) s)
    (hevent : SoundEvent desired st (w.next c r) ⟨c, r⟩) : Sound desired st (w.next c r) := by
  have hlog : w.log ⊆ (w.next c r).log := List.subset_cons_self _ _
  refine ⟨fun id s hs => ?_, fun ev hev => ?_⟩
  · by_cases hstore : (w.next c r).store.get? id = w.store.get? id
    · rw [hstore] at hs
      exact (h.records id s hs).mono hlog
    · -- the store changed: an upsert stores a sound record, a deletion leaves one behind
      cases c with
      | upsertEnclave s' =>
        cases r with
        | ok _ =>
          rw [World.next_store, World.nextStore, Store.get?_upsert] at hs
          split at hs
          · obtain rfl := Option.some.inj hs
            exact hrecord s' rfl
          · exact (h.records id s hs).mono hlog
        | error e => exact absurd rfl hstore
      | deleteEnclave id' =>
        cases r with
        | ok _ =>
          rw [World.next_store, World.nextStore, Store.get?_delete] at hs
          split at hs
          · cases hs
          · exact (h.records id s hs).mono hlog
        | error e => exact absurd rfl hstore
      | deletePartition id' pid =>
        cases r with
        | ok _ =>
          rw [World.next_store, World.nextStore, Store.get?_deletePartition] at hs
          split at hs
          · obtain ⟨s', hs', rfl⟩ := Option.map_eq_some_iff.mp hs
            exact ((h.records id' s' hs').mono hlog).sameWiring (s'.sameWiring_partitions _)
          · exact (h.records id s hs).mono hlog
        | error e => exact absurd rfl hstore
      | _ => exact absurd rfl hstore
  · rcases List.mem_cons.mp hev with rfl | hev
    · exact hevent
    · exact (h.events ev hev).mono hlog

theorem Sound.call (h : Sound desired st w) {c : Call} (hc : c.written = none) (r : Resp c)
    (hevent : SoundEvent desired st (w.next c r) ⟨c, r⟩) : Sound desired st (w.next c r) := by
  refine h.next ?_ hevent
  rintro s rfl
  cases hc

theorem soundEvent_of_isQuiet {c : Call} (hc : c.isQuiet = true) (r : Resp c) :
    SoundEvent desired st w ⟨c, r⟩ := by
  cases c <;> trivial

theorem Sound.quiet (h : Sound desired st w) (hquiet : w.Quiet w') : Sound desired st w' := by
  refine ⟨fun id s hs => ?_, fun ev hev => ?_⟩
  · rw [hquiet.store] at hs
    exact (h.records id s hs).mono hquiet.log_subset
  · obtain ⟨c, r⟩ := ev
    by_cases hc : c.isQuiet = true
    · exact soundEvent_of_isQuiet hc r
    · exact (h.events _ (hquiet.mem_log hev (by simpa using hc))).mono hquiet.log_subset

theorem Sound.ofStore : Sound desired st (.ofStore st) := by
  refine ⟨fun id s hs => ?_, fun _ hev => absurd hev List.not_mem_nil⟩
  have hid : s.desired.id = id := Store.id_of_get? hs
  have hget : st.get? s.desired.id = some s := by
    rw [hid]
    exact hs
  refine ⟨fun name h hh => .inr ?_, fun a ha => ?_⟩
  · rw [Store.exportHandle, hget]
    exact hh
  · rw [Store.importHandle, hget] at ha
    exact ha

/-! ### The passes are sound -/

theorem keeps_sound_teardownRemoved {id : EnclaveId}
    (hkeyed : ∀ s, run.existing id = some s → s.desired.id = id) (errors : List ReportError) :
    Prog.Keeps (system A) (Sound desired st) (teardownRemoved run errors id) := by
  refine (teardownRemoved_calls hkeyed errors).keeps _ fun w c r hc _ hw => hw.next ?_ ?_
  · rintro s rfl
    rcases hc with hc | hc <;> cases hc
  · rcases hc with hc | rfl
    · cases hc <;> trivial
    · trivial

/-- A provision that writes records with the wiring of a sound one. -/
theorem sound_next_provisions (henc : (byId desired)[enc.id]? = some enc) {s : EnclaveState}
    {c : Call} (hc : c.Provisions enc s.SameWiring) (r : Resp c)
    (h : Sound desired st w ∧ SoundRecord st w s) :
    Sound desired st (w.next c r) ∧ SoundRecord st (w.next c r) s := by
  have hs : SoundRecord st (w.next c r) s := h.2.mono (List.subset_cons_self _ _)
  refine ⟨h.1.next ?_ ?_, hs⟩
  · rintro s' rfl
    cases hc with
    | upsertEnclave _ hsame => exact hs.sameWiring hsame
  · cases hc with
    | provisionExport _ _ _ _ hex => exact ⟨henc, hex⟩
    | _ => trivial

theorem sound_partitions (henc : (byId desired)[enc.id]? = some enc)
    (acc : EnclaveState × List ReportError) (hw : Sound desired st w)
    (hacc : SoundRecord st w acc.1) :
    Prog.Ensures (system A) (Sound desired st)
      (fun acc' w' => SoundRecord st w' acc'.1 ∧ acc'.1.desired = acc.1.desired)
      (enc.partitions.foldlM (provisionPartition run driver enc) acc) w := by
  have hcalls : Prog.CallsE (Call.Provisions enc acc.1.SameWiring)
      (fun acc' => acc.1.SameWiring acc'.1)
      (enc.partitions.foldlM (provisionPartition run driver enc) acc) :=
    Prog.CallsE.foldlM _ (fun acc' part hpart h => (provisionPartition_calls hpart acc').mono
      (fun _ hc => hc.mono fun _ hs => h.trans hs) fun _ h' => h.trans h'.1) (.refl _)
  refine Prog.wpE_mono (hcalls.wpE (I := fun w => Sound desired st w ∧ SoundRecord st w acc.1)
    (fun w c r hc _ h => sound_next_provisions henc hc r h) ⟨hw, hacc⟩) fun r w' h => ?_
  exact ⟨h.2.1, fun acc' hr => ⟨h.2.2.sameWiring (h.1 acc' hr), (h.1 acc' hr).desired⟩⟩

theorem sound_provisionExport (henc : (byId desired)[enc.id]? = some enc)
    {acc : EnclaveState × List ReportError} {x : Export} (hx : x ∈ enc.exports)
    (hw : Sound desired st w) (hacc : SoundRecord st w acc.1) (hid : acc.1.desired = enc) :
    Prog.Ensures (system A) (Sound desired st)
      (fun acc' w' => SoundRecord st w' acc'.1 ∧ acc'.1.desired = enc)
      (provisionExport driver enc acc x) w := by
  rw [provisionExport]
  refine (ensures_perform (P := fun (r : Except DriverError ProvisionResult) w₁ =>
    SoundRecord st w₁ acc.1 ∧ ∀ result, r = .ok result → FromRun st w₁ enc.id x.name result.handle)
    fun r _ _ => ?_).bind ?_
  · refine ⟨hw.call rfl r ?_, hacc.mono (List.subset_cons_self _ _), ?_⟩
    · exact ⟨henc, hx⟩
    · rintro result rfl
      exact .inl (w.logged_next ⟨x, if_pos ⟨rfl, rfl⟩⟩)
  rintro (e | result) w₁ hw₁ ⟨hacc₁, hfrom⟩
  · exact Prog.Ensures.pure hw₁ ⟨hacc₁, hid⟩
  · refine (ensures_appendEvent fun w₂ hw₂ => hw₁.quiet hw₂).bind fun _ w₂ hw₂ hquiet => ?_
    refine Prog.Ensures.pure hw₂ ⟨(hacc₁.mono hquiet.log_subset).insertExport ?_, hid⟩
    rw [hid]
    exact (hfrom result rfl).mono hquiet.log_subset

theorem sound_upsertEnclave {s : EnclaveState} (hs : SoundRecord st w s)
    (hw : Sound desired st w) :
    Prog.Ensures (system A) (Sound desired st)
      (fun _ w' => w' = w.next (.upsertEnclave s) (.ok ())) (upsertEnclave s) w := by
  refine ensures_upsertEnclave fun r => hw.next ?_ trivial
  rintro _ ⟨⟩
  exact hs.mono (List.subset_cons_self _ _)

theorem sound_provisionContents (henc : (byId desired)[enc.id]? = some enc) {s : EnclaveState}
    (hid : s.desired = enc) {errors : List ReportError} (hw : Sound desired st w)
    (hs : SoundRecord st w s) :
    Prog.Ensures (system A) (Sound desired st) (fun _ _ => True)
      (provisionContents run driver enc s errors) w := by
  rw [provisionContents]
  refine (sound_partitions henc (s, errors) hw hs).bind
    fun acc w₁ hw₁ hend => ?_
  obtain ⟨hacc, hid₁⟩ := hend
  refine (Prog.Ensures.foldlM (fun _ acc' w' => SoundRecord st w' acc'.1 ∧ acc'.1.desired = enc)
    (fun pre x post acc' w' hsplit hw' h => ?_) hw₁ ⟨hacc, hid₁.trans hid⟩).bind
    fun acc' w₂ hw₂ hend => ?_
  · exact sound_provisionExport henc (by simp [hsplit]) hw' h.1 h.2
  obtain ⟨hacc', -⟩ := hend
  refine (ensures_appendEvent fun w₃ hw₃ => hw₂.quiet hw₃).bind fun _ w₃ hw₃ hquiet => ?_
  exact (sound_upsertEnclave (hacc'.mono hquiet.log_subset) hw₃).bind
    fun _ w₄ hw₄ _ => Prog.Ensures.pure hw₄ trivial

theorem soundRecord_inFlight (hexisting : run.existing enc.id = st.get? enc.id) :
    SoundRecord st w (.inFlight run enc) := by
  refine ⟨fun name h hh => .inr ?_, fun a ha => ?_⟩
  · rw [exportHandles_inFlight hexisting] at hh
    exact hh
  · rw [importHandles_inFlight hexisting]
    exact ha

theorem keeps_sound_provisionEnclave (henc : (byId desired)[enc.id]? = some enc)
    (hexisting : run.existing enc.id = st.get? enc.id) (errors : List ReportError) :
    Prog.Keeps (system A) (Sound desired st) (provisionEnclave run errors enc) := by
  refine Prog.Keeps.of_ensures (P := fun _ _ => True) fun w hw => ?_
  rw [provisionEnclave]
  split
  · exact Prog.Ensures.pure hw trivial
  rename_i driver _
  have hs := fun w : World => soundRecord_inFlight (w := w) hexisting
  refine (sound_upsertEnclave (hs w) hw).bind fun _ w₁ hw₁ _ => ?_
  refine (ensures_perform (P := fun _ _ => True) fun r _ _ => ⟨hw₁.call rfl r ?_, trivial⟩).bind
    fun r w₂ hw₂ _ => ?_
  · trivial
  refine (ensures_perform (P := fun _ _ => True) fun now _ _ => ⟨hw₂.call rfl now ?_, trivial⟩).bind
    fun now w₃ hw₃ _ => ?_
  · trivial
  rcases r with e | result
  · refine (sound_upsertEnclave ?_ hw₃).bind fun _ w₄ hw₄ _ => ?_
    · exact ⟨(hs w₃).exports, (hs w₃).imports⟩
    · exact (ensures_appendEvent fun w₅ hw₅ => hw₄.quiet hw₅).bind
        fun _ w₅ hw₅ _ => Prog.Ensures.pure hw₅ trivial
  · refine sound_provisionContents henc ?_ hw₃ ?_
    · rfl
    · exact ⟨(hs w₃).exports, (hs w₃).imports⟩

/-- A handle that a record of the store holds comes from the run or the store before it. -/
theorem Sound.fromRun (h : Sound desired st w) {id : EnclaveId} {name : String} {xh : Handle}
    (hxh : w.store.exportHandle id name = some xh) : FromRun st w id name xh := by
  rw [Store.exportHandle] at hxh
  obtain ⟨s, hs, hname⟩ := Option.bind_eq_some_iff.mp hxh
  have hfrom := (h.records id s hs).exports name xh hname
  rw [Store.id_of_get? hs] at hfrom
  exact hfrom

theorem sound_wireImport (henc : (byId desired)[enc.id]? = some enc) {acc : WiringState}
    {im : Import} (him : im ∈ enc.allImports) (hw : Sound desired st w)
    (hacc : SoundRecord st w acc.encState) (hid : acc.encState.desired.id = enc.id) :
    Prog.Ensures (system A) (Sound desired st)
      (fun acc' w' => SoundRecord st w' acc'.encState ∧ acc'.encState.desired.id = enc.id)
      (wireImport driver enc acc im) w := by
  rw [wireImport]
  split
  · exact Prog.Ensures.pure hw ⟨hacc, hid⟩
  rename_i hunbound
  have hst : st.importHandle enc.id im.alias_ = none := by
    rw [← hid]
    refine Option.not_isSome_iff_eq_none.mp fun hbound => hunbound ?_
    exact hacc.imports im.alias_ hbound
  refine (ensures_getEnclave fun w₁ hw₁ => hw.quiet hw₁).bind ?_
  rintro exporter w₁ hw₁ ⟨rfl, hquiet⟩
  have hacc₁ := hacc.mono hquiet.log_subset
  split
  · exact Prog.Ensures.pure hw₁ ⟨hacc₁, hid⟩
  rename_i xh hxh
  have hfrom := (hw.fromRun hxh).mono hquiet.log_subset
  refine (ensures_perform (P := fun _ w₂ => SoundRecord st w₂ acc.encState) fun r _ _ => ?_).bind
    fun r w₂ hw₂ hacc₂ => ?_
  · refine ⟨hw₁.call rfl r ?_, hacc₁.mono (List.subset_cons_self _ _)⟩
    exact ⟨henc, him, hst, hfrom.mono (List.subset_cons_self _ _)⟩
  rcases r with e | result
  · exact Prog.Ensures.pure hw₂ ⟨hacc₂, hid⟩
  · refine (ensures_appendEvent fun w₃ hw₃ => hw₂.quiet hw₃).bind fun _ w₃ hw₃ hquiet₂ => ?_
    exact Prog.Ensures.pure hw₃ ⟨(hacc₂.mono hquiet₂.log_subset).insertImport _ _, hid⟩

theorem keeps_sound_wireEnclave (henc : (byId desired)[enc.id]? = some enc)
    (errors : List ReportError) :
    Prog.Keeps (system A) (Sound desired st) (wireEnclave run errors enc) := by
  refine Prog.Keeps.of_ensures (P := fun _ _ => True) fun w hw => ?_
  rw [wireEnclave]
  split
  · exact Prog.Ensures.pure hw trivial
  refine (ensures_getEnclave fun w₁ hw₁ => hw.quiet hw₁).bind fun stored w₁ hw₁ h => ?_
  rcases stored with _ | s
  · exact Prog.Ensures.pure hw₁ trivial
  have hs : w₁.store.get? enc.id = some s := by rw [h.2.store, ← h.1]
  refine (Prog.Ensures.foldlM (fun _ acc w' =>
    SoundRecord st w' acc.encState ∧ acc.encState.desired.id = enc.id)
    (fun pre im post acc w' hsplit hw' hacc => ?_) hw₁
    ⟨hw₁.records enc.id s hs, Store.id_of_get? hs⟩).bind fun acc w₂ hw₂ hacc => ?_
  · exact sound_wireImport henc (by simp [hsplit]) hw' hacc.1 hacc.2
  split
  · exact (sound_upsertEnclave hacc.1 hw₂).bind fun _ w₃ hw₃ _ => Prog.Ensures.pure hw₃ trivial
  · exact Prog.Ensures.pure hw₂ trivial

/-- **Every run is sound.** -/
theorem sound_of_run (hlawful : host.topo.Lawful) (hdry : req.dryRun = false)
    {r : Except ReconcileError ReconcileReport}
    (hrun : Prog.Exec (system A) (reconcileLoaded host req registry desired).run (.ofStore st)
      r w) : Sound desired st w := by
  refine (hrun.wp (wpE_reconcileLoaded_keeps (I := Sound desired st) (J := fun _ _ => True) hdry
    (fun _ _ h hquiet => h.quiet hquiet) (fun _ _ _ _ _ => trivial) ?_ .ofStore)).1
  intro run resolved removed w₁ hstart _ hw₁
  have heffective : ∀ enc ∈ orderedDesired resolved desired, (byId desired)[enc.id]? = some enc :=
    fun enc henc => (mem_orderedDesired hlawful hstart.valid).mp henc
  have hpasses : Prog.Keeps (system A) (Sound desired st)
      (passes run removed (orderedDesired resolved desired)) := by
    refine (Prog.Keeps.foldlM (fun errors id _ => ?_) _).bind fun errors =>
      (Prog.Keeps.foldlM (fun errors enc henc => ?_) _).bind fun errors =>
      Prog.Keeps.foldlM (fun errors enc henc => ?_) _
    · exact keeps_sound_teardownRemoved (fun s hs => hstart.keyed hs) errors
    · exact keeps_sound_provisionEnclave (heffective enc henc) (hstart.existing enc.id) errors
    · exact keeps_sound_wireEnclave (heffective enc henc) errors
  exact Prog.wpE_mono (hpasses hw₁) fun _ _ h => ⟨h, fun _ _ => trivial⟩

/-- An export that was provisioned is one of the enclave that is taken for its id. -/
theorem Sound.of_exported (h : Sound desired st w) {id : EnclaveId} {name : String} {ev : Event}
    (hev : ev ∈ w.log) {x : Export} {xh : Handle} (hx : ev.exported id name = some (x, xh)) :
    ∃ enc : Enclave, enc.id = id ∧ x.name = name ∧ (byId desired)[enc.id]? = some enc ∧
      x ∈ enc.exports := by
  rw [Event.exported.eq_def] at hx
  split at hx
  · rename_i driver enc x' outputs existing result
    split at hx
    · rename_i hcond
      cases hx
      obtain ⟨henc, hmem⟩ := h.events _ hev
      exact ⟨enc, hcond.1, hcond.2, henc, hmem⟩
    · cases hx
  · cases hx

/-- Where all candidates admit their importers, so do the exports that imports are wired to. -/
theorem Sound.wiresAdmitted {origin : EnclaveId → String → Export} (h : Sound desired st w)
    (hall : AllCandidatesAdmit desired st origin) : WiresAdmitted origin w := by
  intro driver importer im xh existing result hev
  obtain ⟨himporter, him, hst, hfrom⟩ := h.events _ hev
  obtain ⟨hexports, hstored⟩ := hall importer himporter im him hst
  rw [producer]
  rcases hfind : w.log.findSome? (Event.producer im.from_ im.exportName xh) with _ | x
  · have hnone := List.findSome?_eq_none_iff.mp hfind
    rcases hfrom with ⟨ev', hev', x, hx⟩ | hkept
    · have hprod := hnone ev' hev'
      rw [Event.producer, hx] at hprod
      simp at hprod
    · exact hstored (by rw [hkept]; rfl)
  · obtain ⟨⟨c, r⟩, hmem, hprod⟩ := List.exists_of_findSome?_eq_some hfind
    obtain ⟨⟨x', h'⟩, hexported, heq⟩ := Option.bind_eq_some_iff.mp hprod
    split at heq
    · obtain rfl := Option.some.inj heq
      obtain ⟨enc, hid, hname, henc, hx⟩ := h.of_exported hmem hexported
      rw [← hid] at hexports
      exact hexports enc henc x' hx hname
    · cases heq

end

/-! ## Every candidate can be wired -/

/-- Of the exports with a name a single one is provisioned, or none, and of all imports this one
only. -/
def probe (source : EnclaveId) (name : String) (only : Option Export) (importer : Enclave)
    (im : Import) : (c : Call) → Resp c → Prop
  | .provisionExport _ enc x _ _, r => enc.id = source → x.name = name →
      if only = some x then r = .ok ⟨.null, ∅⟩ else ∃ e, r = .error e
  | .provisionImport _ enc i _ _, r =>
      if enc = importer ∧ i = im then ∃ result, r = .ok result else ∃ e, r = .error e
  | c, r => failed c r = false

section

variable {source : EnclaveId} {name : String} {only : Option Export} {importer : Enclave}
  {im : Import}

theorem neverAborts_probe : NeverAborts (probe source name only importer im) := by
  intro c r hr hc
  cases c with
  | provisionExport | provisionImport => cases hc
  | _ => exact hr

/-- Every call has an answer of the probe. -/
theorem exists_answer_probe (w : World) (c : Call) :
    ∃ r, answers w c r ∧ probe source name only importer im c r := by
  cases c with
  | provisionExport driver enc x outputs existing =>
    by_cases hx : only = some x
    · exact ⟨.ok ⟨.null, ∅⟩, trivial, fun _ _ => by rw [if_pos hx]⟩
    · exact ⟨.error (.internal ""), trivial, fun _ _ => by rw [if_neg hx]; exact ⟨_, rfl⟩⟩
  | provisionImport driver enc i xh existing =>
    by_cases hi : enc = importer ∧ i = im
    · exact ⟨.ok ⟨.null, ∅⟩, trivial, by rw [probe, if_pos hi]; exact ⟨_, rfl⟩⟩
    · exact ⟨.error (.internal ""), trivial, by rw [probe, if_neg hi]; exact ⟨_, rfl⟩⟩
  | _ => exact exists_answer_ok w _

/-- The handle under the name is there, and if an export was to be provisioned it is that one's. -/
def Found (source : EnclaveId) (name : String) (only : Option Export) (handle : Option Handle)
    (w : World) : Prop :=
  handle.isSome = true ∧ ∀ x, only = some x → handle = some .null ∧
    w.Logged fun ev => ev.exported source name = some (x, .null)

/-- The export loop of the source. -/
theorem wpE_exports_probe {driver : Driver} {enc : Enclave} (acc : EnclaveState × List ReportError)
    (w : World) :
    Prog.wpE (system (probe source name only importer im))
      (enc.exports.foldlM (provisionExport driver enc) acc)
      (fun r w' => ∀ acc', r = .ok acc' →
        acc'.1 = { acc.1 with exportHandles := acc'.1.exportHandles } ∧
          (enc.id = source →
            (∀ x, only = some x → x ∈ enc.exports ∧ x.name = name) →
            (only = none → (acc.1.exportHandles[name]?).isSome = true) →
            Found source name only acc'.1.exportHandles[name]? w')) w := by
  let I (pre : List Export) (acc' : EnclaveState × List ReportError) (w' : World) : Prop :=
    acc'.1 = { acc.1 with exportHandles := acc'.1.exportHandles } ∧
      ((acc.1.exportHandles[name]?).isSome = true →
        (acc'.1.exportHandles[name]?).isSome = true) ∧
      ∀ x ∈ pre, enc.id = source → x.name = name → only = some x →
        acc'.1.exportHandles[name]? = some .null ∧
          w'.Logged fun ev => ev.exported source name = some (x, .null)
  refine Prog.wpE_mono (Prog.wp_foldlM_ok (Q := I enc.exports) I ?_ (fun _ _ h => h)
    ⟨rfl, fun h => h, fun _ h => absurd h List.not_mem_nil⟩) fun r w' h acc' hr => ?_
  · rintro pre x post acc' w' - ⟨hacc', hsome, hpre⟩
    refine wpE_provisionExport_ok (fun existing result w'' hprobe hw'' => ⟨?_, ?_, ?_⟩)
      (fun existing e hprobe => ⟨hacc', hsome, ?_⟩)
    · rw [hacc']
    · intro h
      simp only [HashMap.get?_insert]
      split
      · rfl
      · exact hsome h
    · intro y hy hid hname honly
      by_cases hx : x.name = name
      · -- only the chosen export can be provisioned under the name
        have hans := hprobe hid hx
        split at hans
        · rename_i hchosen
          obtain rfl : y = x := Option.some.inj (honly.symm.trans hchosen)
          cases hans
          refine ⟨?_, (World.logged_next w' ?_).quiet hw''⟩
          · simp only [HashMap.get?_insert]
            exact if_pos hx.symm
          · exact if_pos ⟨hid, hx⟩
        · obtain ⟨e, he⟩ := hans
          cases he
      · have hold : y ∈ pre := (List.mem_append.mp hy).resolve_right fun h =>
          hx (by rw [← List.mem_singleton.mp h]; exact hname)
        obtain ⟨hget, ev, hev, hexp⟩ := hpre y hold hid hname honly
        refine ⟨?_, ev, hw''.log_subset (List.mem_cons_of_mem _ hev), hexp⟩
        simp only [HashMap.get?_insert]
        exact (if_neg (Ne.symm hx)).trans hget
    · intro y hy hid hname honly
      have hold : y ∈ pre := by
        refine (List.mem_append.mp hy).resolve_right fun h => ?_
        obtain rfl := List.mem_singleton.mp h
        have hans := hprobe hid hname
        rw [if_pos honly] at hans
        cases hans
      obtain ⟨hget, ev, hev, hexp⟩ := hpre y hold hid hname honly
      exact ⟨hget, ev, List.mem_cons_of_mem _ hev, hexp⟩
  · obtain ⟨hrest, hsome, hfound⟩ := h acc' hr
    refine ⟨hrest, fun hid hmem hkept => ?_⟩
    rcases honly : only with _ | x
    · exact ⟨hsome (hkept honly), nofun⟩
    · obtain ⟨hx, hname⟩ := hmem x honly
      have hget := hfound x hx hid hname honly
      refine ⟨by rw [hget.1]; rfl, ?_⟩
      rintro _ ⟨⟩
      exact hget

/-- What the provision pass leaves of an enclave: nothing wired yet, and in the source the
handle of the chosen export. -/
structure Probed (source : EnclaveId) (name : String) (only : Option Export) (st : Store)
    (enc : Enclave) (w : World) : Prop where
  stored : (w.store.get? enc.id).isSome = true
  imports : ∀ a, w.store.importHandle enc.id a = st.importHandle enc.id a
  found : enc.id = source → (∀ x, only = some x → x ∈ enc.exports ∧ x.name = name) →
    (only = none → (st.exportHandle source name).isSome = true) →
    Found source name only (w.store.exportHandle source name) w

theorem Found.mono {handle : Option Handle} {w w' : World} (h : Found source name only handle w)
    (hlog : w.log ⊆ w'.log) : Found source name only handle w' := by
  refine ⟨h.1, fun x hx => ?_⟩
  obtain ⟨hnull, ev, hev, hexp⟩ := h.2 x hx
  exact ⟨hnull, ev, hlog hev, hexp⟩

theorem Probed.mono {st : Store} {enc : Enclave} {w w' : World}
    (h : Probed source name only st enc w) (hview : w.SameView enc.id w')
    (hlog : w.log ⊆ w'.log) : Probed source name only st enc w' where
  stored := by
    rw [hview.store]
    exact h.stored
  imports a := by
    rw [Store.importHandle, hview.store]
    exact h.imports a
  found hid hmem hkept := by
    have hsame : w'.store.exportHandle source name = w.store.exportHandle source name := by
      rw [Store.exportHandle, ← hid, hview.store]
      rfl
    rw [hsame]
    exact (h.found hid hmem hkept).mono hlog

theorem wpE_provisionEnclave_probe {run : Run} {st : Store} {enc : Enclave} {driver : Driver}
    (hdriver : run.registry.forEnclave enc = .ok driver)
    (hexisting : run.existing enc.id = st.get? enc.id) (errors : List ReportError) (w : World) :
    Prog.wpE (system (probe source name only importer im)) (provisionEnclave run errors enc)
      (fun r w' => ∀ errors', r = .ok errors' → Probed source name only st enc w') w := by
  refine wpE_provisionEnclave_ok hdriver (fun existing result now w₁ _ _ => ?_)
    fun _ e _ _ _ hprobe _ _ => absurd (show true = false from hprobe) nofun
  refine wpE_provisionContents_ok ?_
  refine Prog.wpE_mono (wpE_partitions_sameWiring _ ?_ w₁) fun _ w₂ h₂ acc hacc => ?_
  · rfl
  refine Prog.wpE_mono (wpE_exports_probe acc w₂) fun _ w₃ h₃ acc' hacc' w₄ hw₄ => ?_
  have hwiring := (h₂ acc hacc).1
  obtain ⟨hrest, hfound⟩ := h₃ acc' hacc'
  have hid : acc'.1.desired.id = enc.id := by
    rw [hrest]
    exact congrArg Enclave.id hwiring.desired
  have hget : (w₄.next (.upsertEnclave acc'.1) (.ok ())).store.get? enc.id = some acc'.1 :=
    (Store.get?_upsert ..).trans (if_pos hid.symm)
  refine ⟨by rw [hget]; rfl, fun a => ?_, fun hsource hmem hkept => ?_⟩
  · rw [Store.importHandle, hget, ← importHandles_inFlight hexisting, hrest]
    simp only [Option.bind_some]
    rw [hwiring.importHandles]
  · have hname : (w₄.next (.upsertEnclave acc'.1) (.ok ())).store.exportHandle source name =
        acc'.1.exportHandles[name]? := by
      rw [Store.exportHandle, ← hsource, hget]
      rfl
    rw [hname]
    refine (hfound hsource hmem fun hnone => ?_).mono fun ev hev =>
      List.mem_cons_of_mem _ (hw₄.log_subset hev)
    have hsome := hkept hnone
    rw [← hsource, ← exportHandles_inFlight hexisting] at hsome
    rw [hwiring.exportHandles]
    exact hsome

/-- The import was provisioned from this handle. -/
def WiredByProbe (importer : Enclave) (im : Import) (xh : Handle) (w : World) : Prop :=
  w.Logged fun ev => ∃ driver result,
    ev = ⟨.provisionImport driver importer im xh none, .ok result⟩

theorem WiredByProbe.mono {xh : Handle} {w w' : World} (h : WiredByProbe importer im xh w)
    (hlog : w.log ⊆ w'.log) : WiredByProbe importer im xh w' := by
  obtain ⟨ev, hev, hp⟩ := h
  exact ⟨ev, hlog hev, hp⟩

/-- The imports of the importer: its alias stays unbound until the import itself is reached. -/
theorem wpE_imports_probe {driver : Driver} {s : EnclaveState} {xh : Handle} {w : World}
    (him : im ∈ importer.allImports)
    (hxh : w.store.exportHandle im.from_ im.exportName = some xh)
    (hunbound : s.importHandles[im.alias_]? = none) (errors : List ReportError) :
    Prog.wpE (system (probe source name only importer im))
      (importer.allImports.foldlM (wireImport driver importer)
        { encState := s, changed := false, errors })
      (fun r w' => ∀ acc, r = .ok acc → WiredByProbe importer im xh w') w := by
  let I (pre : List Import) (acc : WiringState) (w' : World) : Prop :=
    WiredByProbe importer im xh w' ∨ w'.store = w.store ∧
      acc.encState.importHandles[im.alias_]? = none ∧ im ∉ pre
  refine Prog.wp_foldlM_ok I ?_ (fun acc w' h => h.resolve_right fun hno => hno.2.2 him)
    (.inr ⟨rfl, hunbound, List.not_mem_nil⟩)
  rintro pre x post acc w₁ - (hwired | ⟨hstore, hnone, hpre⟩)
  · exact Prog.wp_iff.mpr fun r w₂ hexec acc' hr => .inl (hwired.mono (log_subset hexec))
  -- an import that is passed over or fails is another one
  have hkeep : x ≠ im → im ∉ pre ++ [x] := fun hne hmem =>
    (List.mem_append.mp hmem).elim hpre fun h => hne (List.mem_singleton.mp h).symm
  refine wpE_wireImport_ok (fun hbound => ?_) (fun w₂ hw₂ hmissing => ?_)
    (fun _ xh' result w₂ w₃ _ hxh' hprobe hw₃ => .inl ?_) fun xh' e w₂ hw₂ hprobe => ?_
  · refine .inr ⟨hstore, hnone, hkeep ?_⟩
    rintro rfl
    rw [hnone] at hbound
    cases hbound
  · refine .inr ⟨hw₂.store.trans hstore, hnone, hkeep ?_⟩
    rintro rfl
    rw [hstore, hxh] at hmissing
    cases hmissing
  · rw [probe] at hprobe
    split at hprobe
    · rename_i heq
      obtain ⟨-, rfl⟩ := heq
      rw [hstore, hxh] at hxh'
      obtain rfl := Option.some.inj hxh'
      exact (World.logged_next w₂ ⟨driver, result, rfl⟩).quiet hw₃
    · obtain ⟨e, he⟩ := hprobe
      cases he
  · refine .inr ⟨hw₂.store.trans hstore, hnone, hkeep ?_⟩
    rintro rfl
    rw [probe, if_pos ⟨rfl, rfl⟩] at hprobe
    obtain ⟨result, hresult⟩ := hprobe
    cases hresult

/-- The importer is visited. -/
theorem wpE_wireEnclave_probe {run : Run} {driver : Driver} {xh : Handle} {w : World}
    (hdriver : run.registry.forEnclave importer = .ok driver)
    (him : im ∈ importer.allImports)
    (hxh : w.store.exportHandle im.from_ im.exportName = some xh)
    (hstored : (w.store.get? importer.id).isSome = true)
    (hunbound : w.store.importHandle importer.id im.alias_ = none) (errors : List ReportError) :
    Prog.wpE (system (probe source name only importer im)) (wireEnclave run errors importer)
      (fun r w' => ∀ errors', r = .ok errors' → WiredByProbe importer im xh w') w := by
  obtain ⟨s, hs⟩ := Option.isSome_iff_exists.mp hstored
  rw [Store.importHandle, hs] at hunbound
  refine wpE_wireEnclave_ok hdriver hs fun w₁ hw₁ => ?_
  rw [← hw₁.store] at hxh
  refine Prog.wpE_mono (wpE_imports_probe him hxh hunbound errors) fun r w₂ h acc hr => ?_
  exact ⟨fun _ => (h acc hr).mono (List.subset_cons_self _ _), fun _ => h acc hr⟩

/-- The wiring pass reaches the importer with its alias still unbound. -/
theorem wpE_wiringPass_probe {run : Run} {driver : Driver} {ordered : List Enclave} {xh : Handle}
    {w : World} (hsame : ∀ e ∈ ordered, ∀ e' ∈ ordered, e.id = e'.id → e = e')
    (himporter : importer ∈ ordered) (hdriver : run.registry.forEnclave importer = .ok driver)
    (him : im ∈ importer.allImports)
    (hxh : w.store.exportHandle im.from_ im.exportName = some xh)
    (hstored : (w.store.get? importer.id).isSome = true)
    (hunbound : w.store.importHandle importer.id im.alias_ = none) (errors : List ReportError) :
    Prog.wpE (system (probe source name only importer im)) (wiringPass run ordered errors)
      (fun r w' => ∀ errors', r = .ok errors' → WiredByProbe importer im xh w') w := by
  let I (pre : List Enclave) (_ : List ReportError) (w' : World) : Prop :=
    WiredByProbe importer im xh w' ∨
      importer ∉ pre ∧ w.SameExports w' ∧ w.SameView importer.id w'
  refine Prog.wp_foldlM_ok I ?_ (fun _ _ h => h.resolve_right fun hno => hno.1 himporter)
    (.inr ⟨List.not_mem_nil, .refl w, .refl _ w⟩)
  rintro pre x post errors' w₁ hsplit (hwired | ⟨hpre, hexports, hview⟩)
  · exact Prog.wp_iff.mpr fun r w₂ hexec _ _ => .inl (hwired.mono (log_subset hexec))
  by_cases hx : x = importer
  · subst hx
    refine Prog.wpE_mono (wpE_wireEnclave_probe hdriver him ((hexports _ _).trans hxh) ?_ ?_
      errors') fun r w₂ h errors'' hr => .inl (h errors'' hr)
    · rw [hview.store]
      exact hstored
    · rw [Store.importHandle, hview.store]
      exact hunbound
  · have hid : importer.id ≠ x.id := fun hid =>
      hx (hsame x (by simp [hsplit]) importer himporter hid.symm)
    refine Prog.wp_iff.mpr fun r w₂ hexec errors'' _ => .inr ⟨fun hmem => ?_, ?_, ?_⟩
    · exact (List.mem_append.mp hmem).elim hpre fun h => hx (List.mem_singleton.mp h).symm
    · exact hexports.trans (sameExports_wireEnclave errors' hexec)
    · exact hview.trans (hexec.wp (sameView_wireEnclave hid errors' w₁ (.refl _ w₁)))

/-- Of a handle in a run of the probe, the producer is the chosen export, if there was one. -/
theorem producer_probe {origin : EnclaveId → String → Export} {xh : Handle} {w : World}
    (hprobe : ∀ ev ∈ w.log, probe source name only importer im ev.1 ev.2)
    (hfound : Found source name only (some xh) w) :
    producer origin w source name xh = only.getD (origin source name) := by
  have honly : ∀ ev ∈ w.log, ∀ x, Event.producer source name xh ev = some x → only = some x := by
    intro ev hev x hx
    obtain ⟨⟨x', h'⟩, hexported, heq⟩ := Option.bind_eq_some_iff.mp hx
    rw [Event.exported.eq_def] at hexported
    split at hexported
    · split at hexported
      · rename_i hcond
        cases hexported
        split at heq
        · obtain rfl := Option.some.inj heq
          have hans := hprobe _ hev hcond.1 hcond.2
          by_contra hne
          rw [if_neg hne] at hans
          obtain ⟨e, he⟩ := hans
          cases he
        · cases heq
      · cases hexported
    · cases hexported
  rw [producer]
  rcases hfind : w.log.findSome? (Event.producer source name xh) with _ | x
  · rcases only with _ | x
    · rfl
    · obtain ⟨hnull, ev, hev, hexp⟩ := hfound.2 x rfl
      obtain rfl := Option.some.inj hnull
      have hnone := List.findSome?_eq_none_iff.mp hfind ev hev
      rw [Event.producer, hexp] at hnone
      simp at hnone
  · obtain ⟨ev, hev, hx⟩ := List.exists_of_findSome?_eq_some hfind
    rw [honly ev hev x hx, Option.getD_some]

/-- A candidate can be reached: there is a run that wires the import to it. -/
theorem exists_wired {host : Host} {req : ReconcileRequest} {desired : List Enclave} {st : Store}
    (only : Option Export) (hlawful : host.topo.Lawful) (hdry : req.dryRun = false) {resolved : ResolvedGraph}
    (hvalid : validate host.topo desired = .ok resolved)
    (himporter : (byId desired)[importer.id]? = some importer) (him : im ∈ importer.allImports)
    (hunbound : st.importHandle importer.id im.alias_ = none) {source : Enclave}
    (hsource : (byId desired)[im.from_]? = some source)
    (hmem : ∀ x, only = some x → x ∈ source.exports ∧ x.name = im.exportName)
    (hkept : only = none → (st.exportHandle im.from_ im.exportName).isSome = true)
    (origin : EnclaveId → String → Export) :
    ∃ registry r w', Prog.Exec (system anyAnswer) (reconcileLoaded host req registry desired).run
        (.ofStore st) r w' ∧
      ∃ driver xh result,
        (⟨.provisionImport driver importer im xh none, .ok result⟩ : Event) ∈ w'.log ∧
        producer origin w' im.from_ im.exportName xh =
          only.getD (origin im.from_ im.exportName) := by
  let registry : DriverRegistry := ⟨.local, fun _ => some plainDriver⟩
  let A := probe im.from_ im.exportName only importer im
  obtain ⟨r, w', hrun⟩ := Prog.exists_exec (M := system A) exists_answer_probe
    (reconcileLoaded host req registry desired).run (.ofStore st)
  have hprobe := log_answers hrun fun _ h => absurd h List.not_mem_nil
  have hid : source.id = im.from_ := (mem_of_get?_byId hsource).2
  rw [← hid] at hsource
  -- what holds after the passes
  let P (w : World) : Prop :=
    ∃ xh, Found im.from_ im.exportName only (some xh) w ∧ WiredByProbe importer im xh w
  have hP : P w' := by
    refine holds_of_run neverAborts_probe hdry hvalid (P := P) (fun w₁ w₂ h hquiet => ?_) ?_ hrun
    · obtain ⟨xh, hfound, hlogged⟩ := h
      exact ⟨xh, hfound.mono hquiet.log_subset, hlogged.quiet hquiet⟩
    intro run removed w₁ hstart
    have hdriver : ∀ enc, run.registry.forEnclave enc = .ok plainDriver := fun enc => by
      rw [hstart.registry_eq]
      rfl
    have hsame := eq_of_mem_orderedDesired hlawful hvalid
    refine Prog.wpE_bind_ok (Prog.wp_iff.mpr fun _ w₂ _ errors₁ _ => ?_)
    refine Prog.wpE_bind_ok (Prog.wpE_mono (wpE_provisionPass_each (fun _ => True)
      (Probed im.from_ im.exportName only st) hsame (fun _ _ => trivial)
      (fun _ _ _ h hview hlog => h.mono hview hlog) (fun enc _ errors w _ => ?_) errors₁ w₂)
      fun _ w₃ h₃ errors₂ hr₂ => ?_)
    · exact Prog.wpE_mono (wpE_provisionEnclave_probe (hdriver enc) (hstart.existing enc.id)
        errors w) fun _ _ h errors' hr _ => h errors' hr
    obtain ⟨-, hprobed⟩ := h₃ errors₂ hr₂ trivial
    have hmem_importer := (mem_orderedDesired hlawful hvalid).mpr himporter
    have himporter₃ := hprobed importer hmem_importer
    have hfound := (hprobed source ((mem_orderedDesired hlawful hvalid).mpr hsource)).found hid
      hmem hkept
    obtain ⟨xh, hxh⟩ := Option.isSome_iff_exists.mp hfound.1
    rw [hxh] at hfound
    refine Prog.wp_iff.mpr fun r w₄ hexec errors₃ hr₃ => ⟨xh, hfound.mono (log_subset hexec), ?_⟩
    exact hexec.wp (wpE_wiringPass_probe hsame hmem_importer (hdriver importer) him hxh
      himporter₃.stored ((himporter₃.imports _).trans hunbound) errors₂) errors₃ hr₃
  obtain ⟨xh, hfound, ev, hev, driver, result, rfl⟩ := hP
  exact ⟨registry, r, w', exec_anyAnswer hrun, driver, xh, result, hev,
    producer_probe hprobe hfound⟩

/-- **Who may import what.** Whatever the drivers answer, imports of an accepted list are wired
only to exports that admit the importer, exactly when all exports that an import may find
admit it. -/
theorem export_access_iff {host : Host} {req : ReconcileRequest} {desired : List Enclave}
    {st : Store} (hlawful : host.topo.Lawful) (hdry : req.dryRun = false)
    {resolved : ResolvedGraph} (hvalid : validate host.topo desired = .ok resolved)
    (origin : EnclaveId → String → Export) :
    AccessRespected host req desired st origin ↔ AllCandidatesAdmit desired st origin := by
  constructor
  · intro hrespected importer himporter im him hunbound
    obtain ⟨source, -, hsource, -⟩ := validate_import hvalid (mem_of_get?_byId himporter).1 him
    refine ⟨fun source' hsource' x hx hname => ?_, fun hkept => ?_⟩
    · rw [hsource] at hsource'
      obtain rfl := Option.some.inj hsource'
      obtain ⟨registry, r, w, hrun, driver, xh, result, hev, hproducer⟩ :=
        exists_wired (some x) hlawful hdry hvalid himporter him hunbound hsource
          (by rintro _ ⟨⟩; exact ⟨hx, hname⟩) nofun origin
      have hadmitted := hrespected registry r w hrun _ _ _ _ _ _ hev
      rw [hproducer] at hadmitted
      exact hadmitted
    · obtain ⟨registry, r, w, hrun, driver, xh, result, hev, hproducer⟩ :=
        exists_wired none hlawful hdry hvalid himporter him hunbound hsource nofun
          (fun _ => hkept) origin
      have hadmitted := hrespected registry r w hrun _ _ _ _ _ _ hev
      rw [hproducer] at hadmitted
      exact hadmitted
  · intro hall registry r w hrun
    exact (sound_of_run hlawful hdry hrun).wiresAdmitted hall

end

/-! ### Two exports of one name -/

/-- Where the exports of a name agree, so do what is checked and what is wired. -/
theorem distinct_names_respected :
    AccessRespected plainHost .default [exporter, pointing "x"] .empty
      fun _ name => plainExport name .public_ := by
  obtain ⟨resolved, hvalid⟩ : ∃ resolved,
      validate plainHost.topo [exporter, pointing "x"] = .ok resolved := ⟨_, rfl⟩
  refine (export_access_iff Topo.kahn_lawful rfl hvalid _).mpr ?_
  intro importer himporter im him _
  rcases List.mem_cons.mp (mem_of_get?_byId himporter).1 with rfl | hmem
  · exact absurd him List.not_mem_nil
  obtain rfl := List.mem_singleton.mp hmem
  obtain rfl := List.mem_singleton.mp him
  refine ⟨fun source hsource x hx _ => ?_, fun _ => rfl⟩
  obtain rfl : exporter = source := Option.some.inj hsource
  rcases List.mem_cons.mp hx with rfl | hx
  · rfl
  · obtain rfl := List.mem_singleton.mp hx
    rfl

/-- An enclave that exports `x` to everyone, and again to a single enclave. -/
def shadowing : Enclave :=
  plainEnclave "a" [plainExport "x" .anyEnclave, plainExport "x" (.enclave ⟨"c"⟩)]
    [plainPartition "p" []]

/-- **The second export of a name is wired unchecked.** The list is accepted on the strength of
the first `x`; the enclave `b` is wired to the second, which is for `c` only. -/
theorem shadowed_export_wired :
    (∃ resolved, validate plainHost.topo [shadowing, pointing "x"] = .ok resolved) ∧
      ¬ AccessRespected plainHost .default [shadowing, pointing "x"] .empty
        fun _ name => plainExport name .public_ := by
  refine ⟨⟨_, rfl⟩, fun hrespected => ?_⟩
  have hrun := exec_okRun [shadowing, pointing "x"] (.ofStore .empty)
  have hlogged : (⟨.provisionImport plainDriver (pointing "x") ⟨⟨"a"⟩, "x", "db"⟩ (.str "x") none,
      .ok ⟨.str "x", ∅⟩⟩ : Event) ∈
        (okRun [shadowing, pointing "x"] (.ofStore .empty)).2.log := by
    have hlast : (okRun [shadowing, pointing "x"] (.ofStore .empty)).2.lastImport ⟨"b"⟩ "db" =
      some ⟨.provisionImport plainDriver (pointing "x") ⟨⟨"a"⟩, "x", "db"⟩ (.str "x") none,
        .ok ⟨.str "x", ∅⟩⟩ := rfl
    exact List.mem_of_find?_eq_some hlast
  have hadmitted := hrespected _ _ _ hrun _ _ _ _ _ _ hlogged
  have hproducer : producer (fun _ name => plainExport name .public_)
      (okRun [shadowing, pointing "x"] (.ofStore .empty)).2 ⟨"a"⟩ "x" (.str "x") =
        plainExport "x" (.enclave ⟨"c"⟩) := rfl
  rw [hproducer] at hadmitted
  cases hadmitted

end Nclav
