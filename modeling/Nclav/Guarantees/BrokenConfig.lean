import Nclav.Reconciler.Reconcile

/-!
# Broken configuration files

An enclave whose `config.yml` is no longer understood must not be mistaken for one that was
removed. A run destroys exactly the stored enclaves that the load leaves out, and the load
leaves out, without an error, a config that is no YAML, one with an `id` that does not
deserialize and everything below a directory that cannot be listed. So the configs met by the
walk are spared exactly when no broken one of them names a stored enclave that the rest of the
tree does not define (`spares_met_configs_iff`).
-/

namespace Nclav

open Effect

/-! ## What the walk meets -/

/-- The directories that the walk from a root meets. -/
def rootWalk (fs : FileSystem) (path : String) : Dir → List (String × Dir)
  | .denied _ => []
  | .readable entries => walkEntries fs path entries

/-- The text of a `config.yml` that the walk meets. -/
def MetConfig (fs : FileSystem) (path : String) (root : Dir) (content : String) : Prop :=
  ∃ met ∈ rootWalk fs path root, fs.readConfig (configYml met.1) = some (.ok content)

/-- The text has the top-level field `id`, with this id. Of a text that is no YAML, `seen` is the
id that stands there for a reader. -/
def Names (fs : FileSystem) (seen : String → Option String) (content : String) (id : EnclaveId) :
    Prop :=
  match fs.parseYaml content with
  | some v => ∃ x ∈ v.values "id", x.text = some id.val
  | none => seen content = some id.val

/-- A text that is no YAML, or a document with an `id` that is no enclave: a field is missing, of
the wrong type or there twice. -/
def Broken (fs : FileSystem) (content : String) : Prop :=
  match fs.parseYaml content with
  | some v => v.values "id" ≠ [] ∧ RawEnclave.deserialize v = none
  | none => True

/-- A directory that the walk would enter but cannot list. -/
def Unlisted (fs : FileSystem) (path : String) (root : Dir) : Prop :=
  ∃ met ∈ rootWalk fs path root, ∃ err, met.2 = .denied err ∧ enclaveAt fs met.1 = none

/-! ## Loading -/

section

variable {fs : FileSystem} {path : String} {root : Dir} {desired : List Enclave}

theorem bind_eq_ok {ε α β : Type} {x : Except ε α} {f : α → Except ε β} {b : β}
    (h : x >>= f = .ok b) : ∃ a, x = .ok a ∧ f a = .ok b := by
  cases x with
  | error e => cases h
  | ok a => exact ⟨a, rfl, h⟩

theorem convertEnclave_id {raw : RawEnclave} {d : Dir} {configPath : String} {enc : Enclave}
    (h : convertEnclave fs raw path d configPath = .ok enc) : enc.id = ⟨raw.id⟩ := by
  obtain ⟨cloud, -, h⟩ := bind_eq_ok h
  obtain ⟨exports, -, h⟩ := bind_eq_ok h
  obtain ⟨named, -, h⟩ := bind_eq_ok h
  obtain ⟨scanned, -, h⟩ := bind_eq_ok h
  obtain rfl := Except.ok.inj h
  rfl

/-- A loaded tree loads every directory that its walk meets. -/
theorem loadConfig_of_loaded (h : loadEnclaves fs path root = .ok desired) {met : String × Dir}
    (hmet : met ∈ rootWalk fs path root) :
    ∃ o, loadConfig fs met.1 met.2 = .ok o ∧ ∀ enc, o = some enc → enc ∈ desired := by
  cases root with
  | denied err => cases h
  | readable entries =>
    obtain ⟨-, os, hos, rfl⟩ := loadEnclaves_eq_ok.mp h
    obtain ⟨o, ho, hload⟩ := loadConfig_of_loadMet hos hmet
    exact ⟨o, hload, fun enc henc => List.mem_filterMap.mpr ⟨o, ho, henc⟩⟩

/-- The root cannot be listed, or an entry of it cannot be read. -/
def RootFails : Dir → Prop
  | .denied _ => True
  | .readable entries => ∃ e ∈ entries, e.isFailed = true

/-- A config that is no enclave, but has the id of one, is broken. -/
theorem broken_of_names {seen : String → Option String} {content : String} {id : EnclaveId}
    (hnames : Names fs seen content id) (hraw : fs.rawEnclave content = none) :
    Broken fs content := by
  rw [Broken]
  rw [Names] at hnames
  split
  · rename_i v hv
    rw [hv] at hnames
    obtain ⟨x, hx, -⟩ := hnames
    rw [FileSystem.rawEnclave, hv] at hraw
    exact ⟨List.ne_nil_of_mem hx, hraw⟩
  · trivial

/-- An enclave has the id that its config shows. -/
theorem id_of_names {seen : String → Option String} {content : String} {id : EnclaveId}
    (hnames : Names fs seen content id) {raw : RawEnclave}
    (hraw : fs.rawEnclave content = some raw) : id = ⟨raw.id⟩ := by
  obtain ⟨v, hv, hdeserialize⟩ := Option.bind_eq_some_iff.mp hraw
  obtain ⟨x, hx, htext⟩ := RawEnclave.values_id_of_deserialize hdeserialize
  rw [Names, hv] at hnames
  obtain ⟨y, hy, hytext⟩ := hnames
  rw [hx] at hy
  obtain rfl := List.mem_singleton.mp hy
  exact EnclaveId.ext (Option.some.inj (hytext.symm.trans htext))

/-- What makes a load fail: the root, or a config of the walk that cannot be read or is an
enclave that does not convert. -/
theorem load_fails_iff :
    (∃ e, loadEnclaves fs path root = .error e) ↔
      RootFails root ∨ ∃ met ∈ rootWalk fs path root, ∃ e, loadConfig fs met.1 met.2 = .error e := by
  constructor
  · rintro ⟨e, he⟩
    cases root with
    | denied err => exact .inl trivial
    | readable entries =>
      by_cases hentries : ∀ e ∈ entries, e.isFailed = false
      · rw [loadEnclaves, loadEntries_eq hentries, collectEntries_eq] at he
        rcases hmet : loadMet fs (walkEntries fs path entries) with e' | os
        · obtain ⟨met, hmem, hload⟩ := error_of_loadMet hmet
          exact .inr ⟨met, hmem, e', hload⟩
        · rw [hmet] at he
          cases he
      · push Not at hentries
        obtain ⟨entry, hmem, hfailed⟩ := hentries
        exact .inl ⟨entry, hmem, by simpa using hfailed⟩
  · rintro (hroot | ⟨met, hmem, e, he⟩)
    · cases root with
      | denied err => exact ⟨_, rfl⟩
      | readable entries =>
        obtain ⟨entry, hmem, hfailed⟩ := hroot
        exact loadEntries_failed hmem hfailed []
    · rcases hload : loadEnclaves fs path root with e' | desired
      · exact ⟨e', rfl⟩
      · obtain ⟨o, ho, -⟩ := loadConfig_of_loaded hload hmem
        rw [he] at ho
        cases ho

/-- An enclave that deserializes is loaded, or the load fails. -/
theorem exists_loaded_of_met (h : loadEnclaves fs path root = .ok desired) {content : String}
    (hmet : MetConfig fs path root content) {raw : RawEnclave}
    (hraw : fs.rawEnclave content = some raw) : (⟨raw.id⟩ : EnclaveId) ∈ desired.map (·.id) := by
  obtain ⟨met, hmem, hread⟩ := hmet
  obtain ⟨o, ho, hloaded⟩ := loadConfig_of_loaded h hmem
  have henclave : enclaveAt fs met.1 = some raw := by
    simp only [enclaveAt]
    rw [hread]
    exact hraw
  cases o with
  | none =>
    rw [loadConfig_eq_none ho] at henclave
    cases henclave
  | some enc =>
    obtain ⟨raw', hraw', hconvert⟩ := loadConfig_eq_some ho
    rw [henclave] at hraw'
    obtain rfl := Option.some.inj hraw'
    exact List.mem_map.mpr ⟨enc, hloaded enc rfl, convertEnclave_id hconvert⟩

end

/-! ## What a run destroys -/

/-- A call that tears down the enclave `id` or one of its partitions, or deletes its record. -/
def Call.Destroys (id : EnclaveId) : Call → Prop
  | .deleteEnclave id' => id' = id
  | .teardownEnclave _ enc _ => enc.id = id
  | .teardownPartition _ enc _ _ => enc.id = id
  | .tfTeardown _ enc _ _ _ => enc.id = id
  | _ => False

theorem Call.TearsDown.destroys {id id' : EnclaveId} {c : Call} (h : c.TearsDown id)
    (hd : c.Destroys id') : id' = id := by
  cases h with
  | partitionOrder => exact hd.elim
  | tfTeardown _ _ _ _ _ h => exact hd.symm.trans h
  | teardownPartition _ _ _ _ h => exact hd.symm.trans h
  | teardownEnclave _ _ _ h => exact hd.symm.trans h

section

variable {A : (c : Call) → Resp c → Prop} {host : Host} {req : ReconcileRequest}
  {registry : DriverRegistry} {desired : List Enclave} {st : Store}

/-- The passes destroy removed enclaves only. -/
theorem passes_calls {run : Run} (removed : List EnclaveId) (ordered : List Enclave)
    (hkeyed : ∀ id s, run.existing id = some s → s.desired.id = id) :
    Prog.CallsE (fun c => ∀ id, c.Destroys id → id ∈ removed) (fun _ => True)
      (passes run removed ordered) := by
  refine passes_callsE (fun errors id hid _ => ?_) (fun errors enc _ _ => ?_)
    (fun errors enc _ _ => ?_) trivial
  · refine (teardownRemoved_calls (hkeyed id) errors).mono (fun c hc id' hd => ?_)
      fun _ _ => trivial
    have hid' : id' = id := by
      rcases hc with hc | rfl
      · exact hc.destroys hd
      · exact hd.symm
    rw [hid']
    exact hid
  · refine (provisionEnclave_calls errors).mono (fun c hc id' hd => ?_) fun _ _ => trivial
    cases hc <;> exact hd.elim
  · refine (wireEnclave_calls errors).mono (fun c hc id' hd => ?_) fun _ _ => trivial
    cases hc <;> exact hd.elim

/-- No call destroys anything but an id of `ids`. -/
def OnlyDestroys (ids : EnclaveId → Prop) (w : World) : Prop :=
  ∀ ev ∈ w.log, ∀ id, ev.1.Destroys id → ids id

theorem Call.Destroys.not_isQuiet {c : Call} {id : EnclaveId} (h : c.Destroys id) :
    c.isQuiet = false := by
  cases c <;> first | rfl | exact h.elim

theorem OnlyDestroys.quiet {ids : EnclaveId → Prop} {w w' : World} (h : OnlyDestroys ids w)
    (hquiet : w.Quiet w') : OnlyDestroys ids w' := fun ev hev id hd =>
  h ev (hquiet.mem_log hev hd.not_isQuiet) id hd

/-- **What a run destroys.** Only stored enclaves that are not desired. -/
theorem destroyed_of_reconcileLoaded (hdry : req.dryRun = false)
    {r : Except ReconcileError ReconcileReport} {w' : World}
    (hrun : Prog.Exec (system A) (reconcileLoaded host req registry desired).run
      (.ofStore st) r w') {ev : Event} (hev : ev ∈ w'.log) {id : EnclaveId}
    (hd : ev.1.Destroys id) : (st.get? id).isSome = true ∧ id ∉ desired.map (·.id) := by
  let ids : EnclaveId → Prop := fun id => (st.get? id).isSome = true ∧ id ∉ desired.map (·.id)
  have hempty : OnlyDestroys ids (.ofStore st) := fun ev hev => absurd hev List.not_mem_nil
  have hwp : Prog.wpE (system A) (reconcileLoaded host req registry desired)
      (fun r w' => OnlyDestroys ids w' ∧ ∀ report, r = .ok report → True) (.ofStore st) := by
    refine wpE_reconcileLoaded_keeps (J := fun _ _ => True) hdry (fun _ _ h => h.quiet)
      (fun _ _ _ _ _ => trivial) ?_ hempty
    intro run resolved removed w₁ hstart _ hw₁
    refine Prog.wpE_mono ((passes_calls removed (orderedDesired resolved desired)
      fun id s => hstart.keyed).keeps (OnlyDestroys ids) ?_ hw₁) fun _ _ h => ⟨h, fun _ _ => trivial⟩
    intro w c r hc _ hw ev hev id hd
    rcases List.mem_cons.mp hev with rfl | hev
    · exact (hstart.mem_removed id).mp (hc id hd)
    · exact hw ev hev id hd
  exact (hrun.wp hwp).1 ev hev id hd

/-- A stored enclave that is not desired is deleted where no call fails. -/
theorem deleted_of_reconcileLoaded (hdry : req.dryRun = false) {resolved : ResolvedGraph}
    (hvalid : validate host.topo desired = .ok resolved) {id : EnclaveId}
    (hstored : (st.get? id).isSome = true) (hid : id ∉ desired.map (·.id))
    {r : Except ReconcileError ReconcileReport} {w' : World}
    (hrun : Prog.Exec (system allOk) (reconcileLoaded host req registry desired).run
      (.ofStore st) r w') : w'.Logged fun ev => ev.1 = .deleteEnclave id := by
  refine logged_of_run neverAborts_allOk hdry hvalid (fun run removed w₁ hstart => ?_) hrun
  have hmem : id ∈ removed := (hstart.mem_removed id).mpr ⟨hstored, hid⟩
  have hex : (run.existing id).isSome = true := by
    rw [hstart.existing]
    exact hstored
  exact wpE_bind_logged (wpE_foldlM_logged hmem
    (fun errors w => wpE_teardownRemoved_deletes hex errors w) [] w₁)

end

/-! ## Broken configs and removed enclaves -/

section

variable (host : Host) (fs : FileSystem) (root : Dir) (req : ReconcileRequest)
  (registry : DriverRegistry) (st : Store) (seen : String → Option String)

/-- No run destroys an enclave that a config met by the walk names. -/
def SparesMetConfigs : Prop :=
  ∀ r w', Prog.Exec (system anyAnswer) (reconcile host fs root req registry).run
    (.ofStore st) r w' →
    ∀ id, (∃ ev ∈ w'.log, ev.1.Destroys id) →
      ∀ content, MetConfig fs req.enclavesDir root content → ¬ Names fs seen content id

/-- A broken config of the walk, or a directory of it that cannot be listed, makes the load
fail. -/
def RejectsBroken (path : String) : Prop :=
  ((∃ content, MetConfig fs path root content ∧ Broken fs content) ∨ Unlisted fs path root) →
    ∃ e, loadEnclaves fs path root = .error e

variable {host fs root req registry st seen}

/-- **Broken configs and removed enclaves.** The enclaves that the met configs name are
spared exactly when, should the tree load and validate, every broken config names an
enclave that is not stored or that another config of the tree defines. Being broken or
unlisted is never what makes a load fail. -/
theorem spares_met_configs_iff (hdry : req.dryRun = false) :
    (SparesMetConfigs host fs root req registry st seen ↔
      ∀ desired resolved, loadEnclaves fs req.enclavesDir root = .ok desired →
        validate host.topo desired = .ok resolved →
        ∀ content id, MetConfig fs req.enclavesDir root content → Broken fs content →
          Names fs seen content id → (st.get? id).isSome = true → id ∈ desired.map (·.id)) ∧
    ∀ path, RejectsBroken fs root path ↔
      ¬ ((∃ content, MetConfig fs path root content ∧ Broken fs content) ∨
          Unlisted fs path root) ∨
        RootFails root ∨
        ∃ met ∈ rootWalk fs path root, ∃ e, loadConfig fs met.1 met.2 = .error e := by
  refine ⟨⟨?_, ?_⟩, fun path => ?_⟩
  · intro hspares desired resolved hload hvalid content id hmet _ hnames hstored
    by_contra hid
    obtain ⟨r, w', hrun⟩ := Prog.exists_exec (M := system allOk) exists_answer_ok
      (reconcileLoaded host req registry desired).run (.ofStore st)
    obtain ⟨ev, hev, hcall⟩ := deleted_of_reconcileLoaded hdry hvalid hstored hid hrun
    have hany := exec_anyAnswer hrun
    rw [← reconcile_of_loaded hload] at hany
    exact hspares r w' hany id ⟨ev, hev, by rw [hcall]; rfl⟩ content hmet hnames
  · intro hcond r w' hrun id hdestroyed content hmet hnames
    obtain ⟨ev, hev, hd⟩ := hdestroyed
    rcases hload : loadEnclaves fs req.enclavesDir root with e | desired
    · rw [reconcile_of_load_error hload] at hrun
      cases hrun
      exact absurd hev List.not_mem_nil
    rw [reconcile_of_loaded hload] at hrun
    rcases hvalid : validate host.topo desired with e | resolved
    · rw [reconcileLoaded_of_invalid hvalid] at hrun
      cases hrun
      exact absurd hev List.not_mem_nil
    obtain ⟨hstored, hid⟩ := destroyed_of_reconcileLoaded hdry hrun hev hd
    rcases hraw : fs.rawEnclave content with _ | raw
    · exact hid (hcond desired resolved hload hvalid content id hmet (broken_of_names hnames hraw)
        hnames hstored)
    · rw [id_of_names hnames hraw] at hid
      exact hid (exists_loaded_of_met hload hmet hraw)
  · rw [← load_fails_iff]
    exact ⟨fun h => by
      by_cases hbad : (∃ content, MetConfig fs path root content ∧ Broken fs content) ∨
          Unlisted fs path root
      · exact .inr (h hbad)
      · exact .inl hbad, fun h hbad => h.resolve_left fun hnot => hnot hbad⟩

end

/-! ### A config without a region -/

/-- One config file, from which the region is missing. -/
def regionless : FileSystem where
  readConfig path := if path = "enclaves/a/config.yml" then some (.ok "id: a, name: a") else none
  parseYaml text :=
    if text = "id: a, name: a" then some (.record [("id", .str "a"), ("name", .str "a")])
    else none
  yamlError _ := "missing field `region`"

/-- The directory with that config in its one subdirectory. -/
def regionlessRoot : Dir := .readable [.dir "a" (.readable [])]

/-- The enclave as it was applied when the region was still there. -/
def appliedEnclave : Enclave :=
  ⟨⟨"a"⟩, "a", none, "r", none, none, none, [], [], []⟩

def plainHost : Host := ⟨fun _ => "", Topo.kahn, "/root"⟩

def enclavesRequest : ReconcileRequest := { ReconcileRequest.default with enclavesDir := "enclaves" }

theorem rootWalk_regionless :
    rootWalk regionless "enclaves" regionlessRoot = [("enclaves/a", .readable [])] := by
  rfl

theorem regionless_met : MetConfig regionless "enclaves" regionlessRoot "id: a, name: a" := by
  refine ⟨("enclaves/a", .readable []), ?_, rfl⟩
  rw [rootWalk_regionless]
  exact List.mem_cons_self ..

theorem load_regionless : loadEnclaves regionless "enclaves" regionlessRoot = .ok [] := by
  rfl

def noDrivers : DriverRegistry := ⟨.local, fun _ => none⟩

/-- A text that is no YAML beside the config of the enclave whose id it shows. -/
def cutShort : FileSystem where
  readConfig path :=
    if path = "enclaves/a/config.yml" then some (.ok "id: a")
    else if path = "enclaves/b/config.yml" then some (.ok "id: a\nnetwork: [")
    else none
  parseYaml text :=
    if text = "id: a" then
      some (.record [("id", .str "a"), ("name", .str "a"), ("region", .str "r")])
    else none
  yamlError _ := "did not find expected node content"

def cutShortRoot : Dir := .readable [.dir "a" (.readable []), .dir "b" (.readable [])]

/-- What a reader sees of it. -/
def cutShortId (content : String) : Option String :=
  if content = "id: a\nnetwork: [" then some "a" else none

theorem load_cutShort :
    loadEnclaves cutShort "enclaves" cutShortRoot = .ok [appliedEnclave] := rfl

/-- A broken config of the tree names `a`. -/
theorem names_cutShort {content : String} {id : EnclaveId} (hbroken : Broken cutShort content)
    (hnames : Names cutShort cutShortId content id) : id = ⟨"a"⟩ := by
  by_cases hcontent : content = "id: a"
  · subst hcontent
    exact absurd hbroken.2 (by decide)
  · have hnone : cutShort.parseYaml content = none := if_neg hcontent
    rw [Names, hnone] at hnames
    simp only [cutShortId] at hnames
    split at hnames
    · exact EnclaveId.ext (Option.some.inj hnames).symm
    · cases hnames

/-- A stored enclave that a broken config names is spared, because another one defines it; the one
beside it, of which there is no config, is removed. -/
theorem spares_met_configs_defined :
    (∃ content, MetConfig cutShort "enclaves" cutShortRoot content ∧ Broken cutShort content ∧
        Names cutShort cutShortId content ⟨"a"⟩) ∧
      SparesMetConfigs plainHost cutShort cutShortRoot enclavesRequest noDrivers
        ((Store.empty.upsert (.new appliedEnclave)).upsert
          (.new { appliedEnclave with id := ⟨"c"⟩ })) cutShortId := by
  refine ⟨⟨"id: a\nnetwork: [", ⟨("enclaves/b", .readable []), .tail _ (.head _), rfl⟩, trivial, rfl⟩,
    (spares_met_configs_iff rfl).1.mpr fun desired resolved hload _ content id _ hbroken hnames _ => ?_⟩
  obtain rfl : [appliedEnclave] = desired := Except.ok.inj (load_cutShort.symm.trans hload)
  rw [names_cutShort hbroken hnames]
  exact List.mem_singleton_self _

/-- **The region is dropped.** The applied enclave is destroyed although its config is still
there, and the load reports nothing. -/
theorem regionless_destroyed :
    (∀ seen, ¬ SparesMetConfigs plainHost regionless regionlessRoot enclavesRequest noDrivers
        (Store.empty.upsert (.new appliedEnclave)) seen) ∧
      ¬ RejectsBroken regionless regionlessRoot "enclaves" := by
  constructor
  · intro seen hspares
    have hload : loadEnclaves regionless enclavesRequest.enclavesDir regionlessRoot = .ok [] :=
      load_regionless
    obtain ⟨r, w', hrun⟩ := Prog.exists_exec (M := system allOk) exists_answer_ok
      (reconcileLoaded plainHost enclavesRequest noDrivers []).run
      (.ofStore (Store.empty.upsert (.new appliedEnclave)))
    have hvalid : validate Topo.kahn [] = .ok ⟨[], []⟩ := rfl
    have hstored : ((Store.empty.upsert (.new appliedEnclave)).get? ⟨"a"⟩).isSome = true := by
      rw [Store.get?_upsert]
      rfl
    obtain ⟨ev, hev, hcall⟩ := deleted_of_reconcileLoaded rfl hvalid hstored List.not_mem_nil hrun
    have hany := exec_anyAnswer hrun
    rw [← reconcile_of_loaded hload] at hany
    exact hspares r w' hany ⟨"a"⟩ ⟨ev, hev, by rw [hcall]; rfl⟩ _ regionless_met
      ⟨.str "a", .head _, rfl⟩
  · intro hrejects
    obtain ⟨e, he⟩ := hrejects (.inl ⟨_, regionless_met, by decide, by decide⟩)
    rw [load_regionless] at he
    cases he

end Nclav
