import Nclav.Guarantees.NothingLost

/-!
# The export contract

The types say which auth types fit an export type, and an export names the partition that it
exposes. Neither the conversion of an export nor the validation of the list looks at either,
nor at a second export of the same name: what an accepted tree satisfies of this contract is
what its authors wrote.
-/

namespace Nclav

/-! ## The contract -/

/-- What the exports of an enclave and of its partitions are to satisfy. -/
structure Enclave.ExportContract (enc : Enclave) : Prop where
  auth : ∀ ex ∈ enc.exports, ex.exportType.isAuthCompatible ex.auth = true
  partitionAuth : ∀ part ∈ enc.partitions, ∀ ex ∈ part.exports,
    ex.exportType.isAuthCompatible ex.auth = true
  target : ∀ ex ∈ enc.exports, ∃ part ∈ enc.partitions,
    part.id = ex.targetPartition ∧ part.produces.isSome = true
  names : (enc.exports.map (·.name)).Nodup

/-! ## The contract as written -/

/-- The pairs of `type` and `auth` that do not fit. -/
def unfitAuth : List (String × String) :=
  [("http", "native"), ("tcp", "token"), ("tcp", "oauth"), ("queue", "oauth"), ("queue", "mtls")]

def RawExport.Fits (raw : RawExport) : Prop := (raw.exportType, raw.auth) ∉ unfitAuth

/-- An enclave config and its partition files, as far as their exports go: no unfit pair, every
target is the id of a file with a `produces`, no name is given twice. -/
structure WrittenContract (fs : FileSystem) (dir : String) (d : Dir) (raw : RawEnclave) : Prop where
  auth : ∀ ex ∈ raw.exports, ex.Fits
  partitionAuth : ∀ file ∈ partitionFiles fs dir d raw, ∀ ex ∈ file.2.exports, ex.Fits
  target : ∀ ex ∈ raw.exports, ∃ file ∈ partitionFiles fs dir d raw,
    file.2.id = ex.targetPartition ∧ file.2.produces.isSome = true
  names : (raw.exports.map (·.name)).Nodup

/-! ## Conversion keeps it -/

theorem parseExportType_eq_ok {s path : String} {t : ExportType}
    (h : parseExportType s path = .ok t) : s = toString t := by
  rw [parseExportType.eq_def] at h
  split at h
  · rw [← Except.ok.inj h]
    rfl
  · rw [← Except.ok.inj h]
    rfl
  · rw [← Except.ok.inj h]
    rfl
  · cases h

/-- The word for an auth type. -/
def AuthType.word : AuthType → String
  | .none => "none"
  | .token => "token"
  | .oauth => "oauth"
  | .mtls => "mtls"
  | .native => "native"

theorem parseAuth_eq_ok {s path : String} {auth : AuthType} (h : parseAuth s path = .ok auth) :
    s = auth.word := by
  rw [parseAuth.eq_def] at h
  split at h
  case h_6 => cases h
  all_goals
    rw [← Except.ok.inj h]
    rfl

theorem isAuthCompatible_iff (t : ExportType) (auth : AuthType) :
    t.isAuthCompatible auth = true ↔ (toString t, auth.word) ∉ unfitAuth := by
  cases t <;> cases auth <;> decide

theorem forall₂_of_mapM {α β : Type} {f : α → Except ConfigError β} {xs : List α} {ys : List β}
    (h : xs.mapM f = .ok ys) : List.Forall₂ (fun x y => f x = .ok y) xs ys := by
  induction xs generalizing ys with
  | nil =>
    obtain rfl := Except.ok.inj h
    exact .nil
  | cons x xs ih =>
    obtain ⟨y, ys', hy, hys, rfl⟩ := mapM_cons_eq_ok h
    exact .cons hy (ih hys)

section

variable {path : String} {raw : RawExport} {ex : Export}

theorem convertExport_eq_ok (h : convertExport raw path = .ok ex) :
    ex.name = raw.name ∧ ex.targetPartition.val = raw.targetPartition ∧
      (ex.exportType.isAuthCompatible ex.auth = true ↔ raw.Fits) := by
  rw [convertExport] at h
  obtain ⟨t, ht, h⟩ := bind_eq_ok h
  obtain ⟨auth, hauth, h⟩ := bind_eq_ok h
  obtain ⟨to_, -, h⟩ := bind_eq_ok h
  rw [← Except.ok.inj h]
  refine ⟨rfl, rfl, ?_⟩
  rw [isAuthCompatible_iff, ← parseExportType_eq_ok ht, ← parseAuth_eq_ok hauth]
  rfl

/-- What holds of every converted element holds, as it reads before, of every raw one. -/
theorem forall_congr_forall₂ {α β : Type} {R : α → β → Prop} {P : α → Prop} {Q : β → Prop}
    {xs : List α} {ys : List β} (h : List.Forall₂ R xs ys) (hPQ : ∀ x y, R x y → (Q y ↔ P x)) :
    (∀ y ∈ ys, Q y) ↔ ∀ x ∈ xs, P x := by
  induction h with
  | nil => exact ⟨fun _ _ hx => absurd hx List.not_mem_nil, fun _ _ hy => absurd hy List.not_mem_nil⟩
  | cons hxy _ ih => rw [List.forall_mem_cons, List.forall_mem_cons, hPQ _ _ hxy, ih]

theorem exists_congr_forall₂ {α β : Type} {R : α → β → Prop} {P : α → Prop} {Q : β → Prop}
    {xs : List α} {ys : List β} (h : List.Forall₂ R xs ys) (hPQ : ∀ x y, R x y → (Q y ↔ P x)) :
    (∃ y ∈ ys, Q y) ↔ ∃ x ∈ xs, P x := by
  have hnot := forall_congr_forall₂ h fun x y hxy => not_congr (hPQ x y hxy)
  rw [← not_iff_not]
  push Not
  exact hnot

end

theorem convertPartition_eq_ok {raw : RawPartition} {path : String} {part : Partition}
    (h : convertPartition raw path = .ok part) :
    part.id.val = raw.id ∧ (part.produces.isSome = true ↔ raw.produces.isSome = true) ∧
      List.Forall₂ (fun raw ex => convertExport raw path = .ok ex) raw.exports part.exports := by
  rw [convertPartition] at h
  obtain ⟨produces, hproduces, h⟩ := bind_eq_ok h
  obtain ⟨exports, hexports, h⟩ := bind_eq_ok h
  obtain ⟨_, -, h⟩ := bind_eq_ok h
  rw [← Except.ok.inj h]
  refine ⟨rfl, ?_, forall₂_of_mapM hexports⟩
  rcases hraw : raw.produces with _ | s
  · rw [hraw] at hproduces
    obtain rfl := Except.ok.inj hproduces
    exact .rfl
  · rw [hraw, transpose] at hproduces
    rcases hparse : parseProduces s path with e | t
    · rw [hparse] at hproduces
      cases hproduces
    · rw [hparse] at hproduces
      obtain rfl := Except.ok.inj hproduces
      exact iff_of_true rfl rfl

theorem convertEnclave_exports {fs : FileSystem} {raw : RawEnclave} {dir configPath : String}
    {d : Dir} {enc : Enclave} (h : convertEnclave fs raw dir d configPath = .ok enc) :
    List.Forall₂ (fun raw ex => convertExport raw configPath = .ok ex) raw.exports enc.exports := by
  rw [convertEnclave] at h
  obtain ⟨_, -, h⟩ := bind_eq_ok h
  obtain ⟨exports, hexports, h⟩ := bind_eq_ok h
  obtain ⟨_, -, h⟩ := bind_eq_ok h
  obtain ⟨_, -, h⟩ := bind_eq_ok h
  rw [← Except.ok.inj h]
  exact forall₂_of_mapM hexports

/-- The contract of a loaded enclave is the one that was written. -/
theorem exportContract_iff {fs : FileSystem} {raw : RawEnclave} {dir configPath : String} {d : Dir}
    {enc : Enclave} (h : convertEnclave fs raw dir d configPath = .ok enc) :
    enc.ExportContract ↔ WrittenContract fs dir d raw := by
  have hexports := convertEnclave_exports h
  have hfiles := forall₂_partitionFiles h
  have hauth : (∀ ex ∈ enc.exports, ex.exportType.isAuthCompatible ex.auth = true) ↔
      ∀ ex ∈ raw.exports, ex.Fits :=
    forall_congr_forall₂ hexports fun _ _ hconv => (convertExport_eq_ok hconv).2.2
  have hpartitions : (∀ part ∈ enc.partitions, ∀ ex ∈ part.exports,
        ex.exportType.isAuthCompatible ex.auth = true) ↔
      ∀ file ∈ partitionFiles fs dir d raw, ∀ ex ∈ file.2.exports, ex.Fits :=
    forall_congr_forall₂ hfiles fun _ _ hconv => forall_congr_forall₂
      (convertPartition_eq_ok hconv).2.2 fun _ _ hex => (convertExport_eq_ok hex).2.2
  have htarget : (∀ ex ∈ enc.exports, ∃ part ∈ enc.partitions,
        part.id = ex.targetPartition ∧ part.produces.isSome = true) ↔
      ∀ ex ∈ raw.exports, ∃ file ∈ partitionFiles fs dir d raw,
        file.2.id = ex.targetPartition ∧ file.2.produces.isSome = true := by
    refine forall_congr_forall₂ hexports fun rawEx ex hex => ?_
    refine exists_congr_forall₂ hfiles fun file part hconv => ?_
    obtain ⟨hid, hproduces, -⟩ := convertPartition_eq_ok hconv
    rw [hproduces, PartitionId.ext_iff, hid, (convertExport_eq_ok hex).2.1]
  have hnames : raw.exports.map (·.name) = enc.exports.map (·.name) :=
    map_eq_of_forall₂ hexports fun _ _ hconv => (convertExport_eq_ok hconv).1.symm
  constructor
  · exact fun hc => ⟨hauth.mp hc.auth, hpartitions.mp hc.partitionAuth, htarget.mp hc.target,
      by rw [hnames]; exact hc.names⟩
  · exact fun hc => ⟨hauth.mpr hc.auth, hpartitions.mpr hc.partitionAuth, htarget.mpr hc.target,
      by rw [← hnames]; exact hc.names⟩

/-- **The export contract.** The enclaves of a tree that loads and validates satisfy the contract
exactly where it is written in every config that the walk takes for an enclave's. -/
theorem export_contract_iff {topo : Topo.TopoSort} {fs : FileSystem} {path : String} {root : Dir}
    {enclaves : List Enclave} {resolved : ResolvedGraph}
    (hload : loadEnclaves fs path root = .ok enclaves)
    (_hvalid : validate topo enclaves = .ok resolved) :
    (∀ enc ∈ enclaves, enc.ExportContract) ↔
      ∀ met ∈ rootWalk fs path root, ∀ raw, enclaveAt fs met.1 = some raw →
        WrittenContract fs met.1 met.2 raw :=
  forall_loaded_iff (Q := WrittenContract fs) hload fun _ _ _ _ hconv => exportContract_iff hconv

/-! ### An enclave with one partition and these exports -/

/-- An export to everyone. -/
def writtenExport (name target auth : String) : Yaml :=
  .record [("name", .str name), ("target_partition", .str target), ("type", .str "http"),
    ("to", .str "public"), ("auth", .str auth)]

def exportingFiles (exports : List Yaml) : FileSystem where
  readConfig path :=
    if path = "enclaves/a/config.yml" then some (.ok "id: a")
    else if path = "enclaves/a/p/config.yml" then some (.ok "id: p")
    else none
  parseYaml text :=
    if text = "id: a" then
      some (.record [("id", .str "a"), ("name", .str "a"), ("region", .str "r"),
        ("exports", .seq exports), ("partitions", .seq [.str "p"])])
    else if text = "id: p" then
      some (.record [("id", .str "p"), ("name", .str "p"), ("produces", .str "http"),
        ("declared_outputs", .seq [.str "hostname", .str "port"])])
    else none
  yamlError _ := ""

def httpPartition : Partition :=
  ⟨⟨"p"⟩, "p", some .http, [], [], ∅, ["hostname", "port"],
    .terraform ⟨none, none, "enclaves/a/p"⟩⟩

def exportingEnclave (exports : List Export) : Enclave :=
  ⟨⟨"a"⟩, "a", none, "r", none, none, none, [], exports, [httpPartition]⟩

/-- One export of what the partition produces. -/
theorem one_export_contract :
    loadEnclaves (exportingFiles [writtenExport "x" "p" "none"]) "enclaves" regionlessRoot =
        .ok [exportingEnclave [⟨"x", ⟨"p"⟩, .http, .public_, .none, none, none⟩]] ∧
      ∀ met ∈ rootWalk (exportingFiles [writtenExport "x" "p" "none"]) "enclaves" regionlessRoot,
        ∀ raw, enclaveAt (exportingFiles [writtenExport "x" "p" "none"]) met.1 = some raw →
          WrittenContract (exportingFiles [writtenExport "x" "p" "none"]) met.1 met.2 raw := by
  have hload : loadEnclaves (exportingFiles [writtenExport "x" "p" "none"]) "enclaves"
      regionlessRoot = .ok [exportingEnclave [⟨"x", ⟨"p"⟩, .http, .public_, .none, none, none⟩]] := rfl
  obtain ⟨resolved, hvalid⟩ : ∃ resolved, validate Topo.kahn
      [exportingEnclave [⟨"x", ⟨"p"⟩, .http, .public_, .none, none, none⟩]] = .ok resolved := ⟨_, rfl⟩
  refine ⟨hload, (export_contract_iff hload hvalid).mp fun enc henc => ?_⟩
  obtain rfl := List.mem_singleton.mp henc
  exact ⟨by decide, by decide, by decide, by decide⟩

/-- **What slips through.** An HTTP export with native auth, an export whose target does not exist
and a second export of the same name are loaded and validated. -/
theorem unfit_exports_accepted :
    ∃ enc resolved,
      loadEnclaves
        (exportingFiles [writtenExport "x" "p" "native", writtenExport "x" "q" "none"]) "enclaves"
        regionlessRoot = .ok [enc] ∧
      validate Topo.kahn [enc] = .ok resolved ∧
      (∃ ex ∈ enc.exports, ex.exportType.isAuthCompatible ex.auth = false) ∧
      (∃ ex ∈ enc.exports, ∀ part ∈ enc.partitions, part.id ≠ ex.targetPartition) ∧
      ¬ (enc.exports.map (·.name)).Nodup :=
  ⟨exportingEnclave [⟨"x", ⟨"p"⟩, .http, .public_, .native, none, none⟩,
      ⟨"x", ⟨"q"⟩, .http, .public_, .none, none, none⟩], _, rfl, rfl, by decide, by decide, by decide⟩

end Nclav
