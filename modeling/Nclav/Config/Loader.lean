import Nclav.Config.Raw

/-!
# Loading the enclave directory

`loadEnclaves` walks a directory tree. In every directory of the walk it tries to read
`config.yml` as an enclave; a directory that is one is converted and not entered further,
any other is entered. A `Dir` is what listing a directory shows; the files are read by
path, through a `FileSystem`, because an enclave names its partitions by paths of its own.

`walk` lists the directories that the walk meets with what it finds in them, and
`loadEnclaves_eq` says that loading is converting those of them that are enclaves.
-/

namespace Nclav

/-! ## The file system -/

mutual

/-- A directory, as `read_dir` shows it. -/
inductive Dir : Type where
  | readable : List DirEntry → Dir
  /-- listing it fails -/
  | denied (err : String)

/-- One entry of a listing. -/
inductive DirEntry : Type where
  | dir (name : String) (d : Dir)
  /-- not a directory -/
  | other (name : String)
  /-- reading the entry fails -/
  | failed (err : String)

end

/-- The `config.yml` files, by path, and the YAML parser that reads them. -/
structure FileSystem : Type where
  /-- absent, or the outcome of reading the file -/
  readConfig : String → Option (Except String String)
  /-- the document of a text, if it is YAML -/
  parseYaml : String → Option Yaml
  /-- what the parser reports of a text it does not deserialize -/
  yamlError : String → String

inductive ConfigError : Type where
  | io (path source : String)
  | yamlParse (path source : String)
  | conversion (path message : String)
  deriving DecidableEq

instance : ToString ConfigError where
  toString
    | .io path source => s!"io error reading {path}: {source}"
    | .yamlParse path source => s!"yaml parse error in {path}: {source}"
    | .conversion path message => s!"conversion error in {path}: {message}"

namespace FileSystem

variable (fs : FileSystem)

/-- `serde_yaml::from_str::<RawEnclave>`. -/
def rawEnclave (content : String) : Option RawEnclave :=
  (fs.parseYaml content).bind RawEnclave.deserialize

/-- `serde_yaml::from_str::<RawPartition>`. -/
def rawPartition (content : String) : Option RawPartition :=
  (fs.parseYaml content).bind RawPartition.deserialize

end FileSystem

/-! ## Conversion -/

/-- The config file of a directory. -/
def configYml (dir : String) : String := joinPath dir "config.yml"

def parseCloud (s path : String) : Except ConfigError CloudTarget :=
  match s with
  | "local" => .ok .local
  | "gcp" => .ok .gcp
  | "azure" => .ok .azure
  | "aws" => .ok .aws
  | other => .error (.conversion path s!"unknown cloud target '{other}'")

def parseProduces (s path : String) : Except ConfigError ProducesType :=
  match s with
  | "http" => .ok .http
  | "tcp" => .ok .tcp
  | "queue" => .ok .queue
  | other => .error (.conversion path s!"unknown produces type '{other}'")

def parseExportType (s path : String) : Except ConfigError ExportType :=
  match s with
  | "http" => .ok .http
  | "tcp" => .ok .tcp
  | "queue" => .ok .queue
  | other => .error (.conversion path s!"unknown export type '{other}'")

def parseAuth (s path : String) : Except ConfigError AuthType :=
  match s with
  | "none" => .ok .none
  | "token" => .ok .token
  | "oauth" => .ok .oauth
  | "mtls" => .ok .mtls
  | "native" => .ok .native
  | other => .error (.conversion path s!"unknown auth type '{other}'")

/-- `Option::map` of a fallible function, then `transpose`. -/
def transpose {α β : Type} (f : α → Except ConfigError β) : Option α → Except ConfigError (Option β)
  | none => .ok none
  | some a => (f a).map some

def convertExportTarget (raw : RawExportTarget) (path : String) : Except ConfigError ExportTarget :=
  match raw with
  | .simple "public" => .ok .public_
  | .simple "any_enclave" => .ok .anyEnclave
  | .simple "any-enclave" => .ok .anyEnclave
  | .simple "vpn" => .ok .vpn
  | .simple other => .error (.conversion path s!"unknown export target '{other}'")
  | .enclave enclave => .ok (.enclave ⟨enclave⟩)
  | .partition partition => .ok (.partition ⟨partition⟩)

def convertExport (raw : RawExport) (path : String) : Except ConfigError Export := do
  let exportType ← parseExportType raw.exportType path
  let auth ← parseAuth raw.auth path
  let to_ ← convertExportTarget raw.to_ path
  return {
    name := raw.name, targetPartition := ⟨raw.targetPartition⟩, exportType, to_, auth,
    hostname := raw.hostname, port := raw.port }

def convertImport (raw : RawImport) : Import where
  from_ := ⟨raw.from_⟩
  exportName := raw.exportName
  alias_ := raw.alias_

/-- The backend of a partition whose config is at `path`. -/
def convertBackend (raw : RawPartition) (path : String) : Except ConfigError PartitionBackend :=
  let cfg : TerraformConfig :=
    { tool := raw.terraform.bind (·.tool)
      source := raw.terraform.bind (·.source)
      dir := parentPath path }
  match raw.backend with
  | "" => .ok (.terraform cfg)
  | "terraform" => .ok (.terraform cfg)
  | "opentofu" => .ok (.openTofu cfg)
  | "managed" => .error (.conversion path
      ("backend 'managed' is no longer supported; use 'terraform' or 'opentofu' with a " ++
        "main.tf in the partition directory"))
  | other => .error (.conversion path
      s!"unknown backend '{other}'; expected terraform or opentofu")

def convertPartition (raw : RawPartition) (path : String) : Except ConfigError Partition := do
  let produces ← transpose (parseProduces · path) raw.produces
  let exports ← raw.exports.mapM (convertExport · path)
  let backend ← convertBackend raw path
  return {
    id := ⟨raw.id⟩, name := raw.name, produces, imports := raw.imports.map convertImport,
    exports, inputs := raw.inputs, declaredOutputs := raw.declaredOutputs, backend }

section

variable (fs : FileSystem)

/-- A partition that the enclave config names. -/
def loadNamedPartition (dir partName : String) : Except ConfigError Partition :=
  let partConfig := configYml (joinPath dir partName)
  match fs.readConfig partConfig with
  | none =>
    .error (.conversion partConfig s!"partition config not found for '{partName}'")
  | some (.error e) => .error (.io partConfig e)
  | some (.ok content) =>
    match fs.rawPartition content with
    | none => .error (.yamlParse partConfig (fs.yamlError content))
    | some raw => convertPartition raw partConfig

/-- A subdirectory of an enclave that names no partitions: the partition in it, if its
config looks like one. -/
def scanPartition (dir : String) : DirEntry → Except ConfigError (Option Partition)
  | .dir name _ =>
    let partConfig := configYml (joinPath dir name)
    match fs.readConfig partConfig with
    | none => .ok none
    | some (.error e) => .error (.io partConfig e)
    | some (.ok content) =>
      match fs.rawPartition content with
      | none => .ok none
      | some raw =>
        if raw.produces.isSome || !raw.imports.isEmpty || !raw.exports.isEmpty ||
            !raw.declaredOutputs.isEmpty then
          (convertPartition raw partConfig).map some
        else .ok none
  | .other _ => .ok none
  | .failed _ => .ok none

/-- The partitions found by scanning; an enclave directory that cannot be listed has none. -/
def scanPartitions (dir : String) : Dir → Except ConfigError (List Partition)
  | .denied _ => .ok []
  | .readable entries => (entries.mapM (scanPartition fs dir)).map (·.filterMap id)

def convertEnclave (raw : RawEnclave) (dir : String) (d : Dir) (configPath : String) :
    Except ConfigError Enclave := do
  let cloud ← transpose (parseCloud · configPath) raw.cloud
  let exports ← raw.exports.mapM (convertExport · configPath)
  let named ← raw.partitions.mapM (loadNamedPartition fs dir)
  let scanned ← (if raw.partitions.isEmpty then scanPartitions fs dir d else .ok [])
  return {
    id := ⟨raw.id⟩, name := raw.name, cloud, region := raw.region, identity := raw.identity
    network := raw.network.map fun n => { vpcCidr := n.vpcCidr, subnets := n.subnets }
    dns := raw.dns.map fun d => { zone := d.zone }
    imports := raw.imports.map convertImport
    exports
    partitions := named ++ scanned }

/-! ## The walk -/

/-- The enclave in a directory, if its `config.yml` deserializes as one. Any other text, an
enclave with a field missing included, counts as no enclave. -/
def loadConfig (path : String) (d : Dir) : Except ConfigError (Option Enclave) :=
  match fs.readConfig (configYml path) with
  | none => .ok none
  | some (.error e) => .error (.io (configYml path) e)
  | some (.ok content) =>
    match fs.rawEnclave content with
    | none => .ok none
    | some raw => (convertEnclave fs raw path d (configYml path)).map some

mutual

def collectEnclaves (path : String) (d : Dir) (out : List Enclave) :
    Except ConfigError (List Enclave) :=
  match loadConfig fs path d with
  | .error e => .error e
  | .ok (some enc) => .ok (out ++ [enc])
  | .ok none =>
    match d with
    | .denied _ => .ok out
    | .readable entries => collectEntries path entries out

/-- The loop over the entries of a directory that is no enclave; an entry that cannot be
read is passed over. -/
def collectEntries (path : String) (entries : List DirEntry) (out : List Enclave) :
    Except ConfigError (List Enclave) :=
  match entries with
  | [] => .ok out
  | .dir name d :: entries =>
    match collectEnclaves (joinPath path name) d out with
    | .error e => .error e
    | .ok out => collectEntries path entries out
  | .other _ :: entries => collectEntries path entries out
  | .failed _ :: entries => collectEntries path entries out

end

/-- The loop over the entries of the root; here an entry that cannot be read is an error. -/
def loadEntries (path : String) (entries : List DirEntry) (out : List Enclave) :
    Except ConfigError (List Enclave) :=
  match entries with
  | [] => .ok out
  | .failed err :: _ => .error (.io path err)
  | .other _ :: entries => loadEntries path entries out
  | .dir name d :: entries =>
    match collectEnclaves fs (joinPath path name) d out with
    | .error e => .error e
    | .ok out => loadEntries path entries out

/-- Walk `path` and load every enclave found. -/
def loadEnclaves (path : String) : Dir → Except ConfigError (List Enclave)
  | .denied err => .error (.io path err)
  | .readable entries => loadEntries fs path entries []

/-! ## What the walk meets -/

/-- The enclave config of a directory, deserialized. -/
def enclaveAt (path : String) : Option RawEnclave :=
  match fs.readConfig (configYml path) with
  | some (.ok content) => fs.rawEnclave content
  | _ => none

mutual

/-- The directories that the walk of one subdirectory meets: it does not enter an enclave. -/
def walk (path : String) (d : Dir) : List (String × Dir) :=
  (path, d) ::
    match d with
    | .denied _ => []
    | .readable entries => if (enclaveAt fs path).isSome then [] else walkEntries path entries

/-- `walk` over the subdirectories of a listing. -/
def walkEntries (path : String) (entries : List DirEntry) : List (String × Dir) :=
  match entries with
  | [] => []
  | .dir name d :: entries => walk (joinPath path name) d ++ walkEntries path entries
  | .other _ :: entries => walkEntries path entries
  | .failed _ :: entries => walkEntries path entries

end

end

section

variable {fs : FileSystem}

/-- A configuration that loads is none, or is the enclave that it converts to. -/
theorem loadConfig_eq_ok {path : String} {d : Dir} {o : Option Enclave}
    (h : loadConfig fs path d = .ok o) :
    (o = none ∧ enclaveAt fs path = none) ∨
      ∃ raw enc, o = some enc ∧ enclaveAt fs path = some raw ∧
        convertEnclave fs raw path d (configYml path) = .ok enc := by
  rw [loadConfig] at h
  rw [enclaveAt]
  rcases hread : fs.readConfig (configYml path) with _ | e | content
  · rw [hread] at h
    cases h
    exact .inl ⟨rfl, rfl⟩
  · rw [hread] at h
    cases h
  · rw [hread] at h
    simp only at h ⊢
    rcases hraw : fs.rawEnclave content with _ | raw
    · rw [hraw] at h
      cases h
      exact .inl ⟨rfl, rfl⟩
    · rw [hraw] at h
      simp only at h
      rcases hconv : convertEnclave fs raw path d (configYml path) with e | enc
      · rw [hconv] at h
        cases h
      · rw [hconv] at h
        cases h
        exact .inr ⟨raw, enc, rfl, rfl, hconv⟩

theorem loadConfig_eq_some {path : String} {d : Dir} {enc : Enclave}
    (h : loadConfig fs path d = .ok (some enc)) :
    ∃ raw, enclaveAt fs path = some raw ∧
      convertEnclave fs raw path d (configYml path) = .ok enc := by
  obtain ⟨⟨⟩, -⟩ | ⟨raw, _, ⟨⟩, hraw, hconv⟩ := loadConfig_eq_ok h
  exact ⟨raw, hraw, hconv⟩

theorem loadConfig_eq_none {path : String} {d : Dir} (h : loadConfig fs path d = .ok none) :
    enclaveAt fs path = none := by
  obtain ⟨-, hnone⟩ | ⟨_, _, ⟨⟩, -⟩ := loadConfig_eq_ok h
  exact hnone

/-- Load the directories that a walk met. -/
def loadMet (fs : FileSystem) (met : List (String × Dir)) :
    Except ConfigError (List (Option Enclave)) :=
  met.mapM fun v => loadConfig fs v.1 v.2

@[simp] theorem loadMet_nil : loadMet fs [] = .ok [] := rfl

theorem loadMet_cons (v : String × Dir) (met : List (String × Dir)) :
    loadMet fs (v :: met) =
      (loadConfig fs v.1 v.2).bind fun o => (loadMet fs met).map (o :: ·) := by
  rw [loadMet, List.mapM_cons]
  rcases loadConfig fs v.1 v.2 with e | o
  · rfl
  · rcases List.mapM (fun v => loadConfig fs v.1 v.2) met with e | os <;> rfl

theorem loadMet_append (met met' : List (String × Dir)) :
    loadMet fs (met ++ met') =
      (loadMet fs met).bind fun os => (loadMet fs met').map (os ++ ·) := by
  rw [loadMet, List.mapM_append]
  rcases List.mapM (fun v => loadConfig fs v.1 v.2) met with e | os
  · rfl
  · rcases List.mapM (fun v => loadConfig fs v.1 v.2) met' with e | os' <;> rfl

/-- Every directory met was loaded. -/
theorem loadConfig_of_loadMet {met : List (String × Dir)} {os : List (Option Enclave)}
    (h : loadMet fs met = .ok os) {v : String × Dir} (hv : v ∈ met) :
    ∃ o ∈ os, loadConfig fs v.1 v.2 = .ok o := by
  induction met generalizing os with
  | nil => cases hv
  | cons u met ih =>
    rw [loadMet_cons] at h
    rcases hu : loadConfig fs u.1 u.2 with e | o
    · rw [hu] at h
      cases h
    rcases hmet : loadMet fs met with e | os'
    · rw [hu, hmet] at h
      cases h
    rw [hu, hmet] at h
    obtain rfl := Except.ok.inj h
    rcases List.mem_cons.mp hv with rfl | hv
    · exact ⟨o, List.mem_cons_self .., hu⟩
    · obtain ⟨o', ho', hload⟩ := ih hmet hv
      exact ⟨o', List.mem_cons_of_mem _ ho', hload⟩

/-- A failed load of the directories met is the failure of one of them. -/
theorem error_of_loadMet {met : List (String × Dir)} {e : ConfigError}
    (h : loadMet fs met = .error e) : ∃ v ∈ met, loadConfig fs v.1 v.2 = .error e := by
  induction met with
  | nil => cases h
  | cons u met ih =>
    rw [loadMet_cons] at h
    rcases hu : loadConfig fs u.1 u.2 with e' | o
    · rw [hu] at h
      obtain rfl := Except.error.inj h
      exact ⟨u, List.mem_cons_self .., hu⟩
    · rcases hmet : loadMet fs met with e' | os'
      · rw [hu, hmet] at h
        obtain rfl := Except.error.inj h
        obtain ⟨v, hv, hload⟩ := ih hmet
        exact ⟨v, List.mem_cons_of_mem _ hv, hload⟩
      · rw [hu, hmet] at h
        cases h

mutual

theorem collectEnclaves_eq (path : String) (d : Dir) (out : List Enclave) :
    collectEnclaves fs path d out =
      (loadMet fs (walk fs path d)).map fun os => out ++ os.filterMap id := by
  rw [collectEnclaves.eq_def, walk.eq_def, loadMet_cons]
  rcases hload : loadConfig fs path d with e | _ | enc
  · rfl
  · simp only
    have hnone := loadConfig_eq_none hload
    cases d with
    | denied err => simp [Except.bind, Except.map]
    | readable entries =>
      simp only [hnone, Option.isSome_none, Bool.false_eq_true, if_false]
      rw [collectEntries_eq]
      rcases loadMet fs (walkEntries fs path entries) with e | os <;> rfl
  · obtain ⟨raw, hraw, -⟩ := loadConfig_eq_some hload
    cases d with
    | denied err => simp [Except.bind, Except.map]
    | readable entries => simp [hraw, Except.bind, Except.map]

theorem collectEntries_eq (path : String) (entries : List DirEntry) (out : List Enclave) :
    collectEntries fs path entries out =
      (loadMet fs (walkEntries fs path entries)).map fun os => out ++ os.filterMap id := by
  match entries with
  | [] => simp [collectEntries, walkEntries, Except.map]
  | .dir name d :: entries =>
    rw [collectEntries, walkEntries, loadMet_append, collectEnclaves_eq]
    rcases loadMet fs (walk fs (joinPath path name) d) with e | os
    · rfl
    · simp only [Except.map, Except.bind]
      rw [collectEntries_eq]
      rcases loadMet fs (walkEntries fs path entries) with e | os'
      · rfl
      · simp [Except.map]
  | .other _ :: entries => rw [collectEntries, walkEntries, collectEntries_eq]
  | .failed _ :: entries => rw [collectEntries, walkEntries, collectEntries_eq]

end

/-- An entry that reading a listing fails on. -/
def DirEntry.isFailed : DirEntry → Bool
  | .failed _ => true
  | _ => false

theorem loadEntries_eq {path : String} {entries : List DirEntry}
    (hentries : ∀ e ∈ entries, e.isFailed = false) (out : List Enclave) :
    loadEntries fs path entries out = collectEntries fs path entries out := by
  induction entries generalizing out with
  | nil => rw [loadEntries, collectEntries]
  | cons e entries ih =>
    obtain ⟨he, hrest⟩ := List.forall_mem_cons.mp hentries
    cases e with
    | dir name d =>
      rw [loadEntries, collectEntries]
      rcases collectEnclaves fs (joinPath path name) d out with e | out'
      · rfl
      · exact ih hrest out'
    | other name =>
      rw [loadEntries, collectEntries]
      exact ih hrest out
    | failed err => cases he

/-- Where the root lists an entry that cannot be read, loading fails. -/
theorem loadEntries_failed {path : String} {entries : List DirEntry} {e : DirEntry}
    (he : e ∈ entries) (hfailed : e.isFailed = true) (out : List Enclave) :
    ∃ err, loadEntries fs path entries out = .error err := by
  induction entries generalizing out with
  | nil => cases he
  | cons e' entries ih =>
    rw [loadEntries.eq_def]
    cases e' with
    | failed err => exact ⟨_, rfl⟩
    | other name =>
      rcases List.mem_cons.mp he with rfl | he
      · cases hfailed
      · exact ih he out
    | dir name d =>
      rcases List.mem_cons.mp he with rfl | he
      · cases hfailed
      · simp only
        rcases collectEnclaves fs (joinPath path name) d out with err | out'
        · exact ⟨err, rfl⟩
        · exact ih he out'

/-- **Loading is converting what the walk meets.** The load succeeds exactly when the root
lists, and every directory of the walk either converts to an enclave or is none; the
result is those enclaves, in the order of the walk. -/
theorem loadEnclaves_eq_ok {path : String} {entries : List DirEntry} {l : List Enclave} :
    loadEnclaves fs path (.readable entries) = .ok l ↔
      (∀ e ∈ entries, e.isFailed = false) ∧
        ∃ os, loadMet fs (walkEntries fs path entries) = .ok os ∧ l = os.filterMap id := by
  rw [loadEnclaves]
  by_cases hentries : ∀ e ∈ entries, e.isFailed = false
  · rw [loadEntries_eq hentries, collectEntries_eq]
    rcases loadMet fs (walkEntries fs path entries) with e | os
    · simp [Except.map]
    · simp only [Except.map, List.nil_append, Except.ok.injEq, exists_eq_left']
      exact ⟨fun h => ⟨hentries, h.symm⟩, fun h => h.2.symm⟩
  · constructor
    · intro hok
      push Not at hentries
      obtain ⟨e, he, hfailed⟩ := hentries
      obtain ⟨err, herr⟩ := loadEntries_failed he (by simpa using hfailed) []
      rw [herr] at hok
      cases hok
    · exact fun h => absurd h.1 hentries

end

end Nclav
