import Nclav.Domain.Types
import Nclav.Topo.Digraph

/-!
# Validation of the enclave graph

`validate` checks the loaded enclaves against each other: declared outputs cover what a
partition produces, exports have the type of what their target produces, every import
finds its export and is permitted to. It then orders the enclaves, exporters before
importers.

Two lookups matter later. `byId` maps an id to the *last* enclave with it; an import is
checked against the *first* export with its name.
-/

namespace Nclav

inductive GraphError : Type where
  | danglingImportEnclave (importer from_ : EnclaveId)
  | danglingImportExport (importer from_ : EnclaveId) (exportName : String)
  | accessDenied (importer from_ : EnclaveId) (exportName : String)
  | producesExportMismatch (partition : PartitionId) (producesType exportName exportType : String)
  | missingRequiredOutput (partition : PartitionId) (producesType key : String)
  | cycleDetected
  | multiple (errors : List GraphError)

instance : ToString GraphError where
  toString
    | .danglingImportEnclave importer from_ =>
      s!"dangling import: enclave '{importer.val}' imports from unknown enclave '{from_.val}'"
    | .danglingImportExport importer from_ exportName =>
      s!"dangling import: enclave '{importer.val}' imports export '{exportName}' which does " ++
        s!"not exist on '{from_.val}'"
    | .accessDenied importer from_ exportName =>
      s!"access denied: enclave '{importer.val}' is not permitted to import '{exportName}' " ++
        s!"from '{from_.val}'"
    | .producesExportMismatch partition producesType exportName exportType =>
      s!"produces/export mismatch: partition '{partition.val}' produces {producesType} but is " ++
        s!"targeted by export '{exportName}' of type {exportType}"
    | .missingRequiredOutput partition producesType key =>
      s!"missing required output: partition '{partition.val}' produces {producesType} but does " ++
        s!"not declare output '{key}'"
    | .cycleDetected => "cycle detected in enclave dependency graph"
    | .multiple _ => "multiple errors"

/-- Opaque node identifier in the resolved graph. -/
structure NodeId : Type where
  val : String
  deriving DecidableEq

/-- One cross-enclave import/export connection. -/
structure CrossEnclaveWiring : Type where
  importerEnclave : EnclaveId
  importerPartition : Option PartitionId
  exporterEnclave : EnclaveId
  exportName : String
  deriving DecidableEq

/-- What `validate` returns on success. -/
structure ResolvedGraph : Type where
  /-- exporters first -/
  topoOrder : List NodeId
  crossEnclaveWiring : List CrossEnclaveWiring
  deriving DecidableEq

/-- Each id with the last enclave that has it. -/
def byId (enclaves : List Enclave) : HashMap EnclaveId Enclave :=
  enclaves.foldl (fun m e => m.insert e.id e) ∅

/-! ## The checks -/

/-- Whether an export target admits an importing enclave. -/
def ExportTarget.permitted (target : ExportTarget) (importer : EnclaveId) : Bool :=
  match target with
  | .public_ => true
  | .anyEnclave => true
  -- VPN access is decided by the topology
  | .vpn => true
  | .enclave allowedId => allowedId == importer
  | .partition _ => false

def checkImportPartition (importerEnc : Enclave) (partitionId : PartitionId) (im : Import)
    (byId : HashMap EnclaveId Enclave) : Except GraphError CrossEnclaveWiring :=
  match byId[im.from_]? with
  | none => .error (.danglingImportEnclave importerEnc.id im.from_)
  | some source =>
    match source.exports.find? (·.name == im.exportName) with
    | none => .error (.danglingImportExport importerEnc.id im.from_ im.exportName)
    | some ex =>
      if ex.to_.permitted importerEnc.id then
        .ok
          { importerEnclave := importerEnc.id
            importerPartition := if partitionId.val.isEmpty then none else some partitionId
            exporterEnclave := im.from_
            exportName := im.exportName }
      else .error (.accessDenied importerEnc.id im.from_ im.exportName)

def checkImport (importerEnc : Enclave) (im : Import) (byId : HashMap EnclaveId Enclave) :
    Except GraphError CrossEnclaveWiring :=
  (checkImportPartition importerEnc ⟨""⟩ im byId).map ({ · with importerPartition := none })

/-- The output contract of one partition. -/
def outputErrors (part : Partition) : List GraphError :=
  match part.produces with
  | none => []
  | some produces =>
    (produces.requiredOutputs.filter fun key => !part.declaredOutputs.contains key).map fun key =>
      .missingRequiredOutput part.id (toString produces) key

/-- The type match of one enclave export with what its target partition produces. -/
def exportErrors (enc : Enclave) (ex : Export) : List GraphError :=
  match enc.partitions.find? (·.id == ex.targetPartition) with
  | none => []
  | some part =>
    match part.produces with
    | none => []
    | some produces =>
      if ExportType.ofProduces produces = ex.exportType then []
      else
        [.producesExportMismatch part.id (toString produces) ex.name (toString ex.exportType)]

/-- The import checks of one enclave: its own imports, then those of its partitions. -/
def importChecks (byId : HashMap EnclaveId Enclave) (enc : Enclave) :
    List (Except GraphError CrossEnclaveWiring) :=
  enc.imports.map (checkImport enc · byId) ++
    enc.partitions.flatMap fun part =>
      part.imports.map (checkImportPartition enc part.id · byId)

/-- What the per-enclave loop collects in `errors`. -/
def validationErrors (enclaves : List Enclave) : List GraphError :=
  enclaves.flatMap fun enc =>
    enc.partitions.flatMap outputErrors ++ enc.exports.flatMap (exportErrors enc) ++
      (importChecks (byId enclaves) enc).filterMap fun
        | .ok _ => none
        | .error e => some e

/-- What the per-enclave loop collects in `wiring`. -/
def validWiring (enclaves : List Enclave) : List CrossEnclaveWiring :=
  enclaves.flatMap fun enc => (importChecks (byId enclaves) enc).filterMap (·.toOption)

/-! ## The graph -/

/-- The node of an enclave id: the position of the last enclave that has it. -/
def nodeMap (enclaves : List Enclave) : HashMap EnclaveId Nat :=
  enclaves.zipIdx.foldl (fun m e => m.insert e.1.id e.2) ∅

/-- The graph of exporter-to-importer edges; wiring inside an enclave adds none. -/
def dependencyGraph (enclaves : List Enclave) : Topo.Digraph where
  size := enclaves.length
  edges := (validWiring enclaves).filterMap fun w =>
    if w.exporterEnclave = w.importerEnclave then none
    else
      match (nodeMap enclaves)[w.exporterEnclave]?, (nodeMap enclaves)[w.importerEnclave]? with
      | some a, some b => some (a, b)
      | _, _ => none

/-- Validate a fully loaded set of enclaves. -/
def validate (topo : Topo.TopoSort) (enclaves : List Enclave) : Except GraphError ResolvedGraph :=
  match validationErrors enclaves with
  | [e] => .error e
  | e :: es => .error (.multiple (e :: es))
  | [] =>
    if topo.isCyclic (dependencyGraph enclaves) then .error .cycleDetected
    else
      match topo.toposort (dependencyGraph enclaves) with
      | none => .error .cycleDetected
      | some order =>
        .ok
          { topoOrder := order.filterMap fun i => enclaves[i]?.map fun e => ⟨e.id.val⟩
            crossEnclaveWiring := validWiring enclaves }

/-! ## What an accepted list satisfies -/

/-- A map collected from a list binds a key to the last value under it. -/
theorem get?_foldl_insert {K V A : Type} [Ord K] [Std.TransOrd K] [Std.LawfulEqOrd K]
    [DecidableEq K] (key : A → K) (val : A → V) (xs : List A) (m : HashMap K V) (k : K) :
    (xs.foldl (fun m a => m.insert (key a) (val a)) m)[k]? =
      ((xs.reverse.find? (key · = k)).map val).or m[k]? := by
  induction xs generalizing m with
  | nil => rfl
  | cons x xs ih =>
    rw [List.foldl_cons, ih, HashMap.get?_insert, List.reverse_cons, List.find?_append]
    rcases xs.reverse.find? (key · = k) with _ | y
    · by_cases hx : key x = k
      · simp [hx]
      · simp [hx, Ne.symm hx]
    · rfl

/-- `byId` finds the last enclave with the id. -/
theorem get?_byId (enclaves : List Enclave) (id : EnclaveId) :
    (byId enclaves)[id]? = enclaves.reverse.find? (·.id = id) := by
  rw [byId, get?_foldl_insert (fun e : Enclave => e.id) (fun e => e)]
  simp

theorem mem_of_get?_byId {enclaves : List Enclave} {id : EnclaveId} {enc : Enclave}
    (h : (byId enclaves)[id]? = some enc) : enc ∈ enclaves ∧ enc.id = id := by
  rw [get?_byId] at h
  exact ⟨List.mem_reverse.mp (List.mem_of_find?_eq_some h), by simpa using List.find?_some h⟩

/-- Some enclave is found under the id of every enclave. -/
theorem exists_get?_byId {enclaves : List Enclave} {enc : Enclave} (h : enc ∈ enclaves) :
    ∃ enc', (byId enclaves)[enc.id]? = some enc' := by
  rw [get?_byId]
  rcases hfind : enclaves.reverse.find? (·.id = enc.id) with _ | enc'
  · have hnone := List.find?_eq_none.mp hfind enc (List.mem_reverse.mpr h)
    simp at hnone
  · exact ⟨enc', hfind⟩

/-- With distinct ids every enclave is found under its id. -/
theorem get?_byId_of_mem {enclaves : List Enclave} (hnodup : (enclaves.map (·.id)).Nodup)
    {enc : Enclave} (h : enc ∈ enclaves) : (byId enclaves)[enc.id]? = some enc := by
  obtain ⟨enc', henc'⟩ := exists_get?_byId h
  obtain ⟨hmem, hid⟩ := mem_of_get?_byId henc'
  rw [henc', List.inj_on_of_nodup_map hnodup hmem h hid]

theorem validate_eq_ok {topo : Topo.TopoSort} {enclaves : List Enclave} {resolved : ResolvedGraph}
    (h : validate topo enclaves = .ok resolved) :
    validationErrors enclaves = [] ∧
      topo.isCyclic (dependencyGraph enclaves) = false ∧
      ∃ order, topo.toposort (dependencyGraph enclaves) = some order ∧
        resolved =
          { topoOrder := order.filterMap fun i => enclaves[i]?.map fun e => ⟨e.id.val⟩
            crossEnclaveWiring := validWiring enclaves } := by
  rw [validate] at h
  split at h
  · cases h
  · cases h
  · rename_i herrors
    by_cases hcyc : topo.isCyclic (dependencyGraph enclaves) = true
    · rw [if_pos hcyc] at h
      cases h
    · rw [if_neg hcyc] at h
      rcases horder : topo.toposort (dependencyGraph enclaves) with _ | order
      · rw [horder] at h
        cases h
      · rw [horder] at h
        cases h
        exact ⟨herrors, by simpa using hcyc, order, rfl, rfl⟩

/-- The import check is permissive exactly as far as the first export of the name. -/
theorem checkImportPartition_eq_ok {importerEnc : Enclave} {partitionId : PartitionId}
    {im : Import} {byId : HashMap EnclaveId Enclave} {w : CrossEnclaveWiring}
    (h : checkImportPartition importerEnc partitionId im byId = .ok w) :
    ∃ source ex, byId[im.from_]? = some source ∧
      source.exports.find? (·.name == im.exportName) = some ex ∧
      ex.to_.permitted importerEnc.id = true ∧
      w.importerEnclave = importerEnc.id ∧ w.exporterEnclave = im.from_ := by
  rw [checkImportPartition] at h
  rcases hsource : byId[im.from_]? with _ | source
  · rw [hsource] at h
    cases h
  · rw [hsource] at h
    simp only at h
    rcases hex : source.exports.find? (·.name == im.exportName) with _ | ex
    · rw [hex] at h
      cases h
    · rw [hex] at h
      simp only at h
      by_cases hperm : ex.to_.permitted importerEnc.id = true
      · rw [if_pos hperm] at h
        cases h
        exact ⟨source, ex, rfl, hex, hperm, rfl, rfl⟩
      · rw [if_neg hperm] at h
        cases h

section

variable {enclaves : List Enclave} {enc : Enclave}

theorem exists_ok_of_mem_importChecks (herrors : validationErrors enclaves = [])
    (henc : enc ∈ enclaves) {r : Except GraphError CrossEnclaveWiring}
    (hr : r ∈ importChecks (byId enclaves) enc) : ∃ w, r = .ok w := by
  cases r with
  | ok w => exact ⟨w, rfl⟩
  | error e =>
    have hmem : e ∈ validationErrors enclaves :=
      List.mem_flatMap.mpr ⟨enc, henc, List.mem_append_right _
        (List.mem_filterMap.mpr ⟨_, hr, rfl⟩)⟩
    exact absurd herrors (List.ne_nil_of_mem hmem)

theorem checkImport_eq_ok {im : Import} {byId : HashMap EnclaveId Enclave}
    {w : CrossEnclaveWiring} (h : checkImport enc im byId = .ok w) :
    ∃ w', checkImportPartition enc ⟨""⟩ im byId = .ok w' ∧
      w = { w' with importerPartition := none } := by
  rw [checkImport] at h
  rcases hc : checkImportPartition enc ⟨""⟩ im byId with e | w'
  · rw [hc] at h
    cases h
  · rw [hc] at h
    cases h
    exact ⟨w', rfl, rfl⟩

/-- Every import of an enclave, its own or a partition's, is checked. -/
theorem exists_check_of_import (herrors : validationErrors enclaves = [])
    (henc : enc ∈ enclaves) {im : Import} (him : im ∈ enc.allImports) :
    ∃ w ∈ validWiring enclaves, ∃ pid w', checkImportPartition enc pid im (byId enclaves) = .ok w' ∧
      w.importerEnclave = w'.importerEnclave ∧ w.exporterEnclave = w'.exporterEnclave := by
  have hwiring : ∀ {w}, .ok w ∈ importChecks (byId enclaves) enc → w ∈ validWiring enclaves :=
    fun hw => List.mem_flatMap.mpr ⟨enc, henc, List.mem_filterMap.mpr ⟨_, hw, rfl⟩⟩
  rcases List.mem_append.mp him with hown | hpart
  · have hmem : checkImport enc im (byId enclaves) ∈ importChecks (byId enclaves) enc :=
      List.mem_append_left _ (List.mem_map.mpr ⟨im, hown, rfl⟩)
    obtain ⟨w, hw⟩ := exists_ok_of_mem_importChecks herrors henc hmem
    rw [hw] at hmem
    obtain ⟨w', hw', rfl⟩ := checkImport_eq_ok hw
    exact ⟨_, hwiring hmem, _, w', hw', rfl, rfl⟩
  · obtain ⟨part, hp, hi⟩ := List.mem_flatMap.mp hpart
    have hmem : checkImportPartition enc part.id im (byId enclaves) ∈
        importChecks (byId enclaves) enc :=
      List.mem_append_right _
        (List.mem_flatMap.mpr ⟨part, hp, List.mem_map.mpr ⟨im, hi, rfl⟩⟩)
    obtain ⟨w, hw⟩ := exists_ok_of_mem_importChecks herrors henc hmem
    rw [hw] at hmem
    exact ⟨w, hwiring hmem, _, w, hw, rfl, rfl⟩

/-- **Accepted imports.** In an accepted list, every import of an enclave finds an enclave
and the first export of that name there permits the importer. -/
theorem validate_import {topo : Topo.TopoSort} {resolved : ResolvedGraph}
    (h : validate topo enclaves = .ok resolved) (henc : enc ∈ enclaves) {im : Import}
    (him : im ∈ enc.allImports) :
    ∃ source ex, (byId enclaves)[im.from_]? = some source ∧
      source.exports.find? (·.name == im.exportName) = some ex ∧
      ex.to_.permitted enc.id = true := by
  obtain ⟨w, -, pid, w', hw', -⟩ := exists_check_of_import (validate_eq_ok h).1 henc him
  obtain ⟨source, ex, hsource, hex, hperm, -⟩ := checkImportPartition_eq_ok hw'
  exact ⟨source, ex, hsource, hex, hperm⟩

end

/-! ## The order -/

theorem nodeMap_lt {enclaves : List Enclave} {id : EnclaveId} {i : Nat}
    (h : (nodeMap enclaves)[id]? = some i) : i < enclaves.length := by
  rw [nodeMap] at h
  rw [get?_foldl_insert (fun e : Enclave × Nat => e.1.id) (fun e => e.2)] at h
  simp only [Std.ExtTreeMap.getElem?_empty, Option.or_none, Option.map_eq_some_iff] at h
  obtain ⟨e, he, rfl⟩ := h
  have hmem := List.mem_reverse.mp (List.mem_of_find?_eq_some he)
  exact List.snd_lt_of_mem_zipIdx hmem

theorem dependencyGraph_wellFormed (enclaves : List Enclave) :
    (dependencyGraph enclaves).WellFormed := by
  intro e he
  obtain ⟨w, -, hw⟩ := List.mem_filterMap.mp he
  by_cases hself : w.exporterEnclave = w.importerEnclave
  · rw [if_pos hself] at hw
    cases hw
  · rw [if_neg hself] at hw
    rcases ha : (nodeMap enclaves)[w.exporterEnclave]? with _ | a
    · simp [ha] at hw
    · rcases hb : (nodeMap enclaves)[w.importerEnclave]? with _ | b
      · simp [hb] at hw
      · simp only [ha, hb, Option.some.injEq] at hw
        rw [← hw]
        exact ⟨nodeMap_lt ha, nodeMap_lt hb⟩

/-- Looking up every index of a list gives the list. -/
theorem filterMap_range_map {A B : Type} (f : A → B) (xs : List A) :
    ((List.range xs.length).filterMap fun i => xs[i]?.map f) = xs.map f := by
  induction xs with
  | nil => rfl
  | cons x xs ih =>
    rw [List.length_cons, List.range_succ_eq_map, List.filterMap_cons, List.filterMap_map]
    exact congrArg (f x :: ·) ih

/-- The topological order names the id of every enclave, once for each enclave. -/
theorem validate_topoOrder {topo : Topo.TopoSort} (hlawful : topo.Lawful)
    {enclaves : List Enclave} {resolved : ResolvedGraph}
    (h : validate topo enclaves = .ok resolved) :
    (resolved.topoOrder.map fun n => (⟨n.val⟩ : EnclaveId)).Perm (enclaves.map (·.id)) := by
  obtain ⟨-, hcyc, order, horder, rfl⟩ := validate_eq_ok h
  have hwf := dependencyGraph_wellFormed enclaves
  have hacyclic : ¬ (dependencyGraph enclaves).Cyclic := fun hc => by
    rw [(hlawful.isCyclic_iff _ hwf).mpr hc] at hcyc
    cases hcyc
  obtain ⟨l, hl, hperm, -⟩ := hlawful.toposort_spec _ hwf hacyclic
  rw [horder] at hl
  obtain rfl := Option.some.inj hl
  have hperm' := (hperm.filterMap fun i =>
    enclaves[i]?.map fun e => (⟨e.id.val⟩ : NodeId)).map fun n => (⟨n.val⟩ : EnclaveId)
  rw [show (dependencyGraph enclaves).size = enclaves.length from rfl,
    filterMap_range_map, List.map_map]
    at hperm'
  exact hperm'

/-! ## The graph of an accepted list -/

/-- An enclave imports from another: `a` has to be provisioned before `b`. -/
def Feeds (enclaves : List Enclave) (a b : EnclaveId) : Prop :=
  a ≠ b ∧ ∃ enc ∈ enclaves, enc.id = b ∧ ∃ im ∈ enc.allImports, im.from_ = a

section

variable {enclaves : List Enclave}

/-- The node of an id is the place of an enclave that has it. -/
theorem id_of_nodeMap {id : EnclaveId} {i : Nat} (h : (nodeMap enclaves)[id]? = some i) :
    enclaves[i]?.map (·.id) = some id := by
  rw [nodeMap, get?_foldl_insert (fun e : Enclave × Nat => e.1.id) (fun e => e.2)] at h
  simp only [Std.ExtTreeMap.getElem?_empty, Option.or_none, Option.map_eq_some_iff] at h
  obtain ⟨⟨e, j⟩, he, rfl⟩ := h
  have hmem := List.mem_reverse.mp (List.mem_of_find?_eq_some he)
  have hid : e.id = id := by simpa using List.find?_some he
  rw [List.mem_zipIdx_iff_getElem?] at hmem
  rw [hmem, Option.map_some, hid]

theorem exists_nodeMap {enc : Enclave} (h : enc ∈ enclaves) :
    ∃ i, (nodeMap enclaves)[enc.id]? = some i := by
  rw [nodeMap, get?_foldl_insert (fun e : Enclave × Nat => e.1.id) (fun e => e.2)]
  rcases hfind : enclaves.zipIdx.reverse.find? (fun e => decide (e.1.id = enc.id)) with _ | e
  · obtain ⟨i, hi⟩ := List.mem_iff_getElem?.mp h
    have hmem : (enc, i) ∈ enclaves.zipIdx := List.mem_zipIdx_iff_getElem?.mpr hi
    have hnone := List.find?_eq_none.mp hfind (enc, i) (List.mem_reverse.mpr hmem)
    simp at hnone
  · exact ⟨e.2, by rw [hfind]; rfl⟩

/-- With distinct ids the node of an enclave is its place. -/
theorem nodeMap_of_nodup (hnodup : (enclaves.map (·.id)).Nodup) {i : Nat} {enc : Enclave}
    (hi : enclaves[i]? = some enc) : (nodeMap enclaves)[enc.id]? = some i := by
  obtain ⟨j, hj⟩ := exists_nodeMap (List.mem_of_getElem? hi)
  have hlt : i < (enclaves.map (·.id)).length := by
    rw [List.length_map]
    exact (List.getElem?_eq_some_iff.mp hi).1
  have heq : (enclaves.map (·.id))[i]? = (enclaves.map (·.id))[j]? := by
    rw [List.getElem?_map, List.getElem?_map, id_of_nodeMap hj, hi]
    rfl
  rw [hj, (List.getElem?_inj hlt hnodup).mp heq]

/-- The wirings that validation collects are the imports of the list. -/
theorem exists_validWiring_iff (herrors : validationErrors enclaves = []) {a b : EnclaveId} :
    (∃ w ∈ validWiring enclaves, w.exporterEnclave = a ∧ w.importerEnclave = b) ↔
      ∃ enc ∈ enclaves, enc.id = b ∧ ∃ im ∈ enc.allImports, im.from_ = a := by
  constructor
  · rintro ⟨w, hw, rfl, rfl⟩
    obtain ⟨enc, henc, hmem⟩ := List.mem_flatMap.mp hw
    obtain ⟨r, hr, hrw⟩ := List.mem_filterMap.mp hmem
    obtain ⟨w', rfl⟩ := exists_ok_of_mem_importChecks herrors henc hr
    obtain rfl := Option.some.inj hrw
    refine ⟨enc, henc, ?_⟩
    rcases List.mem_append.mp hr with hr | hr
    · obtain ⟨im, him, hcheck⟩ := List.mem_map.mp hr
      obtain ⟨w'', hw'', rfl⟩ := checkImport_eq_ok hcheck
      obtain ⟨-, -, -, -, -, himporter, hexporter⟩ := checkImportPartition_eq_ok hw''
      exact ⟨himporter.symm, im, List.mem_append_left _ him, hexporter.symm⟩
    · obtain ⟨part, hpart, hr⟩ := List.mem_flatMap.mp hr
      obtain ⟨im, him, hcheck⟩ := List.mem_map.mp hr
      obtain ⟨-, -, -, -, -, himporter, hexporter⟩ := checkImportPartition_eq_ok hcheck
      exact ⟨himporter.symm, im,
        List.mem_append_right _ (List.mem_flatMap.mpr ⟨part, hpart, him⟩), hexporter.symm⟩
  · rintro ⟨enc, henc, rfl, im, him, rfl⟩
    obtain ⟨w, hw, pid, w', hcheck, himporter, hexporter⟩ :=
      exists_check_of_import herrors henc him
    obtain ⟨-, -, -, -, -, himporter', hexporter'⟩ := checkImportPartition_eq_ok hcheck
    exact ⟨w, hw, hexporter.trans hexporter', himporter.trans himporter'⟩

/-- The graph joins the nodes of the enclaves that feed each other. -/
theorem dependencyGraph_labels (herrors : validationErrors enclaves = []) :
    (dependencyGraph enclaves).Labels (Feeds enclaves) fun id => (nodeMap enclaves)[id]? where
  inj ha hb := Option.some.inj ((id_of_nodeMap ha).symm.trans (id_of_nodeMap hb))
  edge_iff := by
    intro i j
    constructor
    · intro hedge
      obtain ⟨w, hw, hij⟩ := List.mem_filterMap.mp hedge
      split at hij
      · cases hij
      · rename_i hne
        split at hij
        · rename_i a b ha hb
          cases hij
          exact ⟨_, _, ⟨hne, (exists_validWiring_iff herrors).mp ⟨w, hw, rfl, rfl⟩⟩, ha, hb⟩
        · cases hij
    · rintro ⟨a, b, ⟨hne, himport⟩, ha, hb⟩
      obtain ⟨w, hw, rfl, rfl⟩ := (exists_validWiring_iff herrors).mpr himport
      exact List.mem_filterMap.mpr ⟨w, hw, by rw [if_neg hne, ha, hb]⟩
  total := by
    rintro _ _ ⟨-, enc, henc, rfl, im, him, rfl⟩
    obtain ⟨w, -, pid, w', hcheck, -⟩ := exists_check_of_import herrors henc him
    obtain ⟨source, ex, hsource, -⟩ := checkImportPartition_eq_ok hcheck
    obtain ⟨hmem, hid⟩ := mem_of_get?_byId hsource
    obtain ⟨i, hi⟩ := exists_nodeMap hmem
    obtain ⟨j, hj⟩ := exists_nodeMap henc
    rw [hid] at hi
    exact ⟨i, j, hi, hj⟩

end

end Nclav
