import Nclav.Reconciler.Report

/-!
# Snapshot and diff

A run reads all records once, into `actualStates`, and compares the desired enclaves with
that snapshot: which ids are gone, in which order the desired enclaves are visited, and
which changes to report.
-/

namespace Nclav

open Effect

/-- What the passes of one run share. -/
structure Run : Type where
  host : Host
  req : ReconcileRequest
  registry : DriverRegistry
  /-- the snapshot of the store -/
  actualStates : HashMap EnclaveId EnclaveState
  runId : Uuid

/-- The record that the snapshot has for an id. -/
def Run.existing (run : Run) (id : EnclaveId) : Option EnclaveState := run.actualStates[id]?

def Host.enclaveHash (host : Host) (enc : Enclave) : String :=
  computeDesiredHash host.digest enc.toValue

def Host.partitionHash (host : Host) (part : Partition) : String :=
  computeDesiredHash host.digest part.toValue

/-- Whether a record carries this hash. -/
def hashUnchanged (m : Option ResourceMeta) (hash : String) : Bool :=
  m.bind (·.desiredHash) == some hash

theorem hashUnchanged_map_iff {before : Option PartitionState} {hash : String} :
    hashUnchanged (before.map (·.meta_)) hash = true ↔
      ∃ ps, before = some ps ∧ ps.meta_.desiredHash = some hash := by
  cases before with
  | none => simp [hashUnchanged]
  | some ps => simp [hashUnchanged]

/-- The snapshot as a map; its keys are the ids of the records. -/
def actualStates (records : List EnclaveState) : HashMap EnclaveId EnclaveState :=
  records.foldl (fun m s => m.insert s.desired.id s) ∅

/-- The stored ids that are no longer desired. -/
def removedIds (actual : HashMap EnclaveId EnclaveState) (desired : List Enclave) :
    List EnclaveId :=
  actual.keys.filter fun id => !(desired.map (·.id)).contains id

/-- The desired enclaves in the order in which they are visited: the topological order, then
those it leaves out. -/
def orderedDesired (resolved : ResolvedGraph) (desired : List Enclave) : List Enclave :=
  let topoIds : List EnclaveId := resolved.topoOrder.map fun n => ⟨n.val⟩
  topoIds.filterMap (fun id => (byId desired)[id]?) ++
    desired.filter fun enc => !topoIds.contains enc.id

/-! ## Changes -/

/-- Created, updated or neither. -/
def hashChanges (m : Option ResourceMeta) (hash : String) (created updated : Change) :
    List Change :=
  if m.isNone then [created] else if hashUnchanged m hash then [] else [updated]

section

variable (host : Host) (actual : HashMap EnclaveId EnclaveState)

/-- The changes of one enclave, its partitions and its exports. -/
def enclaveChanges (enc : Enclave) : List Change :=
  let existing := actual[enc.id]?
  hashChanges (existing.map (·.meta_)) (host.enclaveHash enc) (.enclaveCreated enc.id)
      (.enclaveUpdated enc.id) ++
    (enc.partitions.flatMap fun part =>
      hashChanges ((existing.bind (·.partitions[part.id]?)).map (·.meta_))
        (host.partitionHash part) (.partitionCreated enc.id part.id)
        (.partitionUpdated enc.id part.id)) ++
    (enc.exports.filter fun ex => (existing.bind (·.exportHandles[ex.name]?)).isNone).map
      fun ex => .exportWired enc.id ex.name

/-- The import changes of one enclave. -/
def importChanges (enc : Enclave) : List Change :=
  (enc.allImports.filter fun im =>
      ((actual[enc.id]?).bind (·.importHandles[im.alias_]?)).isNone).map
    fun im => .importWired enc.id im.alias_

/-- All changes: the removals, the changes of each enclave, the imports. -/
def diff (removed : List EnclaveId) (ordered : List Enclave) : List Change :=
  removed.map .enclaveDeleted ++ ordered.flatMap (enclaveChanges host actual) ++
    ordered.flatMap (importChanges actual)

end

/-! ## What the snapshot and the order are -/

/-- The snapshot of the store finds what the store finds. -/
theorem get?_actualStates {st : Store} {records : List EnclaveState}
    (h : records.Perm (st.enclaves.toList.map (·.2))) (id : EnclaveId) :
    (actualStates records)[id]? = st.get? id := by
  rw [actualStates, get?_foldl_insert (fun s : EnclaveState => s.desired.id) (fun s => s)]
  have hmem : ∀ s, s ∈ records ↔ st.get? s.desired.id = some s := by
    intro s
    rw [h.mem_iff, List.mem_map]
    constructor
    · rintro ⟨⟨id, s'⟩, hs', rfl⟩
      have hget : st.get? id = some s' := Std.ExtTreeMap.mem_toList_iff_getElem?_eq_some.mp hs'
      rw [Store.id_of_get? hget]
      exact hget
    · exact fun hs => ⟨(s.desired.id, s), Std.ExtTreeMap.mem_toList_iff_getElem?_eq_some.mpr hs, rfl⟩
  rcases hfind : records.reverse.find? (·.desired.id = id) with _ | s
  · rw [hfind]
    rcases hget : st.get? id with _ | s
    · simp
    · have hs : s ∈ records := (hmem s).mpr (by rw [Store.id_of_get? hget, hget])
      have hnone := List.find?_eq_none.mp hfind s (List.mem_reverse.mpr hs)
      simp [Store.id_of_get? hget] at hnone
  · have hs := (hmem s).mp (List.mem_reverse.mp (List.mem_of_find?_eq_some hfind))
    have hid : s.desired.id = id := by simpa using List.find?_some hfind
    rw [hid] at hs
    rw [hfind, hs]
    rfl

/-- The removed ids are the stored ones that are not desired. -/
theorem mem_removedIds {actual : HashMap EnclaveId EnclaveState} {desired : List Enclave}
    {id : EnclaveId} :
    id ∈ removedIds actual desired ↔
      (actual[id]?).isSome = true ∧ id ∉ desired.map (·.id) := by
  rw [removedIds, List.mem_filter]
  simp

section

variable {topo : Topo.TopoSort} {desired : List Enclave} {resolved : ResolvedGraph}

theorem mem_of_mem_orderedDesired {enc : Enclave} (h : enc ∈ orderedDesired resolved desired) :
    enc ∈ desired := by
  rw [orderedDesired, List.mem_append] at h
  rcases h with h | h
  · obtain ⟨id, -, hid⟩ := List.mem_filterMap.mp h
    exact (mem_of_get?_byId hid).1
  · exact (List.mem_filter.mp h).1

/-- With a lawful sort the order is the topological one, and nothing is left out. -/
theorem orderedDesired_eq (hlawful : topo.Lawful) (h : validate topo desired = .ok resolved) :
    orderedDesired resolved desired =
      (resolved.topoOrder.map fun n => (⟨n.val⟩ : EnclaveId)).filterMap
        fun id => (byId desired)[id]? := by
  have hperm := validate_topoOrder hlawful h
  have hnone : (desired.filter fun enc =>
      !(resolved.topoOrder.map fun n => (⟨n.val⟩ : EnclaveId)).contains enc.id) = [] := by
    rw [List.filter_eq_nil_iff]
    intro enc henc
    have hmem : enc.id ∈ resolved.topoOrder.map fun n => (⟨n.val⟩ : EnclaveId) :=
      hperm.mem_iff.mpr (List.mem_map.mpr ⟨enc, henc, rfl⟩)
    simpa using hmem
  unfold orderedDesired
  simp only
  rw [hnone, List.append_nil]

/-- The visited enclaves are the last ones with their ids. -/
theorem mem_orderedDesired (hlawful : topo.Lawful) (h : validate topo desired = .ok resolved)
    {enc : Enclave} :
    enc ∈ orderedDesired resolved desired ↔ (byId desired)[enc.id]? = some enc := by
  rw [orderedDesired_eq hlawful h, List.mem_filterMap]
  constructor
  · rintro ⟨id, -, hid⟩
    rw [(mem_of_get?_byId hid).2]
    exact hid
  · intro henc
    refine ⟨enc.id, (validate_topoOrder hlawful h).mem_iff.mpr ?_, henc⟩
    exact List.mem_map.mpr ⟨enc, (mem_of_get?_byId henc).1, rfl⟩

/-- Visited enclaves with the same id are the same. -/
theorem eq_of_mem_orderedDesired (hlawful : topo.Lawful) (h : validate topo desired = .ok resolved) :
    ∀ e ∈ orderedDesired resolved desired, ∀ e' ∈ orderedDesired resolved desired,
      e.id = e'.id → e = e' := by
  intro e he e' he' hid
  have hget := (mem_orderedDesired hlawful h).mp he
  rw [hid, (mem_orderedDesired hlawful h).mp he'] at hget
  exact (Option.some.inj hget).symm

/-- With distinct ids every enclave is visited exactly once. -/
theorem orderedDesired_perm (hlawful : topo.Lawful) (h : validate topo desired = .ok resolved)
    (hnodup : (desired.map (·.id)).Nodup) : (orderedDesired resolved desired).Perm desired := by
  rw [orderedDesired_eq hlawful h]
  refine ((validate_topoOrder hlawful h).filterMap _).trans ?_
  rw [List.filterMap_map]
  have hcongr : ∀ enc ∈ desired,
      ((fun id => (byId desired)[id]?) ∘ fun e : Enclave => e.id) enc = some (id enc) :=
    fun enc henc => get?_byId_of_mem hnodup henc
  rw [List.filterMap_congr hcongr, List.filterMap_eq_map', List.map_id]

end

end Nclav
