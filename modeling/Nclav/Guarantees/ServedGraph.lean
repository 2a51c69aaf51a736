import Nclav.Api.Graph
import Nclav.Guarantees.Schedule
import Nclav.Guarantees.NothingLost
import Nclav.Guarantees.ExportContract

/-!
# The graph of the declarations

After a run without errors the graph that is served is that of the declarations: a node for each of
them and an edge for each of their imports. An edge joins two nodes, and but for an enclave that
imports from itself there is no cycle. What has been stored before the run does not matter.
-/

namespace Nclav

open Effect Serde

/-! ## The edges of an accepted list -/

section

variable {desired : List Enclave} {topo : Topo.TopoSort} {resolved : ResolvedGraph}

theorem mem_importEdges {enc : Enclave} {e : ImportEdge} (h : e ∈ enc.importEdges) :
    e.to_ = enc.id ∧ ∃ im ∈ enc.allImports, im.from_ = e.from_ := by
  rcases List.mem_append.mp h with hown | hpart
  · obtain ⟨im, him, rfl⟩ := List.mem_map.mp hown
    exact ⟨rfl, im, List.mem_append_left _ him, rfl⟩
  · obtain ⟨part, hmem, hpart⟩ := List.mem_flatMap.mp hpart
    obtain ⟨im, him, rfl⟩ := List.mem_map.mp hpart
    exact ⟨rfl, im, List.mem_append_right _ (List.mem_flatMap.mpr ⟨part, hmem, him⟩), rfl⟩

/-- An edge joins two of the enclaves. -/
theorem importEdge_ends (hvalid : validate topo desired = .ok resolved) {enc : Enclave}
    (henc : enc ∈ desired) {e : ImportEdge} (he : e ∈ enc.importEdges) :
    e.from_ ∈ desired.map (·.id) ∧ e.to_ ∈ desired.map (·.id) := by
  obtain ⟨hto, im, him, hfrom⟩ := mem_importEdges he
  obtain ⟨source, -, hsource, -⟩ := validate_import hvalid henc him
  obtain ⟨hmem, hid⟩ := mem_of_get?_byId hsource
  exact ⟨List.mem_map.mpr ⟨source, hmem, hid.trans hfrom⟩, List.mem_map.mpr ⟨enc, henc, hto.symm⟩⟩

/-- The edges between different enclaves have no cycle. -/
theorem importEdges_acyclic (hlawful : topo.Lawful) (hvalid : validate topo desired = .ok resolved)
    {edges : List ImportEdge} (hedges : ∀ e ∈ edges, ∃ enc ∈ desired, e ∈ enc.importEdges) :
    ¬∃ id, Relation.TransGen (fun a b => a ≠ b ∧ ∃ e ∈ edges, e.from_ = a ∧ e.to_ = b) id id := by
  rintro ⟨id, hcycle⟩
  have hfeeds : Relation.TransGen (Feeds desired) id id := by
    refine Relation.TransGen.mono ?_ id id hcycle
    rintro a b ⟨hne, e, he, rfl, rfl⟩
    obtain ⟨enc, henc, hmem⟩ := hedges e he
    obtain ⟨hto, im, him, hfrom⟩ := mem_importEdges hmem
    exact ⟨hne, enc, henc, hto.symm, im, him, hfrom⟩
  have hrefused := (validate_cycle_iff hlawful (validate_eq_ok hvalid).1).mpr ⟨id, hfeeds⟩
  rw [hvalid] at hrefused
  cases hrefused

end

/-! ## The records after a run -/

section

variable {A : (c : Call) → Resp c → Prop} {run : Run} {desired : List Enclave} {w w' : World}

/-- The records are those of the declared enclaves, which are active. -/
theorem Settled.records (h : Settled A run desired w w') (hnodup : (desired.map (·.id)).Nodup) :
    (w'.store.enclaves.toList.map fun e => e.2.desired).Perm desired ∧
      ∀ id s, w'.store.get? id = some s → s.meta_.status = .active := by
  have hrecord : ∀ enc ∈ desired, ∃ s, w'.store.get? enc.id = some s ∧ s.desired = enc ∧
      s.meta_.status = .active := by
    intro enc henc
    obtain ⟨driver, s, s', -, hs', hrest, hvisited⟩ := h.visited enc henc
    have hdesired : s'.rest.desired = s.rest.desired := by rw [hrest]
    have hmeta : s'.rest.meta_ = s.rest.meta_ := by rw [hrest]
    obtain ⟨now, hactive⟩ := hvisited.meta_
    refine ⟨s', hs', Eq.trans hdesired hvisited.desired, ?_⟩
    have hstatus : s'.meta_ = s.meta_ := hmeta
    rw [hstatus, hactive]
    rfl
  have honly : ∀ id s, w'.store.get? id = some s → id ∈ desired.map (·.id) := by
    intro id s hs
    by_contra hid
    rw [h.gone id hid] at hs
    cases hs
  constructor
  · refine HashMap.perm_of_lookups w'.store.keyed hnodup (fun enc henc => ?_) honly
    obtain ⟨s, hs, hdesired, -⟩ := hrecord enc henc
    exact ⟨s, hs, hdesired⟩
  · intro id s hs
    obtain ⟨enc, henc, rfl⟩ := List.mem_map.mp (honly id s hs)
    obtain ⟨s', hs', -, hactive⟩ := hrecord enc henc
    obtain rfl : s = s' := Option.some.inj (hs.symm.trans hs')
    exact hactive

end

/-! ## The answer -/

/-- What a node says of the declaration. -/
def EnclaveNode.declares (n : EnclaveNode) (enc : Enclave) : Prop :=
  n.id = enc.id ∧ n.name = enc.name ∧ n.cloud = enc.cloud ∧ n.status = .active ∧
    n.partitions.map (fun p => (p.id, p.name, p.produces)) =
      enc.partitions.map fun p => (p.id, p.name, p.produces)

/-- The answer is made of the records. -/
theorem systemGraph_of_run {A : (c : Call) → Resp c → Prop} {w w' : World} {g : SystemGraph}
    (hrun : Prog.Exec (system A) getSystemGraph.run w (.ok g) w') :
    ∃ all, all.Perm (w.store.enclaves.toList.map (·.2)) ∧ g = systemGraph all := by
  refine hrun.wp (Q := fun r _ => ∀ g, r = .ok g →
    ∃ all, all.Perm (w.store.enclaves.toList.map (·.2)) ∧ g = systemGraph all) ?_ g rfl
  rintro (e | all) ⟨hlisted, -⟩
  · rintro _ ⟨⟩
  · rintro _ ⟨⟩
    exact ⟨all, hlisted, rfl⟩

/-- **The graph of the declarations is served.** After a run without errors `GET /graph` answers with
a node for each declared enclave, all of them active, and with an edge for each declared import. An
edge joins two of the nodes, and between different nodes there is no cycle. -/
theorem served_graph_declared {host : Host} {fs : FileSystem} {root : Dir} {req : ReconcileRequest}
    {registry : DriverRegistry} {desired : List Enclave} {w w' w'' : World}
    {report : ReconcileReport} {g : SystemGraph} (hlawful : host.topo.Lawful)
    (hload : loadEnclaves fs req.enclavesDir root = .ok desired) (hdry : req.dryRun = false)
    (hnodup : (desired.map (·.id)).Nodup)
    (hrun : Prog.Exec (system anyAnswer) (reconcile host fs root req registry).run w
      (.ok report) w') (herrors : report.errors = [])
    (hread : Prog.Exec (system anyAnswer) getSystemGraph.run w' (.ok g) w'') :
    (∃ order, order.Perm desired ∧ List.Forall₂ EnclaveNode.declares g.nodes order ∧
      g.edges = order.flatMap (·.importEdges)) ∧
    (∀ e ∈ g.edges, e.from_ ∈ g.nodes.map (·.id) ∧ e.to_ ∈ g.nodes.map (·.id)) ∧
    ¬∃ id, Relation.TransGen (fun a b => a ≠ b ∧ ∃ e ∈ g.edges, e.from_ = a ∧ e.to_ = b)
      id id := by
  rw [reconcile_of_loaded hload] at hrun
  obtain ⟨run, resolved, removed, hstart, hsettled⟩ :=
    settled_of_run hlawful hdry hnodup hrun herrors
  obtain ⟨hrecords, hactive⟩ := hsettled.records hnodup
  obtain ⟨all, hall, rfl⟩ := systemGraph_of_run hread
  have horder : (all.map (·.desired)).Perm desired := by
    refine (hall.map _).trans ?_
    rw [List.map_map]
    exact hrecords
  have hnode : ∀ s ∈ all, s.node.declares s.desired := by
    intro s hs
    obtain ⟨e, he, rfl⟩ := List.mem_map.mp (hall.mem_iff.mp hs)
    have hget : w'.store.get? e.1 = some e.2 := Std.ExtTreeMap.mem_toList_iff_getElem?_eq_some.mp he
    refine ⟨rfl, rfl, rfl, hactive e.1 e.2 hget, ?_⟩
    rw [EnclaveState.node, List.map_map]
    rfl
  have hids : (systemGraph all).nodes.map (·.id) = (all.map (·.desired)).map (·.id) := by
    rw [systemGraph, List.map_map, List.map_map]
    rfl
  have hedges : ∀ e ∈ (systemGraph all).edges, ∃ enc ∈ desired, e ∈ enc.importEdges := by
    intro e he
    obtain ⟨s, hs, he⟩ := List.mem_flatMap.mp he
    exact ⟨s.desired, horder.subset (List.mem_map_of_mem hs), he⟩
  refine ⟨⟨all.map (·.desired), horder, ?_, ?_⟩, fun e he => ?_,
    importEdges_acyclic hlawful hstart.valid hedges⟩
  · exact List.forall₂_map_left_iff.mpr
      (List.forall₂_map_right_iff.mpr (List.forall₂_same.mpr hnode))
  · rw [List.flatMap_map]
    rfl
  · obtain ⟨enc, henc, he⟩ := hedges e he
    have hends := importEdge_ends hstart.valid henc he
    rw [hids]
    exact ⟨(horder.map _).mem_iff.mpr hends.1, (horder.map _).mem_iff.mpr hends.2⟩

/-! ### An importer and its exporter -/

/-- Two enclaves, the second of which imports from the first. -/
def linkedFiles : FileSystem where
  readConfig path :=
    if path = "enclaves/a/config.yml" then some (.ok "id: a")
    else if path = "enclaves/b/config.yml" then some (.ok "id: b")
    else none
  parseYaml text :=
    if text = "id: a" then
      some (.record [("id", .str "a"), ("name", .str "a"), ("region", .str "r"),
        ("exports", .seq [writtenExport "x" "p" "none"])])
    else if text = "id: b" then
      some (.record [("id", .str "b"), ("name", .str "b"), ("region", .str "r"),
        ("imports", .seq [.record [("from", .str "a"), ("export_name", .str "x"),
          ("alias", .str "y")]])])
    else none
  yamlError _ := ""

def linkedRoot : Dir := .readable [.dir "a" (.readable []), .dir "b" (.readable [])]

def linkedEnclaves : List Enclave :=
  [⟨⟨"a"⟩, "a", none, "r", none, none, none, [], [⟨"x", ⟨"p"⟩, .http, .public_, .none, none, none⟩],
      []⟩,
    ⟨⟨"b"⟩, "b", none, "r", none, none, none, [⟨⟨"a"⟩, "x", "y"⟩], [], []⟩]

theorem load_linked :
    loadEnclaves linkedFiles enclavesRequest.enclavesDir linkedRoot = .ok linkedEnclaves := rfl

def linkedRun : Except ReconcileError ReconcileReport × World :=
  Prog.run World.next okAnswer
    (reconcile namingHost linkedFiles linkedRoot enclavesRequest gcpOnly).run .empty

theorem exec_linkedRun :
    Prog.Exec (system anyAnswer)
      (reconcile namingHost linkedFiles linkedRoot enclavesRequest gcpOnly).run .empty
      linkedRun.1 linkedRun.2 :=
  Prog.exec_run (M := system anyAnswer) (fun w c => ⟨answers_okAnswer w c, trivial⟩) _ _

def linkedRead : Except ApiError SystemGraph × World :=
  Prog.run World.next okAnswer getSystemGraph.run linkedRun.2

/-- Of the two enclaves, the graph with its one edge. -/
theorem linked_graph_declared :
    ∃ g, linkedRead.1 = .ok g ∧ g.edges = [⟨⟨"a"⟩, ⟨"b"⟩, none, "x", "y"⟩] ∧
      (∀ e ∈ g.edges, e.from_ ∈ g.nodes.map (·.id) ∧ e.to_ ∈ g.nodes.map (·.id)) ∧
      ¬∃ id, Relation.TransGen (fun a b => a ≠ b ∧ ∃ e ∈ g.edges, e.from_ = a ∧ e.to_ = b)
        id id := by
  obtain ⟨report, hreport, herrors⟩ : ∃ report,
      linkedRun.1 = .ok report ∧ report.errors = [] := ⟨_, rfl, rfl⟩
  obtain ⟨g, hg, hedges⟩ : ∃ g, linkedRead.1 = .ok g ∧
      g.edges = [⟨⟨"a"⟩, ⟨"b"⟩, none, "x", "y"⟩] := ⟨_, rfl, rfl⟩
  have hrun := exec_linkedRun
  rw [hreport] at hrun
  have hread : Prog.Exec (system anyAnswer) getSystemGraph.run linkedRun.2 linkedRead.1
      linkedRead.2 :=
    Prog.exec_run (M := system anyAnswer) (fun w c => ⟨answers_okAnswer w c, trivial⟩) _ _
  rw [hg] at hread
  exact ⟨g, hg, hedges, (served_graph_declared Topo.kahn_lawful load_linked rfl (by decide)
    hrun herrors hread).2⟩

end Nclav
