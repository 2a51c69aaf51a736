import Nclav.Guarantees.AliasScope

/-!
# The schedule

A run visits the enclaves in the order of `orderedDesired`: all of them, each once, exporters
before their importers. Validation refuses exactly the lists for which there is no such order.
-/

namespace Nclav

section

variable {topo : Topo.TopoSort} {desired : List Enclave} {resolved : ResolvedGraph}

/-- The sort that an accepted list was ordered by. -/
theorem exists_topoOrder (hlawful : topo.Lawful) (h : validate topo desired = .ok resolved) :
    ∃ order, (dependencyGraph desired).IsTopoOrder order ∧
      resolved.topoOrder = order.filterMap fun i => desired[i]?.map fun e => ⟨e.id.val⟩ := by
  obtain ⟨-, hcyc, order, horder, rfl⟩ := validate_eq_ok h
  have hwf := dependencyGraph_wellFormed desired
  have hacyclic : ¬ (dependencyGraph desired).Cyclic := fun hc => by
    rw [(hlawful.isCyclic_iff _ hwf).mpr hc] at hcyc
    cases hcyc
  obtain ⟨l, hl, htopo⟩ := hlawful.toposort_spec _ hwf hacyclic
  rw [horder] at hl
  obtain rfl := Option.some.inj hl
  exact ⟨order, htopo, rfl⟩

/-- With distinct ids the visited enclaves are those at the sorted nodes. -/
theorem orderedDesired_eq_filterMap (hlawful : topo.Lawful)
    (h : validate topo desired = .ok resolved) (hnodup : (desired.map (·.id)).Nodup)
    {order : List Nat} (horder : resolved.topoOrder =
      order.filterMap fun i => desired[i]?.map fun e => ⟨e.id.val⟩) :
    orderedDesired resolved desired = order.filterMap fun i => desired[i]? := by
  rw [orderedDesired_eq hlawful h, horder, List.map_filterMap, List.filterMap_filterMap]
  refine List.filterMap_congr fun i _ => ?_
  rcases hi : desired[i]? with _ | enc
  · rfl
  · exact get?_byId_of_mem hnodup (List.mem_of_getElem? hi)

/-- With distinct ids the importer stands behind its exporter. -/
theorem idxOf_orderedDesired_lt (hlawful : topo.Lawful) (h : validate topo desired = .ok resolved)
    (hnodup : (desired.map (·.id)).Nodup) {a b : Enclave} (ha : a ∈ desired) (hb : b ∈ desired)
    {im : Import} (him : im ∈ b.allImports) (hfrom : im.from_ = a.id) (hne : a ≠ b) :
    (orderedDesired resolved desired).idxOf a < (orderedDesired resolved desired).idxOf b := by
  obtain ⟨order, ⟨hperm, hforward⟩, htopo⟩ := exists_topoOrder hlawful h
  obtain ⟨i, hi⟩ := List.mem_iff_getElem?.mp ha
  obtain ⟨j, hj⟩ := List.mem_iff_getElem?.mp hb
  have hids : a.id ≠ b.id := fun hid => hne (List.inj_on_of_nodup_map hnodup ha hb hid)
  have hedge : (dependencyGraph desired).Edge i j :=
    (dependencyGraph_labels (validate_eq_ok h).1).edge_iff.mpr
      ⟨a.id, b.id, ⟨hids, b, hb, rfl, im, him, hfrom⟩, nodeMap_of_nodup hnodup hi,
        nodeMap_of_nodup hnodup hj⟩
  -- the order is a list of places, and the enclaves at them are distinct
  have hplace : ∀ k, k ∈ order ↔ k < desired.length := fun k => by
    rw [hperm.mem_iff, List.mem_range]
    rfl
  have hsome : ∀ k ∈ order, (desired[k]?).isSome = true := fun k hk => by
    simpa using (hplace k).mp hk
  have hinj : ∀ k ∈ order, ∀ l ∈ order, desired[k]? = desired[l]? → k = l := fun k hk l _ hkl =>
    (List.getElem?_inj ((hplace k).mp hk) hnodup.of_map).mp hkl
  have hmem : ∀ {k enc}, desired[k]? = some enc → k ∈ order := fun hk =>
    (hplace _).mpr (List.getElem?_eq_some_iff.mp hk).1
  rw [orderedDesired_eq_filterMap hlawful h hnodup htopo,
    Topo.idxOf_filterMap hsome hinj (hmem hi) hi, Topo.idxOf_filterMap hsome hinj (hmem hj) hj]
  exact hforward i j hedge

/-- A list without errors of its own is refused exactly for a cycle. -/
theorem validate_cycle_iff (hlawful : topo.Lawful) (herrors : validationErrors desired = []) :
    validate topo desired = .error .cycleDetected ↔
      ∃ id, Relation.TransGen (Feeds desired) id id := by
  have hwf := dependencyGraph_wellFormed desired
  rw [← (dependencyGraph_labels herrors).cyclic_iff]
  constructor
  · intro h
    by_contra hacyclic
    obtain ⟨order, horder, -⟩ := hlawful.toposort_spec _ hwf hacyclic
    have hcyc : ¬ topo.isCyclic (dependencyGraph desired) = true := fun hc =>
      hacyclic ((hlawful.isCyclic_iff _ hwf).mp hc)
    rw [validate, herrors] at h
    simp only [if_neg hcyc, horder] at h
    cases h
  · intro hcyclic
    rw [validate, herrors]
    simp only [(hlawful.isCyclic_iff _ hwf).mpr hcyclic, if_true]

end

/-- **The schedule respects dependencies.** With distinct ids an accepted list is visited as a
permutation of itself in which every exporter stands before its importers; and a list without
errors of its own is refused for a cycle exactly when its imports have one. -/
theorem schedule_respects_imports {topo : Topo.TopoSort} (hlawful : topo.Lawful)
    (desired : List Enclave) :
    ((desired.map (·.id)).Nodup → ∀ resolved, validate topo desired = .ok resolved →
      (orderedDesired resolved desired).Perm desired ∧
        ∀ a ∈ desired, ∀ b ∈ desired, a ≠ b → ∀ im ∈ b.allImports, im.from_ = a.id →
          (orderedDesired resolved desired).idxOf a < (orderedDesired resolved desired).idxOf b) ∧
      (validationErrors desired = [] →
        (validate topo desired = .error .cycleDetected ↔
          ∃ id, Relation.TransGen (Feeds desired) id id)) := by
  refine ⟨fun hnodup resolved hvalid => ⟨orderedDesired_perm hlawful hvalid hnodup, ?_⟩,
    validate_cycle_iff hlawful⟩
  intro a ha b hb hne im him hfrom
  exact idxOf_orderedDesired_lt hlawful hvalid hnodup ha hb him hfrom hne

/-- An importer that is declared first is visited last. -/
theorem importer_visited_last :
    ∃ resolved, validate Topo.kahn [importer "x" "y", exporter] = .ok resolved ∧
      (orderedDesired resolved [importer "x" "y", exporter]).idxOf exporter <
        (orderedDesired resolved [importer "x" "y", exporter]).idxOf (importer "x" "y") := by
  refine ⟨_, rfl, ?_⟩
  refine ((schedule_respects_imports Topo.kahn_lawful [importer "x" "y", exporter]).1 (by decide) _
    rfl).2 exporter (by simp) (importer "x" "y") (by simp) ?_ ⟨⟨"a"⟩, "x", "x"⟩ ?_ rfl
  · exact fun h => absurd (congrArg Enclave.id h) (by decide)
  · exact List.mem_cons_self ..

end Nclav
