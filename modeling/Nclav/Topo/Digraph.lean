import Mathlib

/-!
# Topological orders of finite directed graphs

A directed graph on the nodes `0, …, size - 1` given by its edge list. `TopoSort` is the
interface of a graph library: a cycle test and a sort; `TopoSort.Lawful` says what they are
documented to do. `kahn` satisfies it: it repeatedly takes the first node that no remaining
node points to, and when there is none the remaining nodes carry a cycle.
-/

namespace Topo

/-- A directed graph on `0, …, size - 1`. -/
structure Digraph : Type where
  size : Nat
  edges : List (Nat × Nat)

namespace Digraph

variable (g : Digraph)

/-- Every edge joins nodes of the graph. -/
def WellFormed : Prop := ∀ e ∈ g.edges, e.1 < g.size ∧ e.2 < g.size

def Edge (a b : Nat) : Prop := (a, b) ∈ g.edges

/-- Some node reaches itself along one or more edges. -/
def Cyclic : Prop := ∃ a, Relation.TransGen g.Edge a a

/-- All nodes, every edge going forward. -/
def IsTopoOrder (l : List Nat) : Prop :=
  l.Perm (List.range g.size) ∧ ∀ a b, g.Edge a b → l.idxOf a < l.idxOf b

end Digraph

/-- A cycle test and a topological sort. -/
structure TopoSort : Type where
  isCyclic : Digraph → Bool
  toposort : Digraph → Option (List Nat)

/-- The test decides cyclicity, and the sort orders every acyclic graph. -/
structure TopoSort.Lawful (ts : TopoSort) : Prop where
  isCyclic_iff : ∀ g : Digraph, g.WellFormed → (ts.isCyclic g = true ↔ g.Cyclic)
  toposort_spec : ∀ g : Digraph, g.WellFormed → ¬ g.Cyclic →
    ∃ l, ts.toposort g = some l ∧ g.IsTopoOrder l

section

variable {α : Type} {g : Digraph} {r : α → α → Prop} {label : α → Option Nat}

/-- The nodes carry labels, at most one each, and the edges are those of a relation on labels. -/
structure Digraph.Labels (g : Digraph) (r : α → α → Prop) (label : α → Option Nat) : Prop where
  inj : ∀ {a b i}, label a = some i → label b = some i → a = b
  edge_iff : ∀ {i j}, g.Edge i j ↔ ∃ a b, r a b ∧ label a = some i ∧ label b = some j
  total : ∀ {a b}, r a b → ∃ i j, label a = some i ∧ label b = some j

theorem Digraph.Labels.transGen_of_edges (h : g.Labels r label) {i j : Nat}
    (hpath : Relation.TransGen g.Edge i j) :
    ∃ a b, Relation.TransGen r a b ∧ label a = some i ∧ label b = some j := by
  induction hpath with
  | single hedge =>
    obtain ⟨a, b, hr, ha, hb⟩ := h.edge_iff.mp hedge
    exact ⟨a, b, .single hr, ha, hb⟩
  | tail _ hedge ih =>
    obtain ⟨a, b, hab, ha, hb⟩ := ih
    obtain ⟨b', c, hr, hb', hc⟩ := h.edge_iff.mp hedge
    obtain rfl := h.inj hb hb'
    exact ⟨a, c, hab.tail hr, ha, hc⟩

theorem Digraph.Labels.edges_of_transGen (h : g.Labels r label) {a b : α}
    (hpath : Relation.TransGen r a b) :
    ∃ i j, Relation.TransGen g.Edge i j ∧ label a = some i ∧ label b = some j := by
  induction hpath with
  | single hr =>
    obtain ⟨i, j, ha, hb⟩ := h.total hr
    exact ⟨i, j, .single (h.edge_iff.mpr ⟨_, _, hr, ha, hb⟩), ha, hb⟩
  | tail _ hr ih =>
    obtain ⟨i, j, hij, ha, hb⟩ := ih
    obtain ⟨j', k, hb', hc⟩ := h.total hr
    obtain rfl := Option.some.inj (hb.symm.trans hb')
    exact ⟨i, k, hij.tail (h.edge_iff.mpr ⟨_, _, hr, hb, hc⟩), ha, hc⟩

/-- The graph has a cycle exactly when the relation on labels has one. -/
theorem Digraph.Labels.cyclic_iff (h : g.Labels r label) :
    g.Cyclic ↔ ∃ a, Relation.TransGen r a a := by
  constructor
  · rintro ⟨i, hi⟩
    obtain ⟨a, b, hab, ha, hb⟩ := h.transGen_of_edges hi
    obtain rfl := h.inj ha hb
    exact ⟨a, hab⟩
  · rintro ⟨a, ha⟩
    obtain ⟨i, j, hij, hi, hj⟩ := h.edges_of_transGen ha
    obtain rfl := Option.some.inj (hi.symm.trans hj)
    exact ⟨i, hij⟩

end

/-- Mapping a list to other values, no two of its elements to the same, keeps the positions. -/
theorem idxOf_filterMap {α β : Type} [DecidableEq α] [DecidableEq β] {f : α → Option β}
    {xs : List α} (hsome : ∀ x ∈ xs, (f x).isSome = true)
    (hinj : ∀ x ∈ xs, ∀ y ∈ xs, f x = f y → x = y) {x : α} (hx : x ∈ xs) {y : β}
    (hy : f x = some y) : (xs.filterMap f).idxOf y = xs.idxOf x := by
  induction xs with
  | nil => cases hx
  | cons z zs ih =>
    obtain ⟨b, hb⟩ := Option.isSome_iff_exists.mp (hsome z (List.mem_cons_self ..))
    rw [List.filterMap_cons, hb]
    by_cases hz : z = x
    · subst hz
      obtain rfl := Option.some.inj (hb.symm.trans hy)
      rw [List.idxOf_cons_self, List.idxOf_cons_self]
    · have hne : b ≠ y := by
        rintro rfl
        exact hz (hinj z (List.mem_cons_self ..) x hx (hb.trans hy.symm))
      have hzs : x ∈ zs := (List.mem_cons.mp hx).resolve_left (Ne.symm hz)
      rw [List.idxOf_cons_ne _ hne, List.idxOf_cons_ne _ hz]
      exact congrArg Nat.succ (ih (fun w hw => hsome w (List.mem_cons_of_mem _ hw))
        (fun v hv w hw => hinj v (List.mem_cons_of_mem _ hv) w (List.mem_cons_of_mem _ hw)) hzs)

/-! ## Kahn's algorithm -/

/-- Take nodes out of `remaining` while one of them has no predecessor left. -/
def kahnFrom (edges : List (Nat × Nat)) : Nat → List Nat → Option (List Nat)
  | _, [] => some []
  | 0, _ :: _ => none
  | n + 1, r :: rs =>
    match (r :: rs).find? (fun v => (r :: rs).all fun u => !edges.contains (u, v)) with
    | none => none
    | some v => (kahnFrom edges n ((r :: rs).erase v)).map (v :: ·)

/-- The sort by Kahn's algorithm, and the cycle test that it fails. -/
def kahn : TopoSort where
  isCyclic g := (kahnFrom g.edges g.size (List.range g.size)).isNone
  toposort g := kahnFrom g.edges g.size (List.range g.size)

variable {g : Digraph}

theorem kahnFrom_sound (n : Nat) (rem l : List Nat) (h : kahnFrom g.edges n rem = some l) :
    l.Perm rem ∧ ∀ a ∈ rem, ∀ b ∈ rem, g.Edge a b → l.idxOf a < l.idxOf b := by
  induction n generalizing rem l with
  | zero =>
    cases rem with
    | nil =>
      obtain rfl := Option.some.inj h
      exact ⟨List.Perm.refl _, fun a ha => absurd ha List.not_mem_nil⟩
    | cons r rs => cases h
  | succ n ih =>
    cases rem with
    | nil =>
      obtain rfl := Option.some.inj h
      exact ⟨List.Perm.refl _, fun a ha => absurd ha List.not_mem_nil⟩
    | cons r rs =>
      rw [kahnFrom] at h
      rcases hfind : (r :: rs).find?
          (fun v => (r :: rs).all fun u => !g.edges.contains (u, v)) with _ | v
      · rw [hfind] at h
        cases h
      · rw [hfind] at h
        obtain ⟨l', hl', rfl⟩ := Option.map_eq_some_iff.mp h
        obtain ⟨hperm, hforward⟩ := ih _ _ hl'
        have hv : v ∈ r :: rs := List.mem_of_find?_eq_some hfind
        have hsource : ∀ u ∈ r :: rs, ¬ g.Edge u v := by
          have hall := List.find?_some hfind
          rw [List.all_eq_true] at hall
          intro u hu huv
          have hnot := hall u hu
          rw [Bool.not_eq_true', ← Bool.not_eq_true, List.contains_iff_mem] at hnot
          exact hnot huv
        refine ⟨(hperm.cons v).trans (List.perm_cons_erase hv).symm, ?_⟩
        intro a ha b hb hab
        have hbv : b ≠ v := fun hb' => hsource a ha (hb' ▸ hab)
        rw [List.idxOf_cons_ne _ (Ne.symm hbv)]
        by_cases hav : a = v
        · rw [hav, List.idxOf_cons_self]
          exact Nat.succ_pos _
        · rw [List.idxOf_cons_ne _ (Ne.symm hav)]
          exact Nat.succ_lt_succ (hforward a ((List.mem_erase_of_ne hav).mpr ha) b
            ((List.mem_erase_of_ne hbv).mpr hb) hab)

/-- Where every remaining node has a remaining predecessor, there is a cycle. -/
theorem cyclic_of_predecessors {rem : List Nat} {r : Nat} (hr : r ∈ rem)
    (hpred : ∀ v ∈ rem, ∃ u ∈ rem, g.Edge u v) : g.Cyclic := by
  by_contra hacyclic
  let R : {v // v ∈ rem} → {v // v ∈ rem} → Prop := fun a b => Relation.TransGen g.Edge a b
  have htrans : IsTrans _ R := ⟨fun _ _ _ hab hbc => Relation.TransGen.trans hab hbc⟩
  have hirrefl : Std.Irrefl R := ⟨fun a ha => hacyclic ⟨a, ha⟩⟩
  have hwf : WellFounded R := Finite.wellFounded_of_trans_of_irrefl R
  obtain ⟨m, -, hmin⟩ := hwf.has_min Set.univ ⟨⟨r, hr⟩, trivial⟩
  obtain ⟨u, hu, hum⟩ := hpred m.1 m.2
  exact hmin ⟨u, hu⟩ trivial (Relation.TransGen.single hum)

theorem kahnFrom_none (n : Nat) (rem : List Nat) (hn : rem.length ≤ n)
    (h : kahnFrom g.edges n rem = none) : g.Cyclic := by
  induction n generalizing rem with
  | zero =>
    obtain rfl := List.eq_nil_of_length_eq_zero (Nat.le_zero.mp hn)
    cases h
  | succ n ih =>
    cases rem with
    | nil => cases h
    | cons r rs =>
      rw [kahnFrom] at h
      rcases hfind : (r :: rs).find?
          (fun v => (r :: rs).all fun u => !g.edges.contains (u, v)) with _ | v
      · refine @cyclic_of_predecessors g (r :: rs) r (List.mem_cons_self ..) fun v hv => ?_
        have hnot := List.find?_eq_none.mp hfind v hv
        rw [List.all_eq_true] at hnot
        push Not at hnot
        obtain ⟨u, hu, huv⟩ := hnot
        rw [ne_eq, Bool.not_eq_true', Bool.not_eq_false, List.contains_iff_mem] at huv
        exact ⟨u, hu, huv⟩
      · rw [hfind] at h
        refine ih _ ?_ (Option.map_eq_none_iff.mp h)
        rw [List.length_erase_of_mem (List.mem_of_find?_eq_some hfind)]
        exact Nat.pred_le_pred hn

/-- A topological order leaves no cycle. -/
theorem Digraph.IsTopoOrder.not_cyclic {l : List Nat} (h : g.IsTopoOrder l) : ¬ g.Cyclic := by
  rintro ⟨a, ha⟩
  have hlt : ∀ b, Relation.TransGen g.Edge a b → l.idxOf a < l.idxOf b := by
    intro b hb
    induction hb with
    | single hab => exact h.2 _ _ hab
    | tail _ hbc ih => exact ih.trans (h.2 _ _ hbc)
  exact Nat.lt_irrefl _ (hlt a ha)

theorem kahn_isTopoOrder (hwf : g.WellFormed) {l : List Nat}
    (h : kahn.toposort g = some l) : g.IsTopoOrder l := by
  obtain ⟨hperm, hforward⟩ := kahnFrom_sound _ _ _ h
  refine ⟨hperm, fun a b hab => hforward a ?_ b ?_ hab⟩
  · exact List.mem_range.mpr (hwf _ hab).1
  · exact List.mem_range.mpr (hwf _ hab).2

/-- **Kahn's algorithm is lawful.** -/
theorem kahn_lawful : kahn.Lawful where
  isCyclic_iff g hwf := by
    constructor
    · intro h
      refine kahnFrom_none g.size (List.range g.size) ?_ (Option.isNone_iff_eq_none.mp h)
      rw [List.length_range]
    · intro hcyclic
      rcases hsort : kahn.toposort g with _ | l
      · exact Option.isNone_iff_eq_none.mpr hsort
      · exact absurd hcyclic (kahn_isTopoOrder hwf hsort).not_cyclic
  toposort_spec g hwf hacyclic := by
    rcases hsort : kahn.toposort g with _ | l
    · refine absurd (kahnFrom_none g.size (List.range g.size) ?_ hsort) hacyclic
      rw [List.length_range]
    · exact ⟨l, rfl, kahn_isTopoOrder hwf hsort⟩

end Topo
