import Nclav.Serde.Value

/-!
# Documents up to the order of their fields

Two documents are reorderings of each other when one becomes the other by swapping fields with
different keys, at any depth. Sorting the keys gives the same document for all of those, and is
itself such a reordering (`reorders_sortKeys`).
-/

namespace Serde.Value

/-! ## Sorted fields -/

/-- Fields in the order of their keys, with one field per key. -/
def SortedFields (fields : List (String × Value)) : Prop := fields.Pairwise (·.1 < ·.1)

theorem mem_insertField {k : String} {v : Value} {fields : List (String × Value)}
    {f : String × Value} (h : f ∈ insertField k v fields) : f = (k, v) ∨ f ∈ fields := by
  induction fields with
  | nil => exact .inl (List.mem_singleton.mp h)
  | cons g rest ih =>
    rw [insertField] at h
    split at h
    · exact (List.mem_cons.mp h).imp_right (List.mem_cons_of_mem _)
    · split at h
      · exact List.mem_cons.mp h
      · obtain rfl | hrest := List.mem_cons.mp h
        · exact .inr List.mem_cons_self
        · exact (ih hrest).imp_right (List.mem_cons_of_mem _)

theorem SortedFields.insertField {fields : List (String × Value)} (h : SortedFields fields)
    (k : String) (v : Value) : SortedFields (insertField k v fields) := by
  induction fields with
  | nil => exact List.pairwise_singleton ..
  | cons g rest ih =>
    obtain ⟨hhead, hrest⟩ := List.pairwise_cons.mp h
    rw [Value.insertField]
    split
    · rename_i heq
      exact List.pairwise_cons.mpr ⟨fun f hf => heq ▸ hhead f hf, hrest⟩
    · rename_i hne
      split
      · rename_i hlt
        refine List.pairwise_cons.mpr ⟨fun f hf => ?_, h⟩
        obtain rfl | hf := List.mem_cons.mp hf
        · exact hlt
        · exact hlt.trans (hhead f hf)
      · rename_i hnlt
        refine List.pairwise_cons.mpr ⟨fun f hf => ?_, ih hrest⟩
        obtain rfl | hf := mem_insertField hf
        · exact lt_of_le_of_ne (not_lt.mp hnlt) (Ne.symm hne)
        · exact hhead f hf

theorem sortedFields_foldr (fields : List (String × Value)) :
    SortedFields (fields.foldr (fun f acc => insertField f.1 f.2 acc) []) := by
  induction fields with
  | nil => exact .nil
  | cons f rest ih => exact ih.insertField f.1 f.2

/-- A key before all the others is not among them. -/
theorem SortedFields.lookup_eq_none {fields : List (String × Value)} {k : String}
    (h : ∀ f ∈ fields, k < f.1) : fields.lookup k = none := by
  rw [List.lookup_eq_none_iff]
  intro f hf
  simpa using (h f hf).ne

/-- Sorted fields are told apart by their lookups. -/
theorem SortedFields.ext : {fields fields' : List (String × Value)} → SortedFields fields →
    SortedFields fields' → (∀ k, fields.lookup k = fields'.lookup k) → fields = fields'
  | [], [], _, _, _ => rfl
  | [], (k, v) :: rest, _, _, h => by
    have hk := h k
    rw [lookup_cons_eq_ite, if_pos rfl] at hk
    cases hk
  | (k, v) :: rest, [], _, _, h => by
    have hk := h k
    rw [lookup_cons_eq_ite, if_pos rfl] at hk
    cases hk
  | (k, v) :: rest, (k', v') :: rest', hs, hs', h => by
    obtain ⟨hhead, hrest⟩ := List.pairwise_cons.mp hs
    obtain ⟨hhead', hrest'⟩ := List.pairwise_cons.mp hs'
    have hk := h k
    have hk' := h k'
    rw [lookup_cons_eq_ite, lookup_cons_eq_ite, if_pos rfl] at hk
    rw [lookup_cons_eq_ite, lookup_cons_eq_ite, if_pos rfl] at hk'
    -- a smaller first key is no key of the other list
    have heq : k = k' := by
      rcases lt_trichotomy k k' with hlt | heq | hgt
      · rw [if_neg hlt.ne, lookup_eq_none fun f hf => hlt.trans (hhead' f hf)] at hk
        cases hk
      · exact heq
      · rw [if_neg hgt.ne, lookup_eq_none fun f hf => hgt.trans (hhead f hf)] at hk'
        cases hk'
    subst heq
    rw [if_pos rfl, Option.some.injEq] at hk
    rw [hk, SortedFields.ext hrest hrest' fun j => ?_]
    have hj := h j
    rw [lookup_cons_eq_ite, lookup_cons_eq_ite] at hj
    by_cases hjk : j = k
    · rw [hjk, lookup_eq_none hhead, lookup_eq_none hhead']
    · rwa [if_neg hjk, if_neg hjk] at hj

/-- An object is determined by its lookups. -/
theorem object_eq_iff {fields fields' : List (String × Value)} :
    object fields = object fields' ↔ ∀ k, fields.lookup k = fields'.lookup k := by
  refine ⟨fun h k => ?_, fun h => congrArg obj ?_⟩
  · rw [← get?_object fields, h, get?_object]
  · refine SortedFields.ext (sortedFields_foldr _) (sortedFields_foldr _) fun k => ?_
    exact (get?_object fields k).trans ((h k).trans (get?_object fields' k).symm)

/-- Fields with the same keys in the same order are told apart by the objects they make. -/
theorem object_inj {ks : List String} (hnodup : ks.Nodup) {fields fields' : List (String × Value)}
    (h : fields.map (·.1) = ks) (h' : fields'.map (·.1) = ks) :
    object fields = object fields' ↔ fields = fields' := by
  refine ⟨fun heq => ?_, fun heq => by rw [heq]⟩
  replace heq := object_eq_iff.mp heq
  induction ks generalizing fields fields' with
  | nil => rw [List.map_eq_nil_iff.mp h, List.map_eq_nil_iff.mp h']
  | cons k ks ih =>
    obtain ⟨⟨_, v⟩, rest, rfl, rfl, hrest⟩ := List.map_eq_cons_iff.mp h
    obtain ⟨⟨k, w⟩, rest', rfl, rfl, hrest'⟩ := List.map_eq_cons_iff.mp h'
    obtain ⟨hk, hks⟩ := List.nodup_cons.mp hnodup
    have hnone {fields : List (String × Value)} (h : fields.map (·.1) = ks) :
        fields.lookup k = none := by
      rw [List.lookup_eq_none_iff]
      intro f hf
      have hmem : f.1 ∈ ks := h ▸ List.mem_map_of_mem hf
      have hne : k ≠ f.1 := ne_of_mem_of_not_mem hmem hk |>.symm
      simpa using hne
    have hhead := heq k
    rw [lookup_cons_eq_ite, lookup_cons_eq_ite, if_pos rfl, if_pos rfl, Option.some.injEq] at hhead
    rw [hhead, ih hks hrest hrest' fun j => ?_]
    have hj := heq j
    rw [lookup_cons_eq_ite, lookup_cons_eq_ite] at hj
    by_cases hjk : j = k
    · rw [hjk, hnone hrest, hnone hrest']
    · rwa [if_neg hjk, if_neg hjk] at hj

/-! ## Reorderings -/

/-- The documents differ in the order of fields alone. -/
inductive Reorders : Value → Value → Prop
  | refl (v : Value) : Reorders v v
  | trans {u v w : Value} (h : Reorders u v) (h' : Reorders v w) : Reorders u w
  | swap {f g : String × Value} (h : f.1 ≠ g.1) (before after : List (String × Value)) :
      Reorders (obj (before ++ f :: g :: after)) (obj (before ++ g :: f :: after))
  | field {v w : Value} (k : String) (h : Reorders v w) (before after : List (String × Value)) :
      Reorders (obj (before ++ (k, v) :: after)) (obj (before ++ (k, w) :: after))
  | elem {v w : Value} (h : Reorders v w) (before after : List Value) :
      Reorders (arr (before ++ v :: after)) (arr (before ++ w :: after))

theorem Reorders.symm {v w : Value} (h : Reorders v w) : Reorders w v := by
  induction h with
  | refl v => exact .refl v
  | trans _ _ ih ih' => exact ih'.trans ih
  | swap h before after => exact .swap h.symm before after
  | field k _ before after ih => exact .field k ih before after
  | elem _ before after ih => exact .elem ih before after

/-- The keys of every object in the document are different. -/
inductive Distinct : Value → Prop
  | null : Distinct null
  | bool (b : Bool) : Distinct (bool b)
  | num (n : Int) : Distinct (num n)
  | str (s : String) : Distinct (str s)
  | arr {vs : List Value} (h : ∀ v ∈ vs, Distinct v) : Distinct (arr vs)
  | obj {fields : List (String × Value)} (hkeys : (fields.map (·.1)).Nodup)
      (h : ∀ f ∈ fields, Distinct f.2) : Distinct (obj fields)

theorem sortKeysFields_eq_map (fields : List (String × Value)) :
    sortKeysFields fields = fields.map fun f => (f.1, sortKeys f.2) := by
  induction fields with
  | nil => rfl
  | cons f rest ih => rw [sortKeysFields, ih, List.map_cons]

/-- Fields in another order, behind the same ones. -/
theorem Reorders.of_perm {fields fields' : List (String × Value)} (h : fields.Perm fields')
    (hkeys : (fields.map (·.1)).Nodup) (before : List (String × Value)) :
    Reorders (obj (before ++ fields)) (obj (before ++ fields')) := by
  induction h generalizing before with
  | nil => exact .refl _
  | cons f _ ih =>
    have hrest := ih (List.nodup_cons.mp hkeys).2 (before ++ [f])
    rwa [List.append_assoc, List.append_assoc] at hrest
  | swap f g rest =>
    exact .swap (fun heq => (List.nodup_cons.mp hkeys).1 (List.mem_cons.mpr (.inl heq))) before rest
  | trans hperm _ ih ih' =>
    exact (ih hkeys before).trans (ih' ((hperm.map _).nodup_iff.mp hkeys) before)

/-- Sorted, fields with different keys are the same fields. -/
theorem foldr_insertField_perm {fields : List (String × Value)}
    (hkeys : (fields.map (·.1)).Nodup) :
    (fields.foldr (fun f acc => insertField f.1 f.2 acc) []).Perm fields := by
  have hinsert : ∀ (f : String × Value) (rest : List (String × Value)),
      f.1 ∉ rest.map (·.1) → (insertField f.1 f.2 rest).Perm (f :: rest) := by
    intro f rest hnot
    induction rest with
    | nil => exact .refl _
    | cons g rest ih =>
      rw [List.map_cons, List.mem_cons, not_or] at hnot
      rw [insertField, if_neg hnot.1]
      split
      · exact .refl _
      · exact ((ih hnot.2).cons g).trans (.swap ..)
  induction fields with
  | nil => exact .refl _
  | cons f rest ih =>
    obtain ⟨hnot, hrest⟩ := List.nodup_cons.mp hkeys
    have hperm := ih hrest
    rw [List.foldr_cons]
    exact (hinsert f _ fun hmem => hnot ((hperm.map _).mem_iff.mp hmem)).trans (hperm.cons f)

theorem Reorders.fields {fields : List (String × Value)}
    (h : ∀ f ∈ fields, Reorders f.2 (sortKeys f.2)) (before : List (String × Value)) :
    Reorders (.obj (before ++ fields)) (.obj (before ++ sortKeysFields fields)) := by
  induction fields generalizing before with
  | nil => exact .refl _
  | cons f rest ih =>
    refine (Reorders.field f.1 (h f List.mem_cons_self) before rest).trans ?_
    have hrest := ih (fun g hg => h g (List.mem_cons_of_mem _ hg)) (before ++ [(f.1, sortKeys f.2)])
    rwa [List.append_assoc, List.append_assoc] at hrest

theorem Reorders.elems {vs : List Value} (h : ∀ v ∈ vs, Reorders v (sortKeys v))
    (before : List Value) : Reorders (.arr (before ++ vs)) (.arr (before ++ sortKeysList vs)) := by
  induction vs generalizing before with
  | nil => exact .refl _
  | cons v rest ih =>
    refine (Reorders.elem (h v List.mem_cons_self) before rest).trans ?_
    have hrest := ih (fun w hw => h w (List.mem_cons_of_mem _ hw)) (before ++ [sortKeys v])
    rwa [List.append_assoc, List.append_assoc] at hrest

/-- Sorting the keys changes nothing but the order of fields. -/
theorem reorders_sortKeys {v : Value} (h : Distinct v) : Reorders v (sortKeys v) := by
  induction h with
  | null | bool | num | str => rw [sortKeys]; exact .refl _
  | arr _ ih =>
    rw [sortKeys]
    exact Reorders.elems ih []
  | obj hkeys _ ih =>
    rename_i fields _
    have hsame : (sortKeysFields fields).map (·.1) = fields.map (·.1) := by
      rw [sortKeysFields_eq_map, List.map_map]
      rfl
    rw [sortKeys]
    exact (Reorders.fields ih []).trans
      (Reorders.of_perm (foldr_insertField_perm (hsame ▸ hkeys)).symm (hsame ▸ hkeys) [])

/-- Reorderings of one document are sorted to one document. -/
theorem Reorders.sortKeys_eq {v w : Value} (h : Reorders v w) : sortKeys v = sortKeys w := by
  induction h with
  | refl v => rfl
  | trans _ _ ih ih' => exact ih.trans ih'
  | swap h before after =>
    rename_i f g
    rw [sortKeys, sortKeys]
    refine object_eq_iff.mpr fun k => ?_
    rw [lookup_sortKeysFields, lookup_sortKeysFields, List.lookup_append, List.lookup_append]
    refine congrArg (fun r => ((before.lookup k).or r).map sortKeys) ?_
    rw [lookup_cons_eq_ite, lookup_cons_eq_ite, lookup_cons_eq_ite, lookup_cons_eq_ite]
    by_cases hf : k = f.1
    · rw [if_pos hf, if_neg fun hg => h (hf.symm.trans hg), if_pos hf]
    · rw [if_neg hf, if_neg hf]
  | field k _ before after ih =>
    rw [sortKeys, sortKeys, sortKeysFields_eq_map, sortKeysFields_eq_map, List.map_append,
      List.map_append, List.map_cons, List.map_cons, ih]
  | elem _ before after ih =>
    rw [sortKeys, sortKeys, sortKeysList_eq_map, sortKeysList_eq_map, List.map_append,
      List.map_append, List.map_cons, List.map_cons, ih]

/-- Sorting the keys twice sorts them once. -/
theorem sortKeys_sortKeys {v : Value} (h : Distinct v) : sortKeys (sortKeys v) = sortKeys v :=
  (reorders_sortKeys h).symm.sortKeys_eq

end Serde.Value
