import Nclav.Config.Loader

/-!
# Listings in another order

`read_dir` lists a directory in whatever order the file system has. `Relisted` relates two
listings of one tree. Where one of them loads so does the other (`loaded_relisted`), and then
they load the same enclaves up to order, each with the same partitions up to order.
-/

namespace Nclav

/-! ## Two listings of one tree -/

mutual

/-- The same tree, each directory of which may be listed in another order. -/
inductive Relisted : Dir → Dir → Prop
  | readable {entries relisted entries' : List DirEntry} (h : RelistedEntries entries relisted)
    (hperm : relisted.Perm entries') : Relisted (.readable entries) (.readable entries')
  | denied (err : String) : Relisted (.denied err) (.denied err)

/-- The same entries in the same order, the subdirectories relisted. -/
inductive RelistedEntries : List DirEntry → List DirEntry → Prop
  | nil : RelistedEntries [] []
  | dir (name : String) {d d' : Dir} {entries entries' : List DirEntry} (h : Relisted d d')
    (hs : RelistedEntries entries entries') :
    RelistedEntries (.dir name d :: entries) (.dir name d' :: entries')
  | other (name : String) {entries entries' : List DirEntry} (hs : RelistedEntries entries entries') :
    RelistedEntries (.other name :: entries) (.other name :: entries')
  | failed (err : String) {entries entries' : List DirEntry} (hs : RelistedEntries entries entries') :
    RelistedEntries (.failed err :: entries) (.failed err :: entries')

end

/-- An enclave up to the order of its partitions. -/
def Enclave.unordered (enc : Enclave) : Enclave × Multiset Partition :=
  ({ enc with partitions := [] }, enc.partitions)

/-! ## Loops that stop at an error -/

section

variable {ε α β : Type} {f : α → Except ε β}

/-- Such a loop succeeds where every step does, and collects the results. -/
theorem mapM_eq_ok_iff {l : List α} {bs : List β} :
    l.mapM f = .ok bs ↔
      (∀ a ∈ l, (f a).toOption.isSome = true) ∧ bs = l.filterMap fun a => (f a).toOption := by
  induction l generalizing bs with
  | nil => exact ⟨fun h => ⟨nofun, (Except.ok.inj h).symm⟩, fun h => by rw [h.2]; rfl⟩
  | cons a l ih =>
    rw [List.mapM_cons, List.forall_mem_cons, List.filterMap_cons]
    rcases hfa : f a with e | b
    · exact ⟨nofun, fun h => nomatch h.1.1⟩
    · simp only [Except.toOption, Option.isSome_some, true_and]
      constructor
      · intro h
        rcases hl : l.mapM f with e | bs'
        · rw [hl] at h
          cases h
        · rw [hl] at h
          obtain ⟨hall, rfl⟩ := ih.mp hl
          exact ⟨hall, (Except.ok.inj h).symm⟩
      · rintro ⟨hall, rfl⟩
        rw [ih.mpr ⟨hall, rfl⟩]
        rfl

/-- The order of the steps decides the order of the results only. -/
theorem mapM_perm {l l' : List α}
    (h : (l.map fun a => (f a).toOption).Perm (l'.map fun a => (f a).toOption)) {bs : List β}
    (hl : l.mapM f = .ok bs) : ∃ bs', l'.mapM f = .ok bs' ∧ bs.Perm bs' := by
  obtain ⟨hall, rfl⟩ := mapM_eq_ok_iff.mp hl
  refine ⟨_, mapM_eq_ok_iff.mpr ⟨fun a ha => ?_, rfl⟩, ?_⟩
  · obtain ⟨a', ha', heq⟩ := List.mem_map.mp (h.mem_iff.mpr (List.mem_map_of_mem ha))
    rw [← heq]
    exact hall a' ha'
  · have hperm := h.filterMap id
    rw [List.filterMap_map, List.filterMap_map] at hperm
    exact hperm

end

/-- What one of two results says up to `g` the other says, when each says what the other does. -/
theorem toOption_map_eq {ε α γ : Type} {g : α → γ} {x x' : Except ε α}
    (h : ∀ a, x = .ok a → ∃ a', x' = .ok a' ∧ g a = g a')
    (h' : ∀ a, x' = .ok a → ∃ a', x = .ok a' ∧ g a = g a') :
    x.toOption.map g = x'.toOption.map g := by
  cases x with
  | ok a =>
    obtain ⟨a', rfl, heq⟩ := h a rfl
    exact congrArg some heq
  | error e =>
    cases x' with
    | ok a =>
      obtain ⟨a', ha', -⟩ := h' a rfl
      cases ha'
    | error e' => rfl

/-! ## The scan of an enclave directory -/

section

variable {fs : FileSystem} {dir : String}

/-- The scan looks at the names of a listing. -/
theorem map_scanPartition {entries entries' : List DirEntry} (h : RelistedEntries entries entries') :
    entries.map (scanPartition fs dir) = entries'.map (scanPartition fs dir) := by
  match h with
  | .nil => rfl
  | .dir name _ hs =>
    rw [List.map_cons, List.map_cons, map_scanPartition hs]
    rfl
  | .other name hs => rw [List.map_cons, List.map_cons, map_scanPartition hs]
  | .failed err hs => rw [List.map_cons, List.map_cons, map_scanPartition hs]

theorem scanPartitions_readable {entries entries' : List DirEntry}
    (h : (entries.map (scanPartition fs dir)).Perm (entries'.map (scanPartition fs dir)))
    {parts : List Partition} (hscan : scanPartitions fs dir (.readable entries) = .ok parts) :
    ∃ parts', scanPartitions fs dir (.readable entries') = .ok parts' ∧ parts.Perm parts' := by
  rw [scanPartitions] at hscan
  rcases hos : entries.mapM (scanPartition fs dir) with e | os
  · rw [hos] at hscan
    cases hscan
  · rw [hos] at hscan
    have hperm := h.map Except.toOption
    rw [List.map_map, List.map_map] at hperm
    obtain ⟨os', hos', hperm'⟩ := mapM_perm hperm hos
    obtain rfl := Except.ok.inj hscan
    exact ⟨_, by rw [scanPartitions, hos']; rfl, hperm'.filterMap id⟩

/-- Two listings give the same partitions, up to order. -/
theorem scanPartitions_relisted {d d' : Dir} (h : Relisted d d') :
    (scanPartitions fs dir d).toOption.map Multiset.ofList =
      (scanPartitions fs dir d').toOption.map Multiset.ofList := by
  cases h with
  | denied err => rfl
  | readable h hperm =>
    have hscan := @map_scanPartition fs dir _ _ h ▸ hperm.map (scanPartition fs dir)
    refine toOption_map_eq (fun parts hparts => ?_) fun parts hparts => ?_
    · obtain ⟨parts', hparts', heq⟩ := scanPartitions_readable hscan hparts
      exact ⟨parts', hparts', Multiset.coe_eq_coe.mpr heq⟩
    · obtain ⟨parts', hparts', heq⟩ := scanPartitions_readable hscan.symm hparts
      exact ⟨parts', hparts', Multiset.coe_eq_coe.mpr heq⟩

/-- Two listings of an enclave directory make the same enclave, up to the order of its
partitions. -/
theorem convertEnclave_relisted {d d' : Dir} (h : Relisted d d') (raw : RawEnclave)
    (configPath : String) :
    (convertEnclave fs raw dir d configPath).toOption.map Enclave.unordered =
      (convertEnclave fs raw dir d' configPath).toOption.map Enclave.unordered := by
  rw [convertEnclave, convertEnclave]
  rcases transpose (parseCloud · configPath) raw.cloud with e | cloud
  · rfl
  rcases raw.exports.mapM (convertExport · configPath) with e | exports
  · rfl
  rcases raw.partitions.mapM (loadNamedPartition fs dir) with e | named
  · rfl
  by_cases hempty : raw.partitions.isEmpty = true
  · have hscan := @scanPartitions_relisted fs dir _ _ h
    simp only [if_pos hempty]
    rcases hd : scanPartitions fs dir d with e | parts
    · rcases hd' : scanPartitions fs dir d' with e' | parts'
      · rfl
      · rw [hd, hd'] at hscan
        cases hscan
    · rcases hd' : scanPartitions fs dir d' with e' | parts'
      · rw [hd, hd'] at hscan
        cases hscan
      · rw [hd, hd'] at hscan
        have hperm := Multiset.coe_eq_coe.mp (Option.some.inj hscan)
        exact congrArg some (Prod.ext rfl (Multiset.coe_eq_coe.mpr (hperm.append_left named)))
  · simp only [if_neg hempty]

theorem loadConfig_relisted {d d' : Dir} (h : Relisted d d') (path : String) :
    (loadConfig fs path d).toOption.map (Option.map Enclave.unordered) =
      (loadConfig fs path d').toOption.map (Option.map Enclave.unordered) := by
  rw [loadConfig, loadConfig]
  rcases fs.readConfig (configYml path) with _ | e | content
  · rfl
  · rfl
  · simp only
    rcases fs.rawEnclave content with _ | raw
    · rfl
    · have hconv := @convertEnclave_relisted fs path _ _ h raw (configYml path)
      simp only
      rcases hd : convertEnclave fs raw path d (configYml path) with e | enc
      · rcases hd' : convertEnclave fs raw path d' (configYml path) with e' | enc'
        · rfl
        · rw [hd, hd'] at hconv
          cases hconv
      · rcases hd' : convertEnclave fs raw path d' (configYml path) with e' | enc'
        · rw [hd, hd'] at hconv
          cases hconv
        · rw [hd, hd'] at hconv
          exact congrArg some hconv

end

/-! ## The walk -/

section

variable (fs : FileSystem)

/-- What a directory of the walk loads, up to order: an error, no enclave, or an enclave. -/
def loadUnordered (v : String × Dir) : Option (Option (Enclave × Multiset Partition)) :=
  (loadConfig fs v.1 v.2).toOption.map (Option.map Enclave.unordered)

variable {fs}

theorem walkEntries_append (path : String) (entries entries' : List DirEntry) :
    walkEntries fs path (entries ++ entries') =
      walkEntries fs path entries ++ walkEntries fs path entries' := by
  induction entries with
  | nil => rw [walkEntries, List.nil_append, List.nil_append]
  | cons e entries ih =>
    cases e with
    | dir name d => rw [List.cons_append, walkEntries, walkEntries, ih, List.append_assoc]
    | other name => rw [List.cons_append, walkEntries, walkEntries, ih]
    | failed err => rw [List.cons_append, walkEntries, walkEntries, ih]

/-- The walk meets the same directories in another order. -/
theorem walkEntries_perm (path : String) {entries entries' : List DirEntry}
    (h : entries.Perm entries') :
    (walkEntries fs path entries).Perm (walkEntries fs path entries') := by
  have hcons : ∀ e entries, walkEntries fs path (e :: entries) =
      walkEntries fs path [e] ++ walkEntries fs path entries := fun e entries =>
    walkEntries_append path [e] entries
  induction h with
  | nil => exact .refl _
  | @cons e l l' _ ih =>
    rw [hcons e l, hcons e l']
    exact ih.append_left _
  | swap e e' l =>
    rw [hcons e' (e :: l), hcons e l, hcons e (e' :: l), hcons e' l, ← List.append_assoc,
      ← List.append_assoc]
    exact List.perm_append_comm.append_right _
  | trans _ _ ih ih' => exact ih.trans ih'

mutual

/-- Two listings of one tree load the same, directory by directory. -/
theorem walk_relisted {d d' : Dir} (h : Relisted d d') (path : String) :
    ((walk fs path d).map (loadUnordered fs)).Perm ((walk fs path d').map (loadUnordered fs)) := by
  have hhead : loadUnordered fs (path, d) = loadUnordered fs (path, d') := loadConfig_relisted h path
  match h with
  | .denied err => exact .refl _
  | .readable hs hperm =>
    rw [walk.eq_def, walk.eq_def, List.map_cons, List.map_cons, hhead]
    refine .cons _ ?_
    simp only
    split
    · exact .refl _
    · exact (walkEntries_relisted hs path).trans ((walkEntries_perm path hperm).map _)

theorem walkEntries_relisted {entries entries' : List DirEntry} (h : RelistedEntries entries entries')
    (path : String) :
    ((walkEntries fs path entries).map (loadUnordered fs)).Perm
      ((walkEntries fs path entries').map (loadUnordered fs)) := by
  match h with
  | .nil => exact .refl _
  | .dir name h hs =>
    rw [walkEntries, walkEntries, List.map_append, List.map_append]
    exact (walk_relisted h _).append (walkEntries_relisted hs path)
  | .other name hs =>
    rw [walkEntries, walkEntries]
    exact walkEntries_relisted hs path
  | .failed err hs =>
    rw [walkEntries, walkEntries]
    exact walkEntries_relisted hs path

end

theorem map_isFailed {entries entries' : List DirEntry} (h : RelistedEntries entries entries') :
    entries.map DirEntry.isFailed = entries'.map DirEntry.isFailed := by
  match h with
  | .nil => rfl
  | .dir name _ hs => exact congrArg (false :: ·) (map_isFailed hs)
  | .other name hs => exact congrArg (false :: ·) (map_isFailed hs)
  | .failed err hs => exact congrArg (true :: ·) (map_isFailed hs)

/-- What is loaded, read off the walk. -/
theorem map_unordered {met : List (String × Dir)} :
    ((met.filterMap fun v => (loadConfig fs v.1 v.2).toOption).filterMap id).map Enclave.unordered =
      (met.map (loadUnordered fs)).filterMap Option.join := by
  rw [List.filterMap_filterMap, List.map_filterMap, List.filterMap_map]
  refine List.filterMap_congr fun v _ => ?_
  rw [Function.comp_apply, loadUnordered]
  rcases loadConfig fs v.1 v.2 with e | o
  · rfl
  · rfl

theorem loadEnclaves_readable {path : String} {entries entries' : List DirEntry}
    (hfailed : (entries.map DirEntry.isFailed).Perm (entries'.map DirEntry.isFailed))
    (hwalk : ((walkEntries fs path entries).map (loadUnordered fs)).Perm
      ((walkEntries fs path entries').map (loadUnordered fs)))
    {l : List Enclave} (hload : loadEnclaves fs path (.readable entries) = .ok l) :
    ∃ l', loadEnclaves fs path (.readable entries') = .ok l' ∧
      (l.map Enclave.unordered).Perm (l'.map Enclave.unordered) := by
  obtain ⟨hread, os, hos, rfl⟩ := loadEnclaves_eq_ok.mp hload
  obtain ⟨hall, rfl⟩ := mapM_eq_ok_iff.mp hos
  refine ⟨_, loadEnclaves_eq_ok.mpr ⟨fun e he => ?_, _, mapM_eq_ok_iff.mpr ⟨fun v hv => ?_, rfl⟩,
    rfl⟩, ?_⟩
  · obtain ⟨e', he', heq⟩ := List.mem_map.mp (hfailed.mem_iff.mpr (List.mem_map_of_mem he))
    rw [← heq]
    exact hread e' he'
  · obtain ⟨v', hv', heq⟩ := List.mem_map.mp (hwalk.mem_iff.mpr (List.mem_map_of_mem hv))
    have hsome := congrArg Option.isSome heq
    rw [loadUnordered, loadUnordered, Option.isSome_map, Option.isSome_map] at hsome
    rw [← hsome]
    exact hall v' hv'
  · rw [map_unordered, map_unordered]
    exact hwalk.filterMap _

/-- **The order of the listings** decides the order of what is loaded only: the load succeeds for
both orders or fails for both, and gives the same enclaves, each with the same partitions. -/
theorem loaded_relisted {root root' : Dir} (h : Relisted root root') (path : String) :
    (loadEnclaves fs path root).toOption.map (fun l => Multiset.ofList (l.map Enclave.unordered)) =
      (loadEnclaves fs path root').toOption.map fun l =>
        Multiset.ofList (l.map Enclave.unordered) := by
  cases h with
  | denied err => rfl
  | readable hs hperm =>
    have hfailed := map_isFailed hs ▸ hperm.map DirEntry.isFailed
    have hwalk := (@walkEntries_relisted fs _ _ hs path).trans ((walkEntries_perm path hperm).map _)
    refine toOption_map_eq (fun l hl => ?_) fun l hl => ?_
    · obtain ⟨l', hl', heq⟩ := loadEnclaves_readable hfailed hwalk hl
      exact ⟨l', hl', Multiset.coe_eq_coe.mpr heq⟩
    · obtain ⟨l', hl', heq⟩ := loadEnclaves_readable hfailed.symm hwalk.symm hl
      exact ⟨l', hl', Multiset.coe_eq_coe.mpr heq⟩

end

end Nclav
