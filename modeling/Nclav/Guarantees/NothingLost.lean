import Nclav.Guarantees.ErrorFree

/-!
# Declarations and records

Between a config file and its record stand the loader, which scans the subdirectories of an
enclave that names no partitions, and the reconciler, which keeps records by id. A file that
the scan passes over, and a declaration whose id another one has, is lost on the way. Where
neither is the case the records after a run without errors are the declarations.
-/

namespace Nclav

open Effect

/-! ## Partition files -/

/-- The names of the subdirectories that a listing shows. -/
def Dir.subdirs : Dir → List String
  | .denied _ => []
  | .readable entries => entries.filterMap fun
    | .dir name _ => some name
    | .other _ => none
    | .failed _ => none

/-- The partition config of a directory, deserialized. -/
def partitionAt (fs : FileSystem) (path : String) : Option RawPartition :=
  match fs.readConfig (configYml path) with
  | some (.ok content) => fs.rawPartition content
  | _ => none

/-- The scan takes a config for a partition's if it has an end of a wire or an output. -/
def RawPartition.announces (raw : RawPartition) : Bool :=
  raw.produces.isSome || !raw.imports.isEmpty || !raw.exports.isEmpty ||
    !raw.declaredOutputs.isEmpty

/-- The scanned config of a subdirectory. -/
def scannedAt (fs : FileSystem) (dir name : String) : Option RawPartition :=
  (partitionAt fs (joinPath dir name)).filter (·.announces)

/-- The partition files of an enclave, each with the directory it is in: those that its config
names, or those that the scan finds. -/
def partitionFiles (fs : FileSystem) (dir : String) (d : Dir) (raw : RawEnclave) :
    List (String × RawPartition) :=
  (raw.partitions.filterMap fun name => (partitionAt fs (joinPath dir name)).map (name, ·)) ++
    if raw.partitions.isEmpty then
      d.subdirs.filterMap fun name => (scannedAt fs dir name).map (name, ·)
    else []

/-- The partition is what the file converts to. -/
def Converts (dir : String) (file : String × RawPartition) (part : Partition) : Prop :=
  convertPartition file.2 (configYml (joinPath dir file.1)) = .ok part

section

variable {fs : FileSystem} {dir : String}

theorem mapM_cons_eq_ok {α β : Type} {f : α → Except ConfigError β} {x : α} {xs : List α}
    {ys : List β} (h : (x :: xs).mapM f = .ok ys) :
    ∃ y ys', f x = .ok y ∧ xs.mapM f = .ok ys' ∧ ys = y :: ys' := by
  rw [List.mapM_cons] at h
  obtain ⟨y, hy, h⟩ := bind_eq_ok h
  obtain ⟨ys', hys, h⟩ := bind_eq_ok h
  exact ⟨y, ys', hy, hys, (Except.ok.inj h).symm⟩

theorem loadNamedPartition_eq_ok {name : String} {part : Partition}
    (h : loadNamedPartition fs dir name = .ok part) :
    ∃ raw, partitionAt fs (joinPath dir name) = some raw ∧ Converts dir (name, raw) part := by
  simp only [loadNamedPartition] at h
  rw [partitionAt]
  split at h
  · cases h
  · cases h
  · rename_i content hread
    rw [hread]
    split at h
    · cases h
    · rename_i raw hraw
      exact ⟨raw, hraw, h⟩

theorem forall₂_named {names : List String} {parts : List Partition}
    (h : names.mapM (loadNamedPartition fs dir) = .ok parts) :
    List.Forall₂ (Converts dir)
      (names.filterMap fun name => (partitionAt fs (joinPath dir name)).map (name, ·)) parts := by
  induction names generalizing parts with
  | nil =>
    obtain rfl := Except.ok.inj h
    exact .nil
  | cons name names ih =>
    obtain ⟨part, parts', hpart, hparts, rfl⟩ := mapM_cons_eq_ok h
    obtain ⟨raw, hraw, hconv⟩ := loadNamedPartition_eq_ok hpart
    rw [List.filterMap_cons, hraw]
    exact .cons hconv (ih hparts)

/-- What the scan makes of one subdirectory. -/
theorem scanPartition_dir_eq_ok {name : String} {d : Dir} {o : Option Partition}
    (h : scanPartition fs dir (.dir name d) = .ok o) :
    (scannedAt fs dir name = none ∧ o = none) ∨
      ∃ raw part, scannedAt fs dir name = some raw ∧ o = some part ∧
        Converts dir (name, raw) part := by
  simp only [scanPartition] at h
  rw [scannedAt, partitionAt]
  split at h
  · rename_i hread
    rw [hread]
    exact .inl ⟨rfl, (Except.ok.inj h).symm⟩
  · cases h
  · rename_i content hread
    rw [hread]
    simp only
    split at h
    · rename_i hraw
      rw [hraw]
      exact .inl ⟨rfl, (Except.ok.inj h).symm⟩
    · rename_i raw hraw
      rw [hraw]
      split at h
      · rename_i hann
        rcases hconv : convertPartition raw (configYml (joinPath dir name)) with e | part
        · rw [hconv] at h
          cases h
        · rw [hconv] at h
          refine .inr ⟨raw, part, ?_, (Except.ok.inj h).symm, hconv⟩
          exact Option.filter_eq_some_iff.mpr ⟨rfl, hann⟩
      · rename_i hann
        refine .inl ⟨?_, (Except.ok.inj h).symm⟩
        rw [Option.filter_some]
        exact if_neg hann

theorem forall₂_scanned {d : Dir} {parts : List Partition} (h : scanPartitions fs dir d = .ok parts) :
    List.Forall₂ (Converts dir)
      (d.subdirs.filterMap fun name => (scannedAt fs dir name).map (name, ·)) parts := by
  cases d with
  | denied err =>
    obtain rfl := Except.ok.inj h
    exact .nil
  | readable entries =>
    rw [scanPartitions] at h
    rcases hos : entries.mapM (scanPartition fs dir) with e | os
    · rw [hos] at h
      cases h
    rw [hos] at h
    obtain rfl := Except.ok.inj h
    clear h
    rw [Dir.subdirs]
    induction entries generalizing os with
    | nil =>
      obtain rfl := Except.ok.inj hos
      exact .nil
    | cons entry entries ih =>
      obtain ⟨o, os', ho, hos', rfl⟩ := mapM_cons_eq_ok hos
      have hrest := ih os' hos'
      cases entry with
      | dir name d =>
        rcases scanPartition_dir_eq_ok ho with ⟨hnone, rfl⟩ | ⟨raw, part, hsome, rfl, hconv⟩
        · simpa [hnone] using hrest
        · simp only [List.filterMap_cons, hsome, Option.map_some, id]
          exact .cons hconv hrest
      | other name =>
        obtain rfl := Except.ok.inj ho
        exact hrest
      | failed err =>
        obtain rfl := Except.ok.inj ho
        exact hrest

/-- The partitions of a loaded enclave are its partition files, in order. -/
theorem forall₂_partitionFiles {raw : RawEnclave} {d : Dir} {configPath : String} {enc : Enclave}
    (h : convertEnclave fs raw dir d configPath = .ok enc) :
    List.Forall₂ (Converts dir) (partitionFiles fs dir d raw) enc.partitions := by
  rw [convertEnclave] at h
  obtain ⟨_, -, h⟩ := bind_eq_ok h
  obtain ⟨_, -, h⟩ := bind_eq_ok h
  obtain ⟨named, hnamed, h⟩ := bind_eq_ok h
  obtain ⟨scanned, hscanned, h⟩ := bind_eq_ok h
  rw [← Except.ok.inj h]
  refine List.rel_append (forall₂_named hnamed) ?_
  split at hscanned
  · rename_i hempty
    rw [if_pos hempty]
    exact forall₂_scanned hscanned
  · rename_i hempty
    rw [if_neg hempty]
    obtain rfl := Except.ok.inj hscanned
    exact .nil

theorem map_eq_of_forall₂ {α β γ : Type} {R : α → β → Prop} {f : α → γ} {g : β → γ} {xs : List α}
    {ys : List β} (h : List.Forall₂ R xs ys) (hR : ∀ x y, R x y → f x = g y) :
    xs.map f = ys.map g := by
  rw [← List.forall₂_eq_eq_eq, List.forall₂_map_left_iff, List.forall₂_map_right_iff]
  exact h.imp hR

end

/-! ## Scans that pass nothing over -/

section

variable {fs : FileSystem} {dir name : String}

end

/-! ## The tree and what is loaded from it -/

section

variable (fs : FileSystem) (path : String) (root : Dir)

end

section

variable {fs : FileSystem} {path : String} {root : Dir} {desired : List Enclave}

theorem loadConfig_of_enclaveAt {dir : String} {d : Dir} {raw : RawEnclave}
    (h : enclaveAt fs dir = some raw) :
    loadConfig fs dir d = (convertEnclave fs raw dir d (configYml dir)).map some := by
  rw [enclaveAt] at h
  rw [loadConfig]
  split at h
  · rename_i content hread
    rw [hread]
    simp only [h]
  · cases h

/-- What is loaded comes from a directory that was met. -/
theorem exists_met_of_loadMet {met : List (String × Dir)} {os : List (Option Enclave)}
    (h : loadMet fs met = .ok os) {enc : Enclave} (henc : some enc ∈ os) :
    ∃ v ∈ met, loadConfig fs v.1 v.2 = .ok (some enc) := by
  induction met generalizing os with
  | nil =>
    obtain rfl := Except.ok.inj h
    cases henc
  | cons v met ih =>
    rw [loadMet_cons] at h
    rcases hv : loadConfig fs v.1 v.2 with e | o
    · rw [hv] at h
      cases h
    rcases hmet : loadMet fs met with e | os'
    · rw [hv, hmet] at h
      cases h
    rw [hv, hmet] at h
    obtain rfl := Except.ok.inj h
    rcases List.mem_cons.mp henc with rfl | henc
    · exact ⟨v, List.mem_cons_self .., hv⟩
    · obtain ⟨u, hu, hload⟩ := ih hmet henc
      exact ⟨u, List.mem_cons_of_mem _ hu, hload⟩

/-- The directories of the walk, with what was loaded from them. -/
theorem loadMet_of_loaded (h : loadEnclaves fs path root = .ok desired) :
    ∃ os, loadMet fs (rootWalk fs path root) = .ok os ∧ desired = os.filterMap id := by
  cases root with
  | denied err => cases h
  | readable entries => exact (loadEnclaves_eq_ok.mp h).2

/-- What the conversion carries over from a config to its enclave holds of all enclaves loaded as it
does of all configs met. -/
theorem forall_loaded_iff (h : loadEnclaves fs path root = .ok desired) {P : Enclave → Prop}
    {Q : String → Dir → RawEnclave → Prop}
    (hPQ : ∀ raw dir d enc, convertEnclave fs raw dir d (configYml dir) = .ok enc →
      (P enc ↔ Q dir d raw)) :
    (∀ enc ∈ desired, P enc) ↔
      ∀ met ∈ rootWalk fs path root, ∀ raw, enclaveAt fs met.1 = some raw → Q met.1 met.2 raw := by
  obtain ⟨os, hos, rfl⟩ := loadMet_of_loaded h
  constructor
  · intro hall met hmet raw hraw
    obtain ⟨o, ho, hload⟩ := loadConfig_of_loadMet hos hmet
    rw [loadConfig_of_enclaveAt hraw] at hload
    rcases hconv : convertEnclave fs raw met.1 met.2 (configYml met.1) with e | enc
    · rw [hconv] at hload
      cases hload
    rw [hconv] at hload
    obtain rfl := Except.ok.inj hload
    exact (hPQ raw met.1 met.2 enc hconv).mp (hall enc (List.mem_filterMap.mpr ⟨some enc, ho, rfl⟩))
  · intro hall enc henc
    obtain ⟨_, ho, rfl⟩ := List.mem_filterMap.mp henc
    obtain ⟨met, hmet, hload⟩ := exists_met_of_loadMet hos ho
    obtain ⟨raw, hraw, hconv⟩ := loadConfig_eq_some hload
    exact (hPQ raw met.1 met.2 enc hconv).mpr (hall met hmet raw hraw)

end

/-! ## Records by id -/

/-- Each partition is recorded under its own id. -/
def EnclaveState.Keyed (s : EnclaveState) : Prop :=
  ∀ (pid : PartitionId) ps, s.partitions[pid]? = some ps → ps.desired.id = pid

theorem EnclaveState.Keyed.insert {s : EnclaveState} (h : s.Keyed) {pid : PartitionId}
    {ps : PartitionState} (hps : ps.desired.id = pid) :
    EnclaveState.Keyed { s with partitions := s.partitions.insert pid ps } := by
  intro pid' ps' hget
  rw [HashMap.get?_insert] at hget
  split at hget
  · rename_i heq
    rw [heq, ← Option.some.inj hget, hps]
  · exact h pid' ps' hget

theorem EnclaveState.Keyed.update {s : EnclaveState} (h : s.Keyed) (part : Partition)
    {f : PartitionState → PartitionState} (hf : ∀ ps, (f ps).desired = ps.desired) :
    (s.updatePartition part f).Keyed := by
  refine h.insert ?_
  rw [hf]
  rcases hget : s.partitions[part.id]? with _ | ps
  · rfl
  · exact h part.id ps hget

theorem partitionSteps_keyed {run : Run} {part : Partition} :
    PartitionSteps run part EnclaveState.Keyed EnclaveState.Keyed where
  inFlight _ hs := hs.insert rfl
  handle _ _ hs := hs.update part fun _ => rfl
  applied _ _ _ hs := hs.update part fun _ => rfl
  failed _ _ _ hs := hs.update part fun _ => rfl

theorem enclaveSteps_keyed {run : Run} {enc : Enclave}
    (hexisting : ∀ s, run.existing enc.id = some s → s.Keyed) :
    EnclaveSteps run enc EnclaveState.Keyed EnclaveState.Keyed := by
  have hstart : (EnclaveState.inFlight run enc).Keyed := by
    intro pid ps hget
    rw [EnclaveState.inFlight] at hget
    rcases hex : run.existing enc.id with _ | s
    · rw [hex] at hget
      simp [EnclaveState.new] at hget
    · rw [hex] at hget
      exact hexisting s hex pid ps hget
  refine ⟨hstart, fun _ _ => hstart, fun _ _ => hstart,
    fun part _ => ⟨EnclaveState.Keyed, partitionSteps_keyed, fun _ h => h⟩, ?_, fun _ h => h⟩
  exact fun s hs _ _ _ => hs

section

variable {A : (c : Call) → Resp c → Prop} {host : Host} {req : ReconcileRequest}
  {registry : DriverRegistry} {desired : List Enclave}

end

/-! ## One record for each declaration -/

theorem HashMap.nodup_fst_toList {K V : Type} [Ord K] [Std.TransOrd K] (m : HashMap K V) :
    (m.toList.map (·.1)).Nodup := by
  rw [Std.ExtTreeMap.map_fst_toList_eq_keys]
  exact Std.ExtTreeMap.nodup_keys

section

variable {K V α : Type} [Ord K] [Std.TransOrd K] [Std.LawfulEqOrd K]

/-- Entries that are looked up under the keys of a list, and no others, are that list. -/
theorem HashMap.perm_of_lookups {m : HashMap K V} {xs : List α} {key : α → K} {f : V → α}
    (hkeyed : ∀ k v, m[k]? = some v → key (f v) = k) (hnodup : (xs.map key).Nodup)
    (hlookup : ∀ x ∈ xs, ∃ v, m[key x]? = some v ∧ f v = x)
    (honly : ∀ k v, m[k]? = some v → k ∈ xs.map key) :
    (m.toList.map fun e => f e.2).Perm xs := by
  have hentry : ∀ e ∈ m.toList, m[e.1]? = some e.2 := fun e he =>
    Std.ExtTreeMap.mem_toList_iff_getElem?_eq_some.mp he
  have hkeys : (m.toList.map fun e => f e.2).map key = m.toList.map (·.1) := by
    rw [List.map_map]
    exact List.map_congr_left fun e he => hkeyed e.1 e.2 (hentry e he)
  refine (List.perm_ext_iff_of_nodup (List.Nodup.of_map key ?_) (List.Nodup.of_map key hnodup)).mpr
    fun x => ?_
  · rw [hkeys]
    exact HashMap.nodup_fst_toList m
  rw [List.mem_map]
  constructor
  · rintro ⟨e, he, rfl⟩
    have hget := hentry e he
    obtain ⟨x, hx, hkey⟩ := List.mem_map.mp (honly e.1 e.2 hget)
    obtain ⟨v, hv, hfv⟩ := hlookup x hx
    rw [hkey, hget] at hv
    rw [Option.some.inj hv, hfv]
    exact hx
  · intro hx
    obtain ⟨v, hv, hfv⟩ := hlookup x hx
    exact ⟨(key x, v), Std.ExtTreeMap.mem_toList_iff_getElem?_eq_some.mpr hv, hfv⟩

end

section

variable {A : (c : Call) → Resp c → Prop} {host : Host} {req : ReconcileRequest}
  {registry : DriverRegistry} {desired : List Enclave} {w w' : World} {report : ReconcileReport}

end

end Nclav
