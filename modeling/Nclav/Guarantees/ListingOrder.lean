import Nclav.Config.Listing
import Nclav.Guarantees.Accepted
import Nclav.Guarantees.PlanApply

/-!
# The order of directory listings

The order in which the file system lists directories reaches a run as the order of the loaded
enclaves and of the partitions that a scan finds. Validation does not see it, and of the changes
one kind does: that an enclave was updated, which is said of the hash of the whole declaration,
the list of partitions included (`listing_order_iff`).
-/

namespace Nclav

open Effect
open Serde (Value)

/-! ## The same enclaves -/

/-- The lists have the same enclaves up to order, each with the same partitions up to order. -/
def SameEnclaves (desired desired' : List Enclave) : Prop :=
  (desired.map Enclave.unordered).Perm (desired'.map Enclave.unordered)

/-- No two partitions of an enclave have one id. -/
def DistinctPartitions (desired : List Enclave) : Prop :=
  ∀ enc ∈ desired, (enc.partitions.map (·.id)).Nodup

theorem Enclave.eq_of_unordered {enc enc' : Enclave} (h : enc'.unordered = enc.unordered) :
    ∃ parts : List Partition, parts.Perm enc.partitions ∧ enc' = { enc with partitions := parts } := by
  refine ⟨enc'.partitions, Multiset.coe_eq_coe.mp (congrArg Prod.snd h), ?_⟩
  have hrest := congrArg Prod.fst h
  cases enc
  cases enc'
  simp only [Enclave.unordered, Enclave.mk.injEq, and_true] at hrest ⊢
  exact hrest

section

variable {desired desired' : List Enclave}

theorem SameEnclaves.symm (h : SameEnclaves desired desired') : SameEnclaves desired' desired :=
  List.Perm.symm h

theorem SameEnclaves.ids (h : SameEnclaves desired desired') :
    (desired.map (·.id)).Perm (desired'.map (·.id)) := by
  have hperm := List.Perm.map (fun e : Enclave × Multiset Partition => e.1.id) h
  rw [List.map_map, List.map_map] at hperm
  exact hperm

theorem SameEnclaves.exists_mem (h : SameEnclaves desired desired') {enc : Enclave}
    (henc : enc ∈ desired) :
    ∃ parts : List Partition, parts.Perm enc.partitions ∧
      { enc with partitions := parts } ∈ desired' := by
  obtain ⟨enc', henc', heq⟩ := List.mem_map.mp (h.mem_iff.mp (List.mem_map_of_mem henc))
  obtain ⟨parts, hperm, rfl⟩ := Enclave.eq_of_unordered heq
  exact ⟨parts, hperm, henc'⟩

theorem mem_allImports_perm {enc : Enclave} {parts : List Partition}
    (hperm : parts.Perm enc.partitions) {im : Import} :
    im ∈ ({ enc with partitions := parts } : Enclave).allImports ↔ im ∈ enc.allImports := by
  rw [Enclave.allImports, Enclave.allImports, List.mem_append, List.mem_append]
  exact or_congr_right (hperm.flatMap_right _).mem_iff

/-! ## Validation -/

theorem SameEnclaves.outputsDeclared (h : SameEnclaves desired desired')
    (hdesired : OutputsDeclared desired) : OutputsDeclared desired' := by
  intro enc' henc' part hpart
  obtain ⟨parts, hperm, hmem⟩ := h.symm.exists_mem henc'
  exact hdesired _ hmem part (hperm.mem_iff.mpr hpart)

theorem SameEnclaves.distinctPartitions (h : SameEnclaves desired desired')
    (hdesired : DistinctPartitions desired) : DistinctPartitions desired' := by
  intro enc' henc'
  obtain ⟨parts, hperm, hmem⟩ := h.symm.exists_mem henc'
  exact (hperm.map _).nodup_iff.mp (hdesired _ hmem)

/-- With distinct ids the first partition of an id is the one with it. -/
theorem SameEnclaves.exportTypesMatch (h : SameEnclaves desired desired')
    (hparts : DistinctPartitions desired) (hdesired : ExportTypesMatch desired) :
    ExportTypesMatch desired' := by
  intro enc' henc' ex hex part hpart
  obtain ⟨parts, hperm, hmem⟩ := h.symm.exists_mem henc'
  refine hdesired _ hmem ex hex part ?_
  have hid : part.id = ex.targetPartition := by simpa using List.find?_some hpart
  have hpart' : part ∈ parts := hperm.mem_iff.mpr (List.mem_of_find?_eq_some hpart)
  rcases hfind : parts.find? (·.id = ex.targetPartition) with _ | found
  · have hnone := List.find?_eq_none.mp hfind part hpart'
    exact absurd hid (by simpa using hnone)
  · have hfound : found.id = ex.targetPartition := by simpa using List.find?_some hfind
    have heq := List.inj_on_of_nodup_map (hparts _ hmem) (List.mem_of_find?_eq_some hfind) hpart'
      (hfound.trans hid.symm)
    exact hfind.trans (congrArg some heq)

theorem SameEnclaves.importsAdmitted (h : SameEnclaves desired desired')
    (hdesired : ImportsAdmitted desired) : ImportsAdmitted desired' := by
  intro enc' henc' im him
  obtain ⟨parts, hperm, hmem⟩ := h.symm.exists_mem henc'
  obtain ⟨source, hsource, hid, hex⟩ := hdesired _ hmem im ((mem_allImports_perm hperm).mpr him)
  obtain ⟨parts', -, hmem'⟩ := h.exists_mem hsource
  exact ⟨_, hmem', hid, hex⟩

theorem SameEnclaves.feeds (h : SameEnclaves desired desired') {a b : EnclaveId}
    (hfeeds : Feeds desired a b) : Feeds desired' a b := by
  obtain ⟨hne, enc, henc, hid, im, him, hfrom⟩ := hfeeds
  obtain ⟨parts, hperm, hmem⟩ := h.exists_mem henc
  exact ⟨hne, _, hmem, hid, im, (mem_allImports_perm hperm).mpr him, hfrom⟩

/-- Validation does not see the order. -/
theorem SameEnclaves.validate (h : SameEnclaves desired desired') {topo : Topo.TopoSort}
    (hlawful : topo.Lawful) (hnodup : (desired.map (·.id)).Nodup)
    (hparts : DistinctPartitions desired) (hvalid : ∃ resolved, validate topo desired = .ok resolved) :
    ∃ resolved, validate topo desired' = .ok resolved := by
  obtain ⟨houtputs, htypes, hadmitted, hacyclic⟩ :=
    (validate_accepts_iff hlawful desired hnodup).1.mp hvalid
  refine (validate_accepts_iff hlawful desired' (h.ids.nodup_iff.mp hnodup)).1.mpr
    ⟨h.outputsDeclared houtputs, h.exportTypesMatch hparts htypes, h.importsAdmitted hadmitted, ?_⟩
  rintro ⟨id, hcycle⟩
  exact hacyclic ⟨id, Relation.TransGen.mono (fun _ _ => h.symm.feeds) _ _ hcycle⟩

end

/-! ## Changes -/

/-- Each record carries the hash of the one list's enclave exactly if it carries that of the
other's. -/
def HashesAgree (host : Host) (st : Store) (desired desired' : List Enclave) : Prop :=
  ∀ enc ∈ desired, ∀ enc' ∈ desired', enc.id = enc'.id → ∀ s, st.get? enc.id = some s →
    (s.meta_.desiredHash = some (host.enclaveHash enc) ↔
      s.meta_.desiredHash = some (host.enclaveHash enc'))

theorem HashesAgree.symm {host : Host} {st : Store} {desired desired' : List Enclave}
    (h : HashesAgree host st desired desired') : HashesAgree host st desired' desired := by
  intro enc' henc' enc henc hid s hs
  rw [hid] at hs
  exact (h enc henc enc' henc' hid.symm s hs).symm

section

variable {host : Host} {actual : HashMap EnclaveId EnclaveState} {removed removed' : List EnclaveId}
  {ordered ordered' : List Enclave} {c : Change}

theorem mem_diff :
    c ∈ diff host actual removed ordered ↔
      (∃ id ∈ removed, c = .enclaveDeleted id) ∨ (∃ enc ∈ ordered, c ∈ enclaveChanges host actual enc) ∨
        ∃ enc ∈ ordered, c ∈ importChanges actual enc := by
  rw [diff, List.mem_append, List.mem_append, List.mem_map, List.mem_flatMap, List.mem_flatMap, or_assoc]
  exact or_congr_left (exists_congr fun id => and_congr_right fun _ => eq_comm)

theorem mem_importChanges {enc : Enclave} :
    c ∈ importChanges actual enc ↔ ∃ im ∈ enc.allImports,
      ((actual[enc.id]?).bind (·.importHandles[im.alias_]?)).isNone = true ∧
        c = .importWired enc.id im.alias_ := by
  rw [importChanges, List.mem_map]
  simp only [List.mem_filter, and_assoc]
  exact exists_congr fun im => and_congr_right fun _ => and_congr_right fun _ => eq_comm

/-- An enclave has the changes that it has with its partitions in another order, if the hash is
unchanged for both orders or for neither. -/
theorem enclaveChanges_perm {enc : Enclave} {parts : List Partition}
    (hperm : parts.Perm enc.partitions)
    (hhash : ∀ s, actual[enc.id]? = some s → (s.meta_.desiredHash = some (host.enclaveHash enc) ↔
      s.meta_.desiredHash = some (host.enclaveHash { enc with partitions := parts }))) :
    (enclaveChanges host actual { enc with partitions := parts }).Perm
      (enclaveChanges host actual enc) := by
  have hunchanged : hashUnchanged ((actual[enc.id]?).map (·.meta_))
      (host.enclaveHash { enc with partitions := parts }) =
        hashUnchanged ((actual[enc.id]?).map (·.meta_)) (host.enclaveHash enc) := by
    rcases hs : actual[enc.id]? with _ | s
    · simp [hashUnchanged]
    · rw [Bool.eq_iff_iff]
      simpa [hashUnchanged] using (hhash s hs).symm
  rw [enclaveChanges, enclaveChanges]
  refine List.Perm.append_right _ (List.Perm.append ?_ (hperm.flatMap_right _))
  simp only [hashChanges, hunchanged]
  exact .refl _

/-- The changes of the one list are among those of the other. -/
theorem mem_diff_of_sameEnclaves {st : Store} (h : SameEnclaves ordered ordered')
    (hactual : ∀ id : EnclaveId, actual[id]? = st.get? id) (hremoved : removed ⊆ removed')
    (hhash : HashesAgree host st ordered ordered') (hc : c ∈ diff host actual removed ordered) :
    c ∈ diff host actual removed' ordered' := by
  rw [mem_diff] at hc ⊢
  rcases hc with ⟨id, hid, rfl⟩ | ⟨enc, henc, hc⟩ | ⟨enc, henc, hc⟩
  · exact .inl ⟨id, hremoved hid, rfl⟩
  · obtain ⟨parts, hperm, hmem⟩ := h.exists_mem henc
    refine .inr (.inl ⟨_, hmem, (enclaveChanges_perm hperm fun s hs => ?_).mem_iff.mpr hc⟩)
    rw [hactual] at hs
    exact hhash enc henc _ hmem rfl s hs
  · obtain ⟨parts, hperm, hmem⟩ := h.exists_mem henc
    obtain ⟨im, him, hnone, rfl⟩ := mem_importChanges.mp hc
    exact .inr (.inr ⟨_, hmem, mem_importChanges.mpr
      ⟨im, (mem_allImports_perm hperm).mpr him, hnone, rfl⟩⟩)

/-- The one change that is said of the order. -/
theorem mem_diff_updated {id : EnclaveId} :
    Change.enclaveUpdated id ∈ diff host actual removed ordered ↔
      ∃ enc ∈ ordered, enc.id = id ∧
        ∃ s, actual[id]? = some s ∧ s.meta_.desiredHash ≠ some (host.enclaveHash enc) := by
  rw [mem_diff]
  constructor
  · rintro (⟨_, -, hc⟩ | ⟨enc, henc, hc⟩ | ⟨enc, -, hc⟩)
    · cases hc
    · rw [enclaveChanges, List.mem_append, List.mem_append, List.mem_flatMap] at hc
      rcases hc with (hc | ⟨part, -, hc⟩) | hc
      · obtain ⟨hhash, ⟨-, hc⟩ | ⟨hsome, hc⟩⟩ := mem_hashChanges.mp hc
        · cases hc
        · obtain rfl := Change.enclaveUpdated.inj hc
          obtain ⟨s, hs⟩ : ∃ s, actual[enc.id]? = some s := by
            rcases hs : actual[enc.id]? with _ | s
            · exact absurd (by rw [hs]; rfl) hsome
            · exact ⟨s, rfl⟩
          refine ⟨enc, henc, rfl, s, hs, fun heq => ?_⟩
          rw [hs] at hhash
          simp [hashUnchanged, heq] at hhash
      · obtain ⟨-, ⟨-, hc⟩ | ⟨-, hc⟩⟩ := mem_hashChanges.mp hc
        · cases hc
        · cases hc
      · obtain ⟨_, -, hc⟩ := List.mem_map.mp hc
        cases hc
    · obtain ⟨im, -, -, hc⟩ := mem_importChanges.mp hc
      cases hc
  · rintro ⟨enc, henc, rfl, s, hs, hne⟩
    refine .inr (.inl ⟨enc, henc, ?_⟩)
    rw [enclaveChanges, List.mem_append, List.mem_append]
    refine .inl (.inl (mem_hashChanges.mpr ⟨?_, .inr ⟨?_, rfl⟩⟩))
    · rw [hs]
      simpa [hashUnchanged] using hne
    · rw [hs]
      exact Option.some_ne_none _

end

/-! ## Runs -/

/-- Both runs fail, or they report the same set of changes. -/
def SamePlan : Except ReconcileError ReconcileReport → Except ReconcileError ReconcileReport → Prop
  | .ok report, .ok report' => ∀ c, c ∈ report.changes ↔ c ∈ report'.changes
  | .error _, .error _ => True
  | _, _ => False

/-- The run ended at a call of the store that failed. -/
def EndsAtStore (r : Except ReconcileError ReconcileReport) : Prop := ∃ e, r = .error (.store e)

section

variable (host : Host) (fs : FileSystem) (req : ReconcileRequest) (registry : DriverRegistry)

/-- A run of the tree that the listings show, dry or not. -/
def runOf (root : Dir) (dry : Bool) : Sys (Except ReconcileError ReconcileReport) :=
  (reconcile host fs root { req with dryRun := dry } registry).run

/-- From this store it makes no difference which of the two listings a run meets. -/
structure OrderBlind (root root' : Dir) (st : Store) : Prop where
  loads : (∃ desired, loadEnclaves fs req.enclavesDir root = .ok desired) ↔
    ∃ desired, loadEnclaves fs req.enclavesDir root' = .ok desired
  /-- dry runs plan the same, unless the store fails -/
  plans : ∀ w w' r r' w₁ w₁', w.store = st → w'.store = st →
    Prog.Exec (system anyAnswer) (runOf host fs req registry root true) w r w₁ →
    Prog.Exec (system anyAnswer) (runOf host fs req registry root' true) w' r' w₁' →
    ¬ EndsAtStore r → ¬ EndsAtStore r' → SamePlan r r'
  /-- what a run reports, dry or not, the other reports -/
  reports : ∀ dry dry' w w' report report' w₁ w₁', w.store = st → w'.store = st →
    Prog.Exec (system anyAnswer) (runOf host fs req registry root dry) w (.ok report) w₁ →
    Prog.Exec (system anyAnswer) (runOf host fs req registry root' dry') w' (.ok report') w₁' →
    ∀ c, c ∈ report.changes ↔ c ∈ report'.changes

/-- Where both listings load and are valid, each record has the hash of both its enclaves or of
neither. -/
def RecordsBlind (root root' : Dir) (st : Store) : Prop :=
  ∀ desired desired', loadEnclaves fs req.enclavesDir root = .ok desired →
    loadEnclaves fs req.enclavesDir root' = .ok desired' →
    (∃ resolved, validate host.topo desired = .ok resolved) → HashesAgree host st desired desired'

end

section

variable {host : Host} {fs : FileSystem} {req : ReconcileRequest} {registry : DriverRegistry}
  {root root' : Dir} {desired desired' : List Enclave} {st : Store}

theorem runOf_of_loaded (hload : loadEnclaves fs req.enclavesDir root = .ok desired) (dry : Bool) :
    runOf host fs req registry root dry =
      (reconcileLoaded host { req with dryRun := dry } registry desired).run :=
  congrArg ExceptT.run (reconcile_of_loaded hload)

/-- The two listings load the same enclaves. -/
theorem sameEnclaves_of_relisted (h : Relisted root root')
    (hload : loadEnclaves fs req.enclavesDir root = .ok desired)
    (hload' : loadEnclaves fs req.enclavesDir root' = .ok desired') :
    SameEnclaves desired desired' := by
  have heq := @loaded_relisted fs _ _ h req.enclavesDir
  rw [hload, hload'] at heq
  exact Multiset.coe_eq_coe.mp (Option.some.inj heq)

theorem loads_of_relisted (h : Relisted root root') :
    (∃ desired, loadEnclaves fs req.enclavesDir root = .ok desired) ↔
      ∃ desired, loadEnclaves fs req.enclavesDir root' = .ok desired := by
  have heq := @loaded_relisted fs _ _ h req.enclavesDir
  rcases hload : loadEnclaves fs req.enclavesDir root with e | desired
  · rcases hload' : loadEnclaves fs req.enclavesDir root' with e' | desired'
    · exact iff_of_false nofun nofun
    · rw [hload, hload'] at heq
      cases heq
  · rcases hload' : loadEnclaves fs req.enclavesDir root' with e' | desired'
    · rw [hload, hload'] at heq
      cases heq
    · exact iff_of_true ⟨_, rfl⟩ ⟨_, rfl⟩

theorem mem_changes_of_sameEnclaves (hlawful : host.topo.Lawful) (h : SameEnclaves desired desired')
    (hnodup : (desired.map (·.id)).Nodup)
    (hhash : (∃ resolved, validate host.topo desired = .ok resolved) →
      HashesAgree host st desired desired')
    {req req' : ReconcileRequest} {w w' w₁ w₁' : World} {report report' : ReconcileReport}
    (hstore : w.store = st) (hstore' : w'.store = st)
    (hrun : Prog.Exec (system anyAnswer) (reconcileLoaded host req registry desired).run w
      (.ok report) w₁)
    (hrun' : Prog.Exec (system anyAnswer) (reconcileLoaded host req' registry desired').run w'
      (.ok report') w₁') {c : Change} (hc : c ∈ report.changes) : c ∈ report'.changes := by
  obtain ⟨resolved, actual, removed, hvalid, hactual, hremoved, hchanges⟩ := planned_of_run hrun
  obtain ⟨resolved', actual', removed', hvalid', hactual', hremoved', hchanges'⟩ :=
    planned_of_run hrun'
  obtain rfl : actual = actual' := Std.ExtTreeMap.ext_getElem? fun id => by
    rw [hactual, hactual', hstore, hstore']
  have hnodup' := h.ids.nodup_iff.mp hnodup
  have hordered := orderedDesired_perm hlawful hvalid hnodup
  have hordered' := orderedDesired_perm hlawful hvalid' hnodup'
  rw [hchanges] at hc
  rw [hchanges']
  refine mem_diff_of_sameEnclaves
    (((hordered.map _).trans h).trans (hordered'.map _).symm) (fun id => by rw [hactual, hstore])
    (fun id hid => ?_) (fun enc henc enc' henc' => hhash ⟨_, hvalid⟩ enc (hordered.mem_iff.mp henc)
      enc' (hordered'.mem_iff.mp henc')) hc
  obtain ⟨hsome, hgone⟩ := mem_removedIds.mp (hremoved.mem_iff.mp hid)
  exact hremoved'.mem_iff.mpr (mem_removedIds.mpr ⟨hsome, fun hmem => hgone (h.ids.mem_iff.mpr hmem)⟩)

/-- Where the hashes agree the runs plan the same. -/
theorem orderBlind_of_agree (hlawful : host.topo.Lawful) (hrelisted : Relisted root root')
    (hdistinct : ∀ desired, loadEnclaves fs req.enclavesDir root = .ok desired →
      (desired.map (·.id)).Nodup ∧ DistinctPartitions desired)
    (hagree : RecordsBlind host fs req root root' st) :
    OrderBlind host fs req registry root root' st := by
  have hloads := @loads_of_relisted fs req _ _ hrelisted
  rcases hload : loadEnclaves fs req.enclavesDir root with e | desired
  · rcases hload' : loadEnclaves fs req.enclavesDir root' with e' | desired'
    · have hfails : ∀ dry, runOf host fs req registry root dry =
          (throw (.config e) : Rec ReconcileReport).run := fun dry =>
        congrArg ExceptT.run (reconcile_of_load_error hload)
      have hfails' : ∀ dry, runOf host fs req registry root' dry =
          (throw (.config e') : Rec ReconcileReport).run := fun dry =>
        congrArg ExceptT.run (reconcile_of_load_error hload')
      refine ⟨hloads, fun w w' r r' w₁ w₁' _ _ hrun hrun' _ _ => ?_, ?_⟩
      · rw [hfails] at hrun
        rw [hfails'] at hrun'
        cases hrun
        cases hrun'
        trivial
      · intro dry dry' w w' report report' w₁ w₁' _ _ hrun
        rw [hfails] at hrun
        cases hrun
    · obtain ⟨desired, hdesired⟩ := hloads.mpr ⟨_, hload'⟩
      rw [hload] at hdesired
      cases hdesired
  · obtain ⟨desired', hload'⟩ := hloads.mp ⟨_, hload⟩
    obtain ⟨hnodup, hparts⟩ := hdistinct desired hload
    have hsame := sameEnclaves_of_relisted hrelisted hload hload'
    have hnodup' := hsame.ids.nodup_iff.mp hnodup
    have hparts' := hsame.distinctPartitions hparts
    have hhash := hagree desired desired' hload hload'
    have hvalid := hsame.validate hlawful hnodup hparts
    have hvalid' := hsame.symm.validate hlawful hnodup' hparts'
    have hreports : ∀ dry dry' w w' report report' w₁ w₁', w.store = st → w'.store = st →
        Prog.Exec (system anyAnswer) (runOf host fs req registry root dry) w (.ok report) w₁ →
        Prog.Exec (system anyAnswer) (runOf host fs req registry root' dry') w' (.ok report') w₁' →
        ∀ c, c ∈ report.changes ↔ c ∈ report'.changes := by
      intro dry dry' w w' report report' w₁ w₁' hstore hstore' hrun hrun' c
      rw [runOf_of_loaded hload] at hrun
      rw [runOf_of_loaded hload'] at hrun'
      exact ⟨mem_changes_of_sameEnclaves hlawful hsame hnodup hhash hstore hstore' hrun hrun',
        mem_changes_of_sameEnclaves hlawful hsame.symm hnodup' (fun h => (hhash (hvalid' h)).symm)
          hstore' hstore hrun' hrun⟩
    refine ⟨hloads, fun w w' r r' w₁ w₁' hstore hstore' hrun hrun' hends hends' => ?_, hreports⟩
    rcases r with e | report
    · rcases r' with e' | report'
      · trivial
      · rw [runOf_of_loaded hload] at hrun
        rw [runOf_of_loaded hload'] at hrun'
        obtain ⟨resolved', _, _, hok', -⟩ := planned_of_run hrun'
        obtain ⟨resolved, hok⟩ := hvalid' ⟨_, hok'⟩
        obtain ⟨e', rfl⟩ := error_of_dry_run rfl hok hrun
        exact hends ⟨e', rfl⟩
    · rcases r' with e' | report'
      · rw [runOf_of_loaded hload] at hrun
        rw [runOf_of_loaded hload'] at hrun'
        obtain ⟨resolved, _, _, hok, -⟩ := planned_of_run hrun
        obtain ⟨resolved', hok'⟩ := hvalid ⟨_, hok⟩
        obtain ⟨e'', rfl⟩ := error_of_dry_run rfl hok' hrun'
        exact hends' ⟨e'', rfl⟩
      · exact hreports true true w w' report report' w₁ w₁' hstore hstore' hrun hrun'

/-- On a list that validates there is a dry run that reports. -/
theorem exists_dry_run {resolved : ResolvedGraph} (hvalid : validate host.topo desired = .ok resolved)
    (hdry : req.dryRun = true) (w : World) :
    ∃ report w', Prog.Exec (system anyAnswer) (reconcileLoaded host req registry desired).run w
      (.ok report) w' := by
  obtain ⟨report, hreport⟩ : ∃ report, (Prog.run World.next okAnswer
      (reconcileLoaded host req registry desired).run w).1 = .ok report := by
    rw [reconcileLoaded, hvalid]
    simp only [hdry, if_true]
    exact ⟨_, rfl⟩
  have hrun := exec_okAnswer (reconcileLoaded host req registry desired).run w
  rw [hreport] at hrun
  exact ⟨report, _, hrun⟩

/-- The updates of a report are the records that do not carry the hash of their enclave. -/
theorem updated_mem_changes (hlawful : host.topo.Lawful) (hnodup : (desired.map (·.id)).Nodup)
    {w w' : World} {report : ReconcileReport}
    (hrun : Prog.Exec (system anyAnswer) (reconcileLoaded host req registry desired).run w
      (.ok report) w') {enc : Enclave} (henc : enc ∈ desired) {s : EnclaveState}
    (hs : w.store.get? enc.id = some s) :
    Change.enclaveUpdated enc.id ∈ report.changes ↔
      s.meta_.desiredHash ≠ some (host.enclaveHash enc) := by
  obtain ⟨resolved, actual, removed, hvalid, hactual, -, hchanges⟩ := planned_of_run hrun
  have hperm := orderedDesired_perm hlawful hvalid hnodup
  rw [hchanges, mem_diff_updated]
  constructor
  · rintro ⟨enc', henc', hid, s', hs', hne⟩
    obtain rfl := List.inj_on_of_nodup_map hnodup (hperm.mem_iff.mp henc') henc hid
    rw [hactual, hs] at hs'
    obtain rfl := Option.some.inj hs'
    exact hne
  · exact fun hne => ⟨enc, hperm.mem_iff.mpr henc, rfl, s, by rw [hactual, hs], hne⟩

/-- Where the runs plan the same the hashes agree. -/
theorem agree_of_orderBlind (hlawful : host.topo.Lawful) (hrelisted : Relisted root root')
    (hdistinct : ∀ desired, loadEnclaves fs req.enclavesDir root = .ok desired →
      (desired.map (·.id)).Nodup ∧ DistinctPartitions desired)
    (hblind : OrderBlind host fs req registry root root' st) :
    RecordsBlind host fs req root root' st := by
  rintro desired desired' hload hload' ⟨resolved, hvalid⟩ enc henc enc' henc' hid s hs
  obtain ⟨hnodup, hparts⟩ := hdistinct desired hload
  have hsame := sameEnclaves_of_relisted hrelisted hload hload'
  have hnodup' := hsame.ids.nodup_iff.mp hnodup
  obtain ⟨resolved', hvalid'⟩ := hsame.validate hlawful hnodup hparts ⟨_, hvalid⟩
  obtain ⟨report, w₁, hrun⟩ := @exists_dry_run host { req with dryRun := true } registry
    _ _ hvalid rfl (.ofStore st)
  obtain ⟨report', w₁', hrun'⟩ := @exists_dry_run host { req with dryRun := true }
    registry _ _ hvalid' rfl (.ofStore st)
  have hchanges := hblind.reports true true (.ofStore st) (.ofStore st) report report' w₁ w₁' rfl rfl
    (by rw [runOf_of_loaded hload]; exact hrun) (by rw [runOf_of_loaded hload']; exact hrun')
    (.enclaveUpdated enc.id)
  rw [updated_mem_changes hlawful hnodup hrun henc hs, hid,
    updated_mem_changes hlawful hnodup' hrun' henc' (by rw [← hid]; exact hs)] at hchanges
  exact not_iff_not.mp hchanges

/-- After a run without errors each record carries the hash of its enclave. -/
theorem carries_hash_of_run (hlawful : host.topo.Lawful) (hdry : req.dryRun = false)
    (hnodup : (desired.map (·.id)).Nodup) {w w' : World} {report : ReconcileReport}
    (hrun : Prog.Exec (system anyAnswer) (reconcileLoaded host req registry desired).run w
      (.ok report) w') (herrors : report.errors = []) {enc : Enclave} (henc : enc ∈ desired) :
    ∃ s, w'.store.get? enc.id = some s ∧ s.meta_.desiredHash = some (host.enclaveHash enc) := by
  obtain ⟨run, resolved, removed, hstart, hsettled⟩ :=
    settled_of_run hlawful hdry hnodup hrun herrors
  obtain ⟨driver, s, s', -, hs', hrest, hvisited⟩ := hsettled.visited enc henc
  obtain ⟨now, hmeta⟩ := hvisited.meta_
  have hmeta' := congrArg (fun t : EnclaveState => t.meta_) hrest
  refine ⟨s', hs', ?_⟩
  rw [show s'.meta_ = s.meta_ from hmeta', hmeta, ← hstart.host_eq]
  rfl

/-- **The order of directory listings.** Two listings of one tree, with distinct ids, load both or
neither, and from a store plan the same exactly where each record has the hash of what both make of
its enclave, or of neither. After an apply without errors that is where both make the same hash of
every enclave. -/
theorem listing_order_iff (hlawful : host.topo.Lawful) (fs : FileSystem) (req : ReconcileRequest)
    (registry : DriverRegistry) (hrelisted : Relisted root root')
    (hdistinct : ∀ desired, loadEnclaves fs req.enclavesDir root = .ok desired →
      (desired.map (·.id)).Nodup ∧ DistinctPartitions desired) :
    (∀ st, OrderBlind host fs req registry root root' st ↔ RecordsBlind host fs req root root' st) ∧
    ∀ w report w', Prog.Exec (system anyAnswer) (runOf host fs req registry root false) w
        (.ok report) w' → report.errors = [] →
      (OrderBlind host fs req registry root root' w'.store ↔
        ∀ desired desired', loadEnclaves fs req.enclavesDir root = .ok desired →
          loadEnclaves fs req.enclavesDir root' = .ok desired' →
          ∀ enc ∈ desired, ∀ enc' ∈ desired', enc.id = enc'.id →
            host.enclaveHash enc = host.enclaveHash enc') := by
  have hiff : ∀ st, OrderBlind host fs req registry root root' st ↔
      RecordsBlind host fs req root root' st := fun st =>
    ⟨agree_of_orderBlind hlawful hrelisted hdistinct,
      orderBlind_of_agree hlawful hrelisted hdistinct⟩
  refine ⟨hiff, fun w report w' hrun herrors => (hiff w'.store).trans ?_⟩
  refine forall_congr' fun desired => forall_congr' fun desired' => forall_congr' fun hload =>
    forall_congr' fun hload' => ?_
  obtain ⟨hnodup, hparts⟩ := hdistinct desired hload
  rw [runOf_of_loaded hload] at hrun
  obtain ⟨resolved, _, _, hvalid, -⟩ := planned_of_run hrun
  constructor
  · intro hagree enc henc enc' henc' hid
    obtain ⟨s, hs, hhash⟩ := carries_hash_of_run hlawful rfl hnodup hrun herrors henc
    have hhash' := (hagree ⟨_, hvalid⟩ enc henc enc' henc' hid s hs).mp hhash
    exact Option.some.inj (hhash.symm.trans hhash')
  · intro hsame _ enc henc enc' henc' hid s _
    rw [hsame enc henc enc' henc' hid]

end

/-! ### Two partitions without a list -/

/-- An enclave that names no partitions, with the configs of two below it. -/
def scannedTwo : FileSystem where
  readConfig path :=
    if path = "enclaves/a/config.yml" then some (.ok "id: a")
    else if path = "enclaves/a/p/config.yml" then some (.ok "id: p")
    else if path = "enclaves/a/q/config.yml" then some (.ok "id: q")
    else none
  parseYaml text :=
    if text = "id: a" then
      some (.record [("id", .str "a"), ("name", .str "a"), ("region", .str "r")])
    else if text = "id: p" then
      some (.record [("id", .str "p"), ("name", .str "p"), ("declared_outputs", .seq [.str "x"])])
    else if text = "id: q" then
      some (.record [("id", .str "q"), ("name", .str "q"), ("declared_outputs", .seq [.str "x"])])
    else none
  yamlError _ := ""

/-- The tree as it lists the two in this order. -/
def listedAs (first second : String) : Dir :=
  .readable [.dir "a" (.readable [.dir first (.readable []), .dir second (.readable [])])]

theorem relisted_two : Relisted (listedAs "p" "q") (listedAs "q" "p") := by
  have hempty : Relisted (.readable []) (.readable []) := .readable .nil (.refl _)
  exact .readable (.dir "a" (.readable (.dir "p" hempty (.dir "q" hempty .nil)) (.swap ..)) .nil)
    (.refl _)

def scannedPartition (id : String) : Partition :=
  ⟨⟨id⟩, id, none, [], [], ∅, ["x"], .terraform ⟨none, none, "enclaves/a/" ++ id⟩⟩

/-- The enclave as it is loaded. -/
def scannedEnclave (first second : String) : Enclave :=
  plainEnclave "a" [] [scannedPartition first, scannedPartition second]

theorem load_listed : loadEnclaves scannedTwo enclavesRequest.enclavesDir (listedAs "p" "q") =
    .ok [scannedEnclave "p" "q"] := rfl

theorem load_relisted : loadEnclaves scannedTwo enclavesRequest.enclavesDir (listedAs "q" "p") =
    .ok [scannedEnclave "q" "p"] := rfl

/-- A host whose digest of an enclave is the id of its first partition. -/
def firstPartitionHost : Host where
  digest v :=
    match v.get? "partitions" with
    | some (.arr (first :: _)) => ((first.idx "id").asStr).getD ""
    | _ => ""
  topo := Topo.kahn
  home := "/root"

theorem distinct_scanned {desired : List Enclave} (hload : loadEnclaves scannedTwo
    enclavesRequest.enclavesDir (listedAs "p" "q") = .ok desired) :
    (desired.map (·.id)).Nodup ∧ DistinctPartitions desired := by
  rw [load_listed] at hload
  obtain rfl := Except.ok.inj hload
  refine ⟨by decide, fun enc henc => ?_⟩
  obtain rfl := List.mem_singleton.mp henc
  decide

/-- The store after an apply of the enclave without partitions. -/
def emptiedStore : Store :=
  (Prog.run World.next okAnswer (reconcileLoaded firstPartitionHost enclavesRequest gcpOnly
    [plainEnclave "a" [] []]).run .empty).2.store

/-- A record with the hash of another declaration differs from both listings. -/
theorem blind_after_change :
    OrderBlind firstPartitionHost scannedTwo enclavesRequest gcpOnly (listedAs "p" "q")
      (listedAs "q" "p") emptiedStore := by
  refine ((listing_order_iff Topo.kahn_lawful scannedTwo enclavesRequest gcpOnly relisted_two
    fun _ => distinct_scanned).1 emptiedStore).mpr ?_
  intro desired desired' hload hload' _ enc henc enc' henc' _ s hs
  rw [load_listed] at hload
  obtain rfl := Except.ok.inj hload
  rw [load_relisted] at hload'
  obtain rfl := Except.ok.inj hload'
  obtain rfl := List.mem_singleton.mp henc
  obtain rfl := List.mem_singleton.mp henc'
  have hstored : (emptiedStore.get? ⟨"a"⟩).map (·.meta_.desiredHash) = some (some "") := by
    decide +kernel
  have hhash : s.meta_.desiredHash = some "" := by
    rw [show emptiedStore.get? ⟨"a"⟩ = some s from hs] at hstored
    exact Option.some.inj hstored
  have hfirst : firstPartitionHost.enclaveHash (scannedEnclave "p" "q") = "p" := by decide +kernel
  have hsecond : firstPartitionHost.enclaveHash (scannedEnclave "q" "p") = "q" := by decide +kernel
  rw [hhash, hfirst, hsecond]
  decide

/-- **An update that is none.** After an apply without errors the same tree, listed the other way,
is reported as a change of the enclave. -/
theorem relisted_updated :
    Relisted (listedAs "p" "q") (listedAs "q" "p") ∧
      ∃ report w, Prog.Exec (system anyAnswer)
          (runOf firstPartitionHost scannedTwo enclavesRequest gcpOnly (listedAs "p" "q") false)
          .empty (.ok report) w ∧ report.errors = [] ∧
        ¬ OrderBlind firstPartitionHost scannedTwo enclavesRequest gcpOnly (listedAs "p" "q")
          (listedAs "q" "p") w.store := by
  refine ⟨relisted_two, ?_⟩
  have hrun := exec_okAnswer
    (runOf firstPartitionHost scannedTwo enclavesRequest gcpOnly (listedAs "p" "q") false) .empty
  have hnone : ((Prog.run World.next okAnswer (runOf firstPartitionHost scannedTwo enclavesRequest
      gcpOnly (listedAs "p" "q") false) .empty).1.toOption.map (·.errors)) = some [] := by
    decide +kernel
  generalize Prog.run World.next okAnswer (runOf firstPartitionHost scannedTwo enclavesRequest
    gcpOnly (listedAs "p" "q") false) .empty = outcome at hrun hnone
  obtain ⟨_ | report, w⟩ := outcome
  · cases hnone
  have herrors : report.errors = [] := Option.some.inj hnone
  refine ⟨report, w, hrun, herrors, fun hblind => ?_⟩
  have hagree := agree_of_orderBlind Topo.kahn_lawful relisted_two (fun _ => distinct_scanned) hblind
    _ _ load_listed load_relisted ⟨_, rfl⟩ (scannedEnclave "p" "q") (List.mem_singleton_self _)
    (scannedEnclave "q" "p") (List.mem_singleton_self _) rfl
  rw [runOf_of_loaded load_listed] at hrun
  obtain ⟨s, hs, hhash⟩ := carries_hash_of_run Topo.kahn_lawful rfl (distinct_scanned load_listed).1
    hrun herrors (List.mem_singleton_self _)
  have hne : firstPartitionHost.enclaveHash (scannedEnclave "p" "q") ≠
      firstPartitionHost.enclaveHash (scannedEnclave "q" "p") := by decide +kernel
  have hhash' := (hagree s hs).mp hhash
  exact hne (Option.some.inj (hhash.symm.trans hhash'))

end Nclav
