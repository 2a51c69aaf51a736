import Nclav.Guarantees.AliasScope
import Nclav.Reconciler.Applied

/-!
# What a run leaves behind

The record of an enclave that is still declared is carried over: its partitions and handles are
added to and never dropped. So after a run without errors the stored partitions are the
declared ones exactly when no undeclared one was stored before (`partitions_exact_iff`), and the
same holds of the keys of the two handle tables (`wiring_exact_iff`).
-/

namespace Nclav

open Effect

/-! ## Partitions -/

/-- The list declares the partition. -/
def Declares (desired : List Enclave) (id : EnclaveId) (pid : PartitionId) : Prop :=
  ∃ e ∈ desired, e.id = id ∧ ∃ part ∈ e.partitions, part.id = pid

/-- What a run owes a partition that its enclave no longer declares. -/
structure PartitionRemoved (report : ReconcileReport) (w : World) (id : EnclaveId)
    (pid : PartitionId) : Prop where
  destroyed : w.Logged fun ev => ∃ tf enc part authEnv runId,
    ev = ⟨.tfTeardown tf enc part authEnv runId, .ok ()⟩ ∧ enc.id = id ∧ part.id = pid
  cleaned : w.Logged fun ev => ∃ driver enc part handle,
    ev = ⟨.teardownPartition driver enc part handle, .ok ()⟩ ∧ enc.id = id ∧ part.id = pid
  reported : .partitionDeleted id pid ∈ report.changes

/-- The stored partitions are the declared ones, and those of `st` that left a declared enclave
were removed. -/
structure PartitionsExact (desired : List Enclave) (st : Store) (report : ReconcileReport)
    (w : World) : Prop where
  stored : ∀ id pid, (w.store.partition id pid).isSome = true ↔ Declares desired id pid
  removed : ∀ e ∈ desired, ∀ pid, (st.partition e.id pid).isSome = true →
    ¬ Declares desired e.id pid → PartitionRemoved report w e.id pid

/-- No enclave of the list has a stored partition that it does not declare. -/
def NoneLeft (desired : List Enclave) (st : Store) : Prop :=
  ∀ e ∈ desired, ∀ pid, (st.partition e.id pid).isSome = true →
    ∃ part ∈ e.partitions, part.id = pid

section

variable {A : (c : Call) → Resp c → Prop} {host : Host} {req : ReconcileRequest}
  {registry : DriverRegistry} {desired : List Enclave} {run : Run} {w w' : World}

theorem declares_iff (hnodup : (desired.map (·.id)).Nodup) {e : Enclave} (he : e ∈ desired)
    {pid : PartitionId} : Declares desired e.id pid ↔ ∃ part ∈ e.partitions, part.id = pid := by
  constructor
  · rintro ⟨e', he', hid, hpart⟩
    obtain rfl := List.inj_on_of_nodup_map hnodup he' he hid
    exact hpart
  · exact fun hpart => ⟨e, he, rfl, hpart⟩

/-- The stored partitions of a listed enclave are the declared ones and those it had. -/
theorem Settled.partition_isSome_iff (h : Settled A run desired w w') {e : Enclave}
    (he : e ∈ desired) (pid : PartitionId) :
    (w'.store.partition e.id pid).isSome = true ↔
      (∃ part ∈ e.partitions, part.id = pid) ∨ (w.store.partition e.id pid).isSome = true := by
  obtain ⟨driver, s, s', -, hs', hrest, hvisited⟩ := h.visited e he
  have hpartitions : w'.store.partition e.id pid = s.partitions[pid]? := by
    rw [Store.partition, hs', Option.bind_some]
    exact congrArg (·.partitions[pid]?) hrest
  rw [hpartitions]
  by_cases hpid : ∃ part ∈ e.partitions, part.id = pid
  · obtain ⟨part, hpart, rfl⟩ := hpid
    exact iff_of_true (hvisited.stored part hpart) (.inl ⟨part, hpart, rfl⟩)
  · have hother := hvisited.otherPartitions pid fun part hpart heq => hpid ⟨part, hpart, heq⟩
    rw [hother.1]
    exact ⟨.inr, fun hor => hor.resolve_left hpid⟩

theorem Settled.stored_of_partition (h : Settled A run desired w w') {id : EnclaveId}
    {pid : PartitionId} (hstored : (w'.store.partition id pid).isSome = true) :
    ∃ e ∈ desired, e.id = id := by
  by_contra hno
  have hgone := h.gone id fun hmem => hno (List.mem_map.mp hmem)
  rw [Store.partition, hgone] at hstored
  cases hstored

/-- **The applied partitions are the declared ones** after a run without errors exactly when the
store before it had no other partition of a listed enclave. -/
theorem partitions_exact_iff (hlawful : host.topo.Lawful) (hdry : req.dryRun = false)
    (hnodup : (desired.map (·.id)).Nodup) {st : Store} {report : ReconcileReport}
    (hrun : Prog.Exec (system anyAnswer) (reconcileLoaded host req registry desired).run
      (.ofStore st) (.ok report) w) (herrors : report.errors = []) :
    PartitionsExact desired st report w ↔ NoneLeft desired st := by
  obtain ⟨run, resolved, removed, hstart, hsettled⟩ :=
    settled_of_run hlawful hdry hnodup hrun herrors
  constructor
  · intro h e he pid hstored
    rw [← declares_iff hnodup he, ← h.stored, hsettled.partition_isSome_iff he]
    exact .inr hstored
  · intro h
    refine ⟨fun id pid => ⟨fun hstored => ?_, ?_⟩, fun e he pid hstored hundeclared => ?_⟩
    · obtain ⟨e, he, rfl⟩ := hsettled.stored_of_partition hstored
      rw [declares_iff hnodup he]
      exact ((hsettled.partition_isSome_iff he pid).mp hstored).elim id (h e he pid)
    · rintro ⟨e, he, rfl, hpart⟩
      exact (hsettled.partition_isSome_iff he pid).mpr (.inl hpart)
    · exact absurd ((declares_iff hnodup he).mpr (h e he pid hstored)) hundeclared

end

/-! ### A partition leaves its enclave -/

/-- An enclave with these partitions. -/
def withPartitions (ids : List String) : Enclave :=
  plainEnclave "a" [] (ids.map fun id => plainPartition id [])

/-- The store after a first run of an enclave with two partitions. -/
def twoPartitionsStore : Store := (okRun [withPartitions ["p", "q"]] .empty).2.store

/-- A run over this store, with a third partition, leaves nothing else. -/
theorem partitions_exact_again :
    ∃ report w, Prog.Exec (system anyAnswer)
        (reconcileLoaded plainHost .default gcpOnly [withPartitions ["p", "q", "r"]]).run
        (.ofStore twoPartitionsStore) (.ok report) w ∧
      PartitionsExact [withPartitions ["p", "q", "r"]] twoPartitionsStore report w := by
  have hnone : NoneLeft [withPartitions ["p", "q"]] .empty := fun e _ pid hstored => by
    have hpartition : Store.empty.partition e.id pid = none := by simp [Store.partition]
    rw [hpartition] at hstored
    cases hstored
  have hfirst := exec_okRun [withPartitions ["p", "q"]] (.ofStore .empty)
  obtain ⟨first, hreport, herrors⟩ : ∃ report,
      (okRun [withPartitions ["p", "q"]] (.ofStore .empty)).1 = .ok report ∧ report.errors = [] :=
    ⟨_, rfl, rfl⟩
  have hstore : (okRun [withPartitions ["p", "q"]] (.ofStore .empty)).2.store =
      twoPartitionsStore :=
    congrArg (fun w => (okRun [withPartitions ["p", "q"]] w).2.store)
      (rfl : World.ofStore .empty = .empty)
  rw [hreport] at hfirst
  have hexact := (partitions_exact_iff Topo.kahn_lawful rfl (by decide) hfirst herrors).mpr hnone
  have hrun := exec_okRun [withPartitions ["p", "q", "r"]] (.ofStore twoPartitionsStore)
  obtain ⟨report, hreport, herrors⟩ : ∃ report,
      (okRun [withPartitions ["p", "q", "r"]] (.ofStore twoPartitionsStore)).1 = .ok report ∧
        report.errors = [] := ⟨_, rfl, rfl⟩
  rw [hreport] at hrun
  refine ⟨report, _, hrun, (partitions_exact_iff Topo.kahn_lawful rfl (by decide) hrun
    herrors).mpr fun e he pid hstored => ?_⟩
  obtain rfl := List.mem_singleton.mp he
  -- what is stored is what the first list declares
  rw [← hstore] at hstored
  obtain ⟨e, he, -, part, hpart, hpid⟩ := (hexact.stored ⟨"a"⟩ pid).mp hstored
  obtain rfl := List.mem_singleton.mp he
  exact ⟨part, List.mem_append_left [plainPartition "r" []] hpart, hpid⟩

/-- **A partition is forgotten in the YAML.** After the second run, without errors, its record
is still stored and it is neither destroyed nor reported. -/
theorem dropped_partition_stays :
    (∃ report, Prog.Exec (system anyAnswer)
        (reconcileLoaded plainHost .default gcpOnly [withPartitions ["p", "q"]]).run .empty
        (.ok report) (okRun [withPartitions ["p", "q"]] .empty).2 ∧ report.errors = []) ∧
      ∃ report w, Prog.Exec (system anyAnswer)
          (reconcileLoaded plainHost .default gcpOnly [withPartitions ["p"]]).run
          (.ofStore twoPartitionsStore) (.ok report) w ∧
        report.errors = [] ∧
        (w.store.partition ⟨"a"⟩ ⟨"q"⟩).isSome = true ∧
        ¬ PartitionRemoved report w ⟨"a"⟩ ⟨"q"⟩ ∧
        ¬ PartitionsExact [withPartitions ["p"]] twoPartitionsStore report w := by
  have hrun := exec_okRun [withPartitions ["p"]] (.ofStore twoPartitionsStore)
  obtain ⟨report, hreport, herrors, hchanges⟩ : ∃ report,
      (okRun [withPartitions ["p"]] (.ofStore twoPartitionsStore)).1 = .ok report ∧
        report.errors = [] ∧ report.changes = [] :=
    ⟨_, rfl, rfl, rfl⟩
  rw [hreport] at hrun
  have hstored : ((okRun [withPartitions ["p"]]
      (.ofStore twoPartitionsStore)).2.store.partition ⟨"a"⟩ ⟨"q"⟩).isSome = true := rfl
  refine ⟨⟨_, exec_okRun [withPartitions ["p", "q"]] .empty, rfl⟩,
    report, _, hrun, herrors, hstored, fun hremoved => ?_, fun hexact => ?_⟩
  · have hreported := hremoved.reported
    rw [hchanges] at hreported
    exact absurd hreported List.not_mem_nil
  · obtain ⟨e, he, -, part, hpart, hpid⟩ := (hexact.stored ⟨"a"⟩ ⟨"q"⟩).mp hstored
    obtain rfl := List.mem_singleton.mp he
    obtain rfl := List.mem_singleton.mp hpart
    exact absurd hpid (by decide)

/-! ## Handles -/

/-- The handles of a listed enclave are those of its exports and of its imports' aliases. -/
structure WiringExact (desired : List Enclave) (w : World) : Prop where
  exports : ∀ e ∈ desired, ∀ name,
    (w.store.exportHandle e.id name).isSome = true ↔ ∃ ex ∈ e.exports, ex.name = name
  imports : ∀ e ∈ desired, ∀ a,
    (w.store.importHandle e.id a).isSome = true ↔ ∃ im ∈ e.allImports, im.alias_ = a

/-- No enclave of the list has a stored handle that it does not declare. -/
structure NoneStale (desired : List Enclave) (st : Store) : Prop where
  exports : ∀ e ∈ desired, ∀ name, (st.exportHandle e.id name).isSome = true →
    ∃ ex ∈ e.exports, ex.name = name
  imports : ∀ e ∈ desired, ∀ a, (st.importHandle e.id a).isSome = true →
    ∃ im ∈ e.allImports, im.alias_ = a

section

variable {A : (c : Call) → Resp c → Prop} {host : Host} {req : ReconcileRequest}
  {registry : DriverRegistry} {desired : List Enclave} {run : Run} {w w' : World}

/-- The export handles of a listed enclave are the declared ones and those it had. -/
theorem Settled.exportHandle_isSome_iff (h : Settled A run desired w w') {e : Enclave}
    (he : e ∈ desired) (name : String) :
    (w'.store.exportHandle e.id name).isSome = true ↔
      (∃ ex ∈ e.exports, ex.name = name) ∨ (w.store.exportHandle e.id name).isSome = true := by
  obtain ⟨driver, s, s', -, hs', hrest, hvisited⟩ := h.visited e he
  have hhandles : w'.store.exportHandle e.id name = s.exportHandles[name]? := by
    rw [Store.exportHandle, hs', Option.bind_some]
    exact congrArg (·.exportHandles[name]?) hrest
  rw [hhandles]
  by_cases hname : ∃ ex ∈ e.exports, ex.name = name
  · obtain ⟨ex, hex, rfl⟩ := hname
    exact iff_of_true (hvisited.exportHandle_isSome hex) (.inl ⟨ex, hex, rfl⟩)
  · rw [hvisited.otherExports name fun ex hex heq => hname ⟨ex, hex, heq⟩]
    exact ⟨.inr, fun hor => hor.resolve_left hname⟩

/-- So are the import handles. -/
theorem Clean.importHandle_isSome_iff {st : Store} {e : Enclave} (h : Clean registry st e w)
    (a : String) :
    (w.store.importHandle e.id a).isSome = true ↔
      (∃ im ∈ e.allImports, im.alias_ = a) ∨ (st.importHandle e.id a).isSome = true := by
  rcases h.wiring a with ⟨y, hst, hy⟩ | ⟨hst, hnone, hno⟩ | ⟨-, im, y, hfind, -, hy⟩
  · rw [hy, hst]
    exact iff_of_true rfl (.inr rfl)
  · rw [hnone, hst]
    refine ⟨nofun, ?_⟩
    rintro (⟨im, him, heq⟩ | hsome)
    · exact absurd heq (hno im him)
    · cases hsome
  · rw [hy]
    exact iff_of_true rfl (.inl ⟨im, List.mem_of_find?_eq_some hfind, alias_of_find? hfind⟩)

/-- **The wiring is the declared one** after a run without errors exactly when the store before
it had no handle of a listed enclave that is declared no more. -/
theorem wiring_exact_iff (hlawful : host.topo.Lawful) (hdry : req.dryRun = false)
    (hnodup : (desired.map (·.id)).Nodup) {st : Store} {report : ReconcileReport}
    (hrun : Prog.Exec (system anyAnswer) (reconcileLoaded host req registry desired).run
      (.ofStore st) (.ok report) w) (herrors : report.errors = []) :
    WiringExact desired w ↔ NoneStale desired st := by
  obtain ⟨run, resolved, removed, hstart, hsettled⟩ :=
    settled_of_run hlawful hdry hnodup hrun herrors
  have hclean : ∀ e ∈ desired, Clean registry st e w := fun e he =>
    clean_of_run hlawful hdry hrun herrors (get?_byId_of_mem hnodup he)
  constructor
  · refine fun h => ⟨fun e he name hstored => ?_, fun e he a hstored => ?_⟩
    · exact (h.exports e he name).mp ((hsettled.exportHandle_isSome_iff he name).mpr (.inr hstored))
    · exact (h.imports e he a).mp (((hclean e he).importHandle_isSome_iff a).mpr (.inr hstored))
  · refine fun h => ⟨fun e he name => ?_, fun e he a => ?_⟩
    · rw [hsettled.exportHandle_isSome_iff he name]
      exact ⟨fun hor => hor.elim id (h.exports e he name), .inl⟩
    · rw [(hclean e he).importHandle_isSome_iff a]
      exact ⟨fun hor => hor.elim id (h.imports e he a), .inl⟩

end

/-! ### An import is withdrawn -/

/-- An enclave that exports `x` to these targets. -/
def exportingTo (target : ExportTarget) : Enclave :=
  plainEnclave "a" [plainExport "x" target] [plainPartition "p" []]

/-- An enclave with a partition that has these imports. -/
def importing (imports : List Import) : Enclave :=
  plainEnclave "b" [] [plainPartition "p" imports]

def wiredList : List Enclave := [exportingTo .anyEnclave, importing [⟨⟨"a"⟩, "x", "db"⟩]]

/-- The exporter admits only another enclave now, and the import is gone. -/
def withdrawnList : List Enclave := [exportingTo (.enclave ⟨"c"⟩), importing []]

def wiredStore : Store := (okRun wiredList .empty).2.store

/-- The same with one more export and one more import. -/
def widerList : List Enclave :=
  [plainEnclave "a" [plainExport "x" .anyEnclave, plainExport "y" .anyEnclave]
      [plainPartition "p" []],
    importing [⟨⟨"a"⟩, "x", "db"⟩, ⟨⟨"a"⟩, "y", "cache"⟩]]

/-- A run over this store leaves the handles that are declared now. -/
theorem wiring_exact_again : WiringExact widerList (okRun widerList (.ofStore wiredStore)).2 := by
  have hnone : NoneStale wiredList .empty := by
    refine ⟨fun e _ name hstored => ?_, fun e _ a hstored => ?_⟩
    · have hexport : Store.empty.exportHandle e.id name = none := by simp [Store.exportHandle]
      rw [hexport] at hstored
      cases hstored
    · have himport : Store.empty.importHandle e.id a = none := by simp [Store.importHandle]
      rw [himport] at hstored
      cases hstored
  have hfirst := exec_okRun wiredList (.ofStore .empty)
  obtain ⟨first, hreport, herrors⟩ : ∃ report,
      (okRun wiredList (.ofStore .empty)).1 = .ok report ∧ report.errors = [] := ⟨_, rfl, rfl⟩
  have hstore : (okRun wiredList (.ofStore .empty)).2.store = wiredStore :=
    congrArg (fun w => (okRun wiredList w).2.store) (rfl : World.ofStore .empty = .empty)
  rw [hreport] at hfirst
  have hexact := (wiring_exact_iff Topo.kahn_lawful rfl (by decide) hfirst herrors).mpr hnone
  have hrun := exec_okRun widerList (.ofStore wiredStore)
  obtain ⟨report, hreport', herrors'⟩ : ∃ report,
      (okRun widerList (.ofStore wiredStore)).1 = .ok report ∧ report.errors = [] := ⟨_, rfl, rfl⟩
  rw [hreport'] at hrun
  refine (wiring_exact_iff Topo.kahn_lawful rfl (by decide) hrun herrors').mpr
    ⟨fun e he name hstored => ?_, fun e he a hstored => ?_⟩
  · rw [← hstore] at hstored
    rcases List.mem_cons.mp he with rfl | he
    · obtain ⟨ex, hex, hname⟩ := (hexact.exports (exportingTo .anyEnclave)
        (List.mem_cons_self ..) name).mp hstored
      exact ⟨ex, List.mem_append_left [plainExport "y" .anyEnclave] hex, hname⟩
    · obtain rfl := List.mem_singleton.mp he
      obtain ⟨ex, hex, -⟩ := (hexact.exports (importing [⟨⟨"a"⟩, "x", "db"⟩])
        (List.mem_cons_of_mem _ (List.mem_cons_self ..)) name).mp hstored
      cases hex
  · rw [← hstore] at hstored
    rcases List.mem_cons.mp he with rfl | he
    · obtain ⟨im, him, -⟩ := (hexact.imports (exportingTo .anyEnclave)
        (List.mem_cons_self ..) a).mp hstored
      cases him
    · obtain rfl := List.mem_singleton.mp he
      obtain ⟨im, him, halias⟩ := (hexact.imports (importing [⟨⟨"a"⟩, "x", "db"⟩])
        (List.mem_cons_of_mem _ (List.mem_cons_self ..)) a).mp hstored
      obtain rfl := List.mem_singleton.mp him
      exact ⟨_, List.mem_cons_self .., halias⟩

/-- **The import is withdrawn.** The second run, without errors, leaves the importer the handle
of an export that does not admit it any more. -/
theorem withdrawn_import_stays :
    (∃ report, Prog.Exec (system anyAnswer)
        (reconcileLoaded plainHost .default gcpOnly wiredList).run .empty (.ok report)
        (okRun wiredList .empty).2 ∧ report.errors = []) ∧
      ∃ report w, Prog.Exec (system anyAnswer)
          (reconcileLoaded plainHost .default gcpOnly withdrawnList).run (.ofStore wiredStore)
          (.ok report) w ∧
        report.errors = [] ∧ w.store.importHandle ⟨"b"⟩ "db" = some (.str "x") ∧
        ¬ WiringExact withdrawnList w := by
  have hrun := exec_okRun withdrawnList (.ofStore wiredStore)
  obtain ⟨report, hreport, herrors⟩ : ∃ report,
      (okRun withdrawnList (.ofStore wiredStore)).1 = .ok report ∧ report.errors = [] :=
    ⟨_, rfl, rfl⟩
  rw [hreport] at hrun
  have hstored : (okRun withdrawnList (.ofStore wiredStore)).2.store.importHandle ⟨"b"⟩ "db" =
      some (.str "x") := rfl
  refine ⟨⟨_, exec_okRun wiredList .empty, rfl⟩, report, _, hrun, herrors, hstored,
    fun hexact => ?_⟩
  have hmem : importing [] ∈ withdrawnList := List.mem_cons_of_mem _ (List.mem_cons_self ..)
  obtain ⟨im, him, -⟩ := (hexact.imports (importing []) hmem "db").mp
    (by rw [show (importing []).id = ⟨"b"⟩ from rfl, hstored]; rfl)
  exact absurd him List.not_mem_nil

end Nclav
