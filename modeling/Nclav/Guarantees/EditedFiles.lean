import Nclav.Driver.SourceFiles
import Nclav.Guarantees.AliasScope
import Nclav.Reconciler.Applied

/-!
# Edited Terraform files

Whether a partition is applied is decided by the hash of its declaration, in which its directory is
named and its files are not. So an edit of the files is applied with the next change of the
declaration, and not before (`saw_current_iff`).
-/

namespace Nclav

open Effect

/-- The directory of the `.tf` files of a partition. -/
def Partition.dir (part : Partition) : String := (TerraformBackend.extractTfConfig part).2.dir

/-- The user writes the `.tf` files. -/
def Partition.IsRaw (part : Partition) : Prop :=
  (TerraformBackend.extractTfConfig part).2.source = none

/-- The disk, and what the last successful apply of each partition read, by directory and name. -/
structure ApplySite : Type where
  disk : Disk
  read : EnclaveId → PartitionId → Option (String → String → Option String)

namespace ApplySite

/-- A Terraform run makes its workspace ready; what a successful one reads is kept. -/
def step (host : Host) (site : ApplySite) : Event → ApplySite
  | ⟨.tfProvision tf enc part _ _ _, .ok _⟩ =>
    if tf.testMode then site
    else
      let disk := (site.disk.prepare host enc part).toOption.getD site.disk
      { disk
        read := fun id pid =>
          if enc.id = id ∧ part.id = pid then
            some (disk.reads (TerraformBackend.workspaceDir host enc.id.val part.id.val))
          else site.read id pid }
  | _ => site

/-- After the calls of a log, newest first. -/
def after (host : Host) (site : ApplySite) (log : List Event) : ApplySite :=
  log.foldr (fun ev site => site.step host ev) site

/-- The user writes the directories anew. -/
def edit (site : ApplySite) (sources : String → HashMap String String) : ApplySite :=
  { site with disk := { site.disk with sources } }

/-- The last successful apply of the partition read the files of its directory as they are. -/
def SawCurrent (site : ApplySite) (id : EnclaveId) (part : Partition) : Prop :=
  ∃ read, site.read id part.id = some read ∧
    ∀ name, IsSource name → read part.dir name = (site.disk.sources part.dir)[name]?

section

variable {host : Host} {site : ApplySite} {log : List Event} {id : EnclaveId} {pid : PartitionId}

@[simp] theorem after_cons (ev : Event) :
    site.after host (ev :: log) = (site.after host log).step host ev := rfl

theorem sameSources_step (site : ApplySite) (ev : Event) :
    site.disk.SameSources (site.step host ev).disk := by
  rw [step.eq_def]
  split
  · rename_i tf enc part _ _ _ _
    split
    · exact .refl _
    · rcases hprepare : site.disk.prepare host enc part with e | disk
      · exact .refl _
      · exact Disk.sameSources_prepare hprepare
  · exact .refl _

/-- No apply changes what the user wrote. -/
theorem sameSources_after : site.disk.SameSources (site.after host log).disk := by
  induction log with
  | nil => exact .refl _
  | cons ev log ih => exact ih.trans (sameSources_step _ ev)

theorem read_step_of_not_applies {ev : Event} (hev : ev.applies id pid = false) :
    (site.step host ev).read id pid = site.read id pid := by
  rw [step.eq_def]
  split
  · rename_i tf enc part _ _ _ _
    split
    · rfl
    · exact if_neg (of_decide_eq_false hev)
  · rfl

theorem read_after_of_none (h : log.find? (Event.applies id pid) = none) :
    (site.after host log).read id pid = site.read id pid := by
  induction log with
  | nil => rfl
  | cons ev log ih =>
    have hall := List.find?_eq_none.mp h
    rw [after_cons, read_step_of_not_applies (by simpa using hall ev (List.mem_cons_self ..)), ih]
    exact List.find?_eq_none.mpr fun ev' hev' => hall ev' (List.mem_cons_of_mem _ hev')

/-- After an apply of the partition that is what was read. -/
theorem read_after_of_some {tf : TerraformBackend} {enc : Enclave} {part : Partition}
    {inputs authEnv outputs : HashMap String String} {runId : Option Uuid}
    (h : log.find? (Event.applies id pid) =
      some ⟨.tfProvision tf enc part inputs authEnv runId, .ok outputs⟩)
    (htest : tf.testMode = false) :
    ∃ read, (site.after host log).read id pid = some read ∧ (part.IsRaw → ∀ name, IsSource name →
      read part.dir name = (site.disk.sources part.dir)[name]?) := by
  induction log with
  | nil => cases h
  | cons ev log ih =>
    rw [List.find?_cons] at h
    split at h
    · rename_i happlies
      obtain rfl := Option.some.inj h
      have hids : enc.id = id ∧ part.id = pid := of_decide_eq_true happlies
      simp only [after_cons, step, htest, if_pos hids, Bool.false_eq_true, if_false]
      refine ⟨_, rfl, fun hraw name hname => ?_⟩
      obtain ⟨disk, hdisk⟩ : ∃ disk, (site.after host log).disk.prepare host enc part = .ok disk :=
        Disk.exists_prepare _ hraw
      have hsources : site.disk.SameSources (site.after host log).disk := sameSources_after
      rw [hdisk, ← hsources part.dir name hname]
      exact Disk.reads_of_prepare hdisk hraw hname
    · rename_i happlies
      rw [after_cons, read_step_of_not_applies happlies]
      exact ih h

end

end ApplySite

/-! ## Histories of edits and reconciles -/

/-- The ids of a list tell its enclaves apart, and the partitions of each. -/
structure DistinctIds (desired : List Enclave) : Prop where
  enclaves : (desired.map (·.id)).Nodup
  partitions : ∀ enc ∈ desired, (enc.partitions.map (·.id)).Nodup

/-- Edits of the directories, and reconciles without errors, in any order. -/
inductive EditHistory (host : Host) : ApplySite → Store → Prop
  | start (disk : Disk) : EditHistory host ⟨disk, fun _ _ => none⟩ .empty
  | edit {site : ApplySite} {st : Store} (h : EditHistory host site st)
    (sources : String → HashMap String String) :
    EditHistory host (site.edit sources) st
  | reconcile {site : ApplySite} {st : Store} (h : EditHistory host site st)
    {req : ReconcileRequest} {registry : DriverRegistry} {desired : List Enclave}
    {report : ReconcileReport} {w' : World} (htest : req.testMode = false)
    (hdesired : DistinctIds desired)
    (hrun : Prog.Exec (system anyAnswer) (reconcileLoaded host req registry desired).run
      (.ofStore st) (.ok report) w') (herrors : report.errors = []) :
    EditHistory host (site.after host w'.log) w'.store

/-- A partition whose record has a hash was applied. -/
def AppliedOnce (site : ApplySite) (st : Store) : Prop :=
  ∀ id pid ps, st.partition id pid = some ps → ps.meta_.desiredHash.isSome = true →
    (site.read id pid).isSome = true

section

variable {host : Host} {req : ReconcileRequest} {registry : DriverRegistry}
  {desired : List Enclave} {site : ApplySite} {st : Store} {report : ReconcileReport} {w' : World}

/-- What a run without errors does to the partitions. -/
theorem partitions_of_run (hlawful : host.topo.Lawful) (hdry : req.dryRun = false)
    (hdesired : DistinctIds desired)
    (hrun : Prog.Exec (system anyAnswer) (reconcileLoaded host req registry desired).run
      (.ofStore st) (.ok report) w') (herrors : report.errors = []) :
    ∃ run : Run, run.host = host ∧ run.req = req ∧
      (∀ id, id ∉ desired.map (·.id) → w'.store.get? id = none) ∧ ∀ enc ∈ desired,
        (∀ part ∈ enc.partitions, ∃ inputs, PartitionDone run enc part inputs
          (st.partition enc.id part.id) none (w'.store.partition enc.id part.id)
          (w'.lastApply enc.id part.id)) ∧
        ∀ pid, (∀ part ∈ enc.partitions, part.id ≠ pid) →
          w'.store.partition enc.id pid = st.partition enc.id pid ∧
            w'.lastApply enc.id pid = none := by
  obtain ⟨run, resolved, removed, hstart, hsettled⟩ :=
    settled_of_run hlawful hdry hdesired.enclaves hrun herrors
  refine ⟨run, hstart.host_eq, hstart.req_eq, hsettled.gone, fun enc henc => ?_⟩
  obtain ⟨driver, s, s', -, hs', hrest, hvisited⟩ := hsettled.visited enc henc
  have hpartition : ∀ pid, w'.store.partition enc.id pid = s.partitions[pid]? := by
    intro pid
    have hpartitions := congrArg EnclaveState.partitions hrest
    rw [show s'.rest.partitions = s'.partitions from rfl] at hpartitions
    rw [Store.partition, hs', Option.bind_some, hpartitions]
    rfl
  refine ⟨fun part hpart => ?_, fun pid hpid => ?_⟩
  · rw [hpartition]
    exact ⟨_, hvisited.partitions (hdesired.partitions enc henc) part hpart⟩
  · rw [hpartition]
    exact hvisited.otherPartitions pid hpid

theorem appliedOnce_of_history (hlawful : host.topo.Lawful) (h : EditHistory host site st) :
    AppliedOnce site st := by
  induction h with
  | start disk =>
    intro id pid ps hps
    rw [Store.partition, Store.get?_empty] at hps
    cases hps
  | edit _ sources ih => exact ih
  | @reconcile site st _ req registry desired report w' htest hdesired hrun herrors ih =>
    rcases hdry : req.dryRun with _ | _
    · obtain ⟨run, hhost, hreq, hgone, hlisted⟩ :=
        partitions_of_run hlawful hdry hdesired hrun herrors
      intro id pid ps hps hhash
      by_cases hid : id ∈ desired.map (·.id)
      · obtain ⟨enc, henc, rfl⟩ := List.mem_map.mp hid
        obtain ⟨hdone, hother⟩ := hlisted enc henc
        by_cases hpid : ∃ part ∈ enc.partitions, part.id = pid
        · obtain ⟨part, hpart, rfl⟩ := hpid
          obtain ⟨inputs, hdone⟩ := hdone part hpart
          cases hdone with
          | skipped hash record apply =>
            rw [ApplySite.read_after_of_none apply]
            rw [record] at hps
            exact ih _ _ ps hps hhash
          | applied hash m now sa authEnv outputs record apply =>
            obtain ⟨read, hread, -⟩ := ApplySite.read_after_of_some apply (by rw [hreq]; exact htest)
            rw [hread]
            rfl
        · push Not at hpid
          obtain ⟨hrecord, hlast⟩ := hother pid hpid
          rw [ApplySite.read_after_of_none hlast]
          rw [hrecord] at hps
          exact ih _ _ ps hps hhash
      · rw [Store.partition, hgone id hid] at hps
        cases hps
    · have hquiet := hrun.wp (wpE_reconcileLoaded_dry hdry)
      intro id pid ps hps hhash
      have hlast : w'.log.find? (Event.applies id pid) = none := hquiet.lastApply id pid
      rw [hquiet.store] at hps
      rw [ApplySite.read_after_of_none hlast]
      exact ih id pid ps hps hhash

/-- **What the last apply of a partition saw.** After every history of edits and of reconciles
without errors, and one more such reconcile: each declared partition was applied; it was passed
over now iff its stored hash is that of its declaration; and its last apply read the files of its
directory as they are, iff it was not passed over now or they are as its last apply before read
them. -/
theorem saw_current_iff (hlawful : host.topo.Lawful) (h : EditHistory host site st)
    (hdry : req.dryRun = false) (htest : req.testMode = false) (hdesired : DistinctIds desired)
    (hrun : Prog.Exec (system anyAnswer) (reconcileLoaded host req registry desired).run
      (.ofStore st) (.ok report) w') (herrors : report.errors = [])
    {enc : Enclave} (henc : enc ∈ desired) {part : Partition} (hpart : part ∈ enc.partitions)
    (hraw : part.IsRaw) :
    ((site.after host w'.log).read enc.id part.id).isSome = true ∧
    (w'.lastApply enc.id part.id = none ↔
      hashUnchanged ((st.partition enc.id part.id).map (·.meta_)) (host.partitionHash part) =
        true) ∧
    ((site.after host w'.log).SawCurrent enc.id part ↔
      hashUnchanged ((st.partition enc.id part.id).map (·.meta_)) (host.partitionHash part) =
        false ∨ site.SawCurrent enc.id part) := by
  obtain ⟨run, hhost, hreq, -, hlisted⟩ := partitions_of_run hlawful hdry hdesired hrun herrors
  obtain ⟨inputs, hdone⟩ := (hlisted enc henc).1 part hpart
  have hsources : site.disk.SameSources (site.after host w'.log).disk :=
    ApplySite.sameSources_after
  cases hdone with
  | skipped hash record apply =>
    rw [hhost] at hash
    have hread : (site.after host w'.log).read enc.id part.id = site.read enc.id part.id :=
      ApplySite.read_after_of_none apply
    refine ⟨?_, ⟨fun _ => hash, fun _ => apply⟩, ?_⟩
    · obtain ⟨ps, hps, hhash⟩ := hashUnchanged_map_iff.mp hash
      rw [hread]
      exact appliedOnce_of_history hlawful h _ _ ps hps (by rw [hhash]; rfl)
    · rw [hash, ApplySite.SawCurrent, ApplySite.SawCurrent, hread]
      have hsame : ∀ read : String → String → Option String,
          (∀ name, IsSource name →
            read part.dir name = ((site.after host w'.log).disk.sources part.dir)[name]?) ↔
          ∀ name, IsSource name → read part.dir name = (site.disk.sources part.dir)[name]? :=
        fun read => forall₂_congr fun name hname => by rw [hsources part.dir name hname]
      simp only [hsame, Bool.true_eq_false, false_or]
  | applied hash m now sa authEnv outputs record apply =>
    rw [hhost] at hash
    obtain ⟨read, hread, hcurrent⟩ : ∃ read, (site.after host w'.log).read enc.id part.id =
        some read ∧ (part.IsRaw → ∀ name, IsSource name →
          read part.dir name = (site.disk.sources part.dir)[name]?) :=
      ApplySite.read_after_of_some apply (by rw [hreq]; exact htest)
    refine ⟨by rw [hread]; rfl, ?_, ?_⟩
    · rw [apply, hash]
      simp
    · refine ⟨fun _ => .inl hash, fun _ => ⟨read, hread, fun name hname => ?_⟩⟩
      rw [hsources part.dir name hname]
      exact hcurrent hraw name hname

end

/-! ### An edit that nothing applies -/

/-- A disk on which the directory of the plain partitions has one file. -/
def diskWith (text : String) : Disk where
  sources := fun _ => (∅ : HashMap String String).insert "main.tf" text
  workspaces := fun _ => ∅

/-- The first run applies the files as they are. -/
theorem first_apply_current : ∃ report w',
    Prog.Exec (system anyAnswer) (reconcileLoaded plainHost .default gcpOnly [exporter]).run
      (.ofStore .empty) (.ok report) w' ∧
    ((ApplySite.mk (diskWith "v1") fun _ _ => none).after plainHost w'.log).SawCurrent exporter.id
      (plainPartition "p" []) := by
  have hrun := exec_okRun [exporter] (.ofStore .empty)
  obtain ⟨report, hreport, herrors⟩ : ∃ report,
      (okRun [exporter] (.ofStore .empty)).1 = .ok report ∧ report.errors = [] := ⟨_, rfl, rfl⟩
  rw [hreport] at hrun
  have hpart : plainPartition "p" [] ∈ exporter.partitions := List.mem_singleton_self _
  have hsaw := saw_current_iff Topo.kahn_lawful (.start (diskWith "v1")) rfl rfl
    ⟨by decide, by decide⟩ hrun herrors (List.mem_singleton_self exporter) hpart rfl
  exact ⟨report, _, hrun, hsaw.2.2.mpr (.inl rfl)⟩

/-- The store after the first run of `exporter`, and what its apply read. -/
def exporterStore : Store := (okRun [exporter] (.ofStore .empty)).2.store

def exporterSite : ApplySite :=
  (ApplySite.mk (diskWith "v1") fun _ _ => none).after plainHost
    (okRun [exporter] (.ofStore .empty)).2.log

theorem history_exporter : EditHistory plainHost exporterSite exporterStore := by
  have hrun := exec_okRun [exporter] (.ofStore .empty)
  obtain ⟨report, hreport, herrors⟩ : ∃ report,
      (okRun [exporter] (.ofStore .empty)).1 = .ok report ∧ report.errors = [] := ⟨_, rfl, rfl⟩
  rw [hreport] at hrun
  exact .reconcile (.start (diskWith "v1")) rfl ⟨by decide, by decide⟩ hrun herrors

/-- A second run changes nothing. -/
theorem again_exporter : ∃ report w',
    Prog.Exec (system anyAnswer) (reconcileLoaded plainHost .default gcpOnly [exporter]).run
      (.ofStore exporterStore) (.ok report) w' ∧ report.errors = [] ∧ report.changes = [] ∧
    w'.lastApply ⟨"a"⟩ ⟨"p"⟩ = none := by
  have hrun := exec_okRun [exporter] (.ofStore exporterStore)
  have hend : (okRun [exporter] (.ofStore exporterStore)).1.toOption.map
      (fun r => (r.errors, r.changes)) = some ([], []) := by decide +kernel
  have hlast : ((okRun [exporter] (.ofStore exporterStore)).2.lastApply ⟨"a"⟩ ⟨"p"⟩).isNone =
      true := by decide +kernel
  generalize okRun [exporter] (.ofStore exporterStore) = outcome at hrun hend hlast
  obtain ⟨e | report, w'⟩ := outcome
  · cases hend
  · obtain ⟨herrors, hchanges⟩ := Prod.mk.inj (Option.some.inj hend)
    exact ⟨report, w', hrun, herrors, hchanges, Option.isNone_iff_eq_none.mp hlast⟩

/-- The file is edited after the first run; the second one passes the partition over. -/
theorem edit_not_applied : ∃ site st report w', EditHistory plainHost site st ∧
    Prog.Exec (system anyAnswer) (reconcileLoaded plainHost .default gcpOnly [exporter]).run
      (.ofStore st) (.ok report) w' ∧ report.errors = [] ∧ report.changes = [] ∧
    ¬ (site.after plainHost w'.log).SawCurrent ⟨"a"⟩ (plainPartition "p" []) := by
  obtain ⟨report, w', hrun, herrors, hchanges, hlast⟩ := again_exporter
  have hv1 : (exporterSite.read ⟨"a"⟩ ⟨"p"⟩).bind (fun read => read "" "main.tf") = some "v1" := by
    decide +kernel
  refine ⟨_, exporterStore, report, w', .edit history_exporter (diskWith "v2").sources, hrun,
    herrors, hchanges, ?_⟩
  generalize exporterSite = site at hv1 ⊢
  rintro ⟨read, hread, hcurrent⟩
  have hname : IsSource "main.tf" := ⟨by decide +kernel, by decide⟩
  have hpassed : ((site.edit (diskWith "v2").sources).after plainHost w'.log).read ⟨"a"⟩ ⟨"p"⟩ =
      site.read ⟨"a"⟩ ⟨"p"⟩ := ApplySite.read_after_of_none hlast
  rw [← hpassed, show ApplySite.read _ ⟨"a"⟩ ⟨"p"⟩ = _ from hread, Option.bind_some] at hv1
  have hv2 := (hcurrent "main.tf" hname).trans (ApplySite.sameSources_after _ _ hname)
  rw [show read (plainPartition "p" []).dir "main.tf" = some "v1" from hv1] at hv2
  have htext : ((diskWith "v2").sources "")["main.tf"]? = some "v2" := by decide +kernel
  exact absurd (hv2.trans htext) (by decide)

end Nclav
