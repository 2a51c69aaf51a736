import Nclav.Guarantees.Leftovers
import Nclav.Reconciler.Faultless

/-!
# Applying a list twice

A run without errors leaves a store in which the list is applied: nothing else is stored, and
every hash and handle that the diff looks for is there. So the next run of the same list has
nothing to report (`changes_of_applied`). With the local driver, whose handles depend on nothing
but the declarations, it also writes the records it found (`reconcile_fixpoint`).
-/

namespace Nclav

open Effect

/-! ## Applied lists -/

/-- What the diff looks for in the record of an enclave. -/
structure EnclaveState.Applied (host : Host) (enc : Enclave) (s : EnclaveState) : Prop where
  hash : hashUnchanged (some s.meta_) (host.enclaveHash enc) = true
  partitions : ∀ part ∈ enc.partitions,
    hashUnchanged ((s.partitions[part.id]?).map (·.meta_)) (host.partitionHash part) = true
  exports : ∀ ex ∈ enc.exports, (s.exportHandles[ex.name]?).isSome = true
  imports : ∀ im ∈ enc.allImports, (s.importHandles[im.alias_]?).isSome = true

/-- The store holds the list, applied, and nothing else. -/
structure Store.Applied (host : Host) (desired : List Enclave) (st : Store) : Prop where
  gone : ∀ id, id ∉ desired.map (·.id) → st.get? id = none
  record : ∀ enc ∈ desired, ∃ s, st.get? enc.id = some s ∧ s.Applied host enc

section

variable {A : (c : Call) → Resp c → Prop} {host : Host} {req : ReconcileRequest}
  {registry : DriverRegistry} {desired : List Enclave} {run : Run} {w w' : World}

theorem hashChanges_of_unchanged {m : Option ResourceMeta} {hash : String}
    {created updated : Change} (h : hashUnchanged m hash = true) :
    hashChanges m hash created updated = [] := by
  cases m with
  | none => cases h
  | some m =>
    rw [hashChanges, h]
    rfl

theorem PartitionDone.unchanged {enc : Enclave} {part : Partition}
    {inputs : HashMap String String} {before after : Option PartitionState}
    {last last' : Option Event} (h : PartitionDone run enc part inputs before last after last') :
    hashUnchanged (after.map (·.meta_)) (run.host.partitionHash part) = true := by
  cases h with
  | skipped hash record =>
    rw [record]
    exact hash
  | applied _ _ _ _ _ _ record =>
    rw [record]
    exact beq_self_eq_true _

/-- A run without errors leaves the list applied. -/
theorem applied_of_run (hlawful : host.topo.Lawful) (hdry : req.dryRun = false)
    (hnodup : (desired.map (·.id)).Nodup)
    (hparts : ∀ enc ∈ desired, (enc.partitions.map (·.id)).Nodup) {report : ReconcileReport}
    (hrun : Prog.Exec (system A) (reconcileLoaded host req registry desired).run w
      (.ok report) w') (herrors : report.errors = []) : w'.store.Applied host desired := by
  obtain ⟨run, resolved, removed, hstart, hsettled⟩ :=
    settled_of_run hlawful hdry hnodup hrun herrors
  obtain rfl := hstart.host_eq
  refine ⟨hsettled.gone, fun enc henc => ?_⟩
  obtain ⟨driver, s, s', -, hs', hrest, hvisited⟩ := hsettled.visited enc henc
  have hclean := clean_of_run hlawful hdry hrun herrors (get?_byId_of_mem hnodup henc)
  refine ⟨s', hs', ?_, fun part hpart => ?_, fun ex hex => ?_, fun im him => ?_⟩
  · obtain ⟨now, hmeta⟩ := hvisited.meta_
    rw [show s'.meta_ = s.meta_ from congrArg (·.meta_) hrest, hmeta]
    exact beq_self_eq_true _
  · rw [show s'.partitions = s.partitions from congrArg (·.partitions) hrest]
    exact (hvisited.partitions (hparts enc henc) part hpart).unchanged
  · rw [show s'.exportHandles = s.exportHandles from congrArg (·.exportHandles) hrest]
    exact hvisited.exportHandle_isSome hex
  · have hbound := (hclean.importHandle_isSome_iff im.alias_).mpr (.inl ⟨im, him, rfl⟩)
    rw [Store.importHandle, hs'] at hbound
    exact hbound

/-- Where the list is applied there is nothing to remove. -/
theorem Store.Applied.removedIds_eq_nil {actual : HashMap EnclaveId EnclaveState}
    (happlied : w.store.Applied host desired)
    (hactual : ∀ id : EnclaveId, actual[id]? = w.store.get? id) : removedIds actual desired = [] := by
  refine List.eq_nil_iff_forall_not_mem.mpr fun id hid => ?_
  obtain ⟨hstored, hundesired⟩ := mem_removedIds.mp hid
  rw [hactual, happlied.gone id hundesired] at hstored
  cases hstored

/-- **Nothing to report**, where the list is applied. -/
theorem changes_of_applied (happlied : w.store.Applied host desired) {report : ReconcileReport}
    (hrun : Prog.Exec (system A) (reconcileLoaded host req registry desired).run w
      (.ok report) w') : report.changes = [] := by
  obtain ⟨resolved, actual, removed, -, hactual, hremoved, hchanges⟩ := planned_of_run hrun
  rw [happlied.removedIds_eq_nil hactual] at hremoved
  rw [hchanges, diff, List.perm_nil.mp hremoved]
  have hrecord : ∀ enc ∈ orderedDesired resolved desired, ∃ s,
      actual[enc.id]? = some s ∧ s.Applied host enc := by
    intro enc henc
    obtain ⟨s, hs, hs'⟩ := happlied.record enc (mem_of_mem_orderedDesired henc)
    exact ⟨s, (hactual enc.id).trans hs, hs'⟩
  have henclaves : ∀ enc ∈ orderedDesired resolved desired,
      enclaveChanges host actual enc = [] := by
    intro enc henc
    obtain ⟨s, hs, happlied⟩ := hrecord enc henc
    rw [enclaveChanges, hs]
    have hpartitions : enc.partitions.flatMap (fun part =>
        hashChanges ((s.partitions[part.id]?).map (·.meta_)) (host.partitionHash part)
          (.partitionCreated enc.id part.id) (.partitionUpdated enc.id part.id)) = [] :=
      List.flatMap_eq_nil_iff.mpr fun part hpart =>
        hashChanges_of_unchanged (happlied.partitions part hpart)
    have hexports : enc.exports.filter (fun ex => (s.exportHandles[ex.name]?).isNone) = [] :=
      List.filter_eq_nil_iff.mpr fun ex hex => by simpa using happlied.exports ex hex
    simp only [Option.map_some, Option.bind_some, hashChanges_of_unchanged happlied.hash,
      hpartitions, hexports, List.map_nil, List.append_nil]
  have himports : ∀ enc ∈ orderedDesired resolved desired,
      importChanges actual enc = [] := by
    intro enc henc
    obtain ⟨s, hs, happlied⟩ := hrecord enc henc
    rw [importChanges, hs, List.map_eq_nil_iff, List.filter_eq_nil_iff]
    exact fun im him => by simpa using happlied.imports im him
  rw [List.flatMap_eq_nil_iff.mpr henclaves, List.flatMap_eq_nil_iff.mpr himports]
  rfl

end

/-! ## Unchanged records -/

/-- The metadata, `updated_at` and `generation` aside. -/
def ResourceMeta.lasting (m : ResourceMeta) : ResourceMeta :=
  { m with updatedAt := none, generation := 0 }

/-- The record, the `updated_at` and the `generation` of the enclave itself aside. -/
def EnclaveState.lasting (s : EnclaveState) : EnclaveState := { s with meta_ := s.meta_.lasting }

theorem EnclaveState.lasting_eq {s s' : EnclaveState} (hrest : s'.rest.lasting = s.rest.lasting)
    (himports : s'.importHandles = s.importHandles) : s'.lasting = s.lasting := by
  have hs : ∀ s : EnclaveState, s.lasting = { s.rest.lasting with importHandles := s.importHandles } :=
    fun _ => rfl
  rw [hs s', hs s, hrest, himports]

section

/-- Marking active what was marked active changes two fields only. -/
theorem markActive_inFlight {m m' : ResourceMeta} {now now' : DateTime} {hash : String}
    {status : ProvisioningStatus} (h : m' = m.markActive now hash) :
    (({ m' with status := status }).markActive now' hash).lasting = m'.lasting := by
  subst h
  rcases hc : m.createdAt with _ | t <;> simp [ResourceMeta.lasting, ResourceMeta.markActive, hc]

/-- With the local driver a visit of an applied enclave writes the record it found. -/
theorem lasting_of_visited {run₁ run₂ : Run} {driver : Driver} {st₁ : Store} {enc : Enclave}
    {w₁ w₁' w₂ w₂' : World} {s₁ s₁' s₂ s₂' : EnclaveState} (hhost : run₂.host = run₁.host)
    (hregistry : run₂.registry = run₁.registry) (hnodup : (enc.partitions.map (·.id)).Nodup)
    (h₁ : Visited localAnswers run₁ driver st₁ enc w₁ s₁ w₁') (hrest₁ : s₁'.rest = s₁.rest)
    (hstored : w₂.store.get? enc.id = some s₁') (hexisting : run₂.existing enc.id = some s₁')
    (happlied : s₁'.Applied run₂.host enc)
    (h₂ : Visited localAnswers run₂ driver w₂.store enc w₂ s₂ w₂') (hrest₂ : s₂'.rest = s₂.rest)
    (himports : s₂'.importHandles = s₁'.importHandles) : s₂'.lasting = s₁'.lasting := by
  have hpartition : ∀ pid, w₂.store.partition enc.id pid = s₁'.partitions[pid]? := fun pid => by
    rw [Store.partition, hstored, Option.bind_some]
  have hexport : ∀ name, w₂.store.exportHandle enc.id name = s₁'.exportHandles[name]? :=
    fun name => by rw [Store.exportHandle, hstored, Option.bind_some]
  have hfield : ∀ {α : Type} (f : EnclaveState → α) {s s' : EnclaveState}, s'.rest = s.rest →
      f s'.rest = f s.rest := fun f _ _ h => congrArg f h
  -- every hash is the stored one, so every partition was passed over
  have hpartitions : s₂.partitions = s₁.partitions := by
    rw [← show s₁'.partitions = s₁.partitions from hfield (·.partitions) hrest₁]
    refine Std.ExtTreeMap.ext_getElem? fun pid => ?_
    by_cases hpid : ∃ part ∈ enc.partitions, part.id = pid
    · obtain ⟨part, hpart, rfl⟩ := hpid
      have hunchanged := happlied.partitions part hpart
      cases h₂.partitions hnodup part hpart with
      | skipped _ record => rw [record, hpartition]
      | applied hash =>
        rw [hpartition, hunchanged] at hash
        cases hash
    · rw [(h₂.otherPartitions pid fun part hpart heq => hpid ⟨part, hpart, heq⟩).1, hpartition]
  have houtputs : s₂.outputsFor = s₁.outputsFor := by
    funext x
    rw [EnclaveState.outputsFor, EnclaveState.outputsFor, hpartitions]
  have hexports : s₂.exportHandles = s₁.exportHandles := by
    refine Std.ExtTreeMap.ext_getElem? fun name => ?_
    rcases hfind : enc.exports.reverse.find? (·.name = name) with _ | x
    · have hother : ∀ x ∈ enc.exports, x.name ≠ name := fun x hx heq => by
        have hnone := List.find?_eq_none.mp hfind x (List.mem_reverse.mpr hx)
        simp [heq] at hnone
      rw [h₂.otherExports name hother, hexport]
      exact congrArg (·[name]?) (hfield (·.exportHandles) hrest₁)
    · obtain ⟨existing₁, result₁, ⟨-, hr₁⟩, hhandle₁⟩ := h₁.exports name x hfind
      obtain ⟨existing₂, result₂, ⟨-, hr₂⟩, hhandle₂⟩ := h₂.exports name x hfind
      rw [houtputs] at hr₂
      have hresult : result₂ = result₁ := Except.ok.inj (hr₂.trans hr₁.symm)
      rw [hhandle₁, hhandle₂, hresult]
  have hhandle : s₂.enclaveHandle = s₁.enclaveHandle := by
    obtain ⟨existing₁, result₁, ⟨-, hr₁⟩, hhandle₁⟩ := h₁.handle
    obtain ⟨existing₂, result₂, ⟨-, hr₂⟩, hhandle₂⟩ := h₂.handle
    have hresult : result₂ = result₁ := Except.ok.inj (hr₂.trans hr₁.symm)
    rw [hhandle₁, hhandle₂, hresult]
  have hmeta : s₂.meta_.lasting = s₁.meta_.lasting := by
    rw [← show s₁'.meta_ = s₁.meta_ from hfield (·.meta_) hrest₁]
    obtain ⟨now₁, hmeta₁⟩ := h₁.meta_
    obtain ⟨now₂, hmeta₂⟩ := h₂.meta_
    rw [hmeta₂, EnclaveState.inFlight, hexisting, hhost]
    have hbefore : s₁'.meta_ = (EnclaveState.inFlight run₁ enc).meta_.markActive now₁
        (run₁.host.enclaveHash enc) := (hfield (·.meta_) hrest₁).trans hmeta₁
    exact markActive_inFlight hbefore
  have hrest : ∀ s : EnclaveState, s.rest.lasting =
      ⟨s.desired, s.enclaveHandle, s.partitions, s.exportHandles, ∅, s.meta_.lasting,
        s.resolvedCloud⟩ := fun _ => rfl
  refine EnclaveState.lasting_eq ?_ himports
  rw [hrest₂, hrest₁, hrest, hrest, h₂.desired, h₁.desired, h₂.cloud, h₁.cloud, hhandle, hpartitions,
    hexports, hmeta, hregistry]

end

/-- **The fixpoint.** With the local driver, Terraform in test mode and a store that does not
fail, the second of two runs of a list has nothing to report, neither changes nor errors, and
leaves every record as the first left it. -/
theorem reconcile_fixpoint {host : Host} {registry : DriverRegistry} {desired : List Enclave}
    {req₁ req₂ : ReconcileRequest} (hlawful : host.topo.Lawful) {resolved : ResolvedGraph}
    (hvalid : validate host.topo desired = .ok resolved) (hnodup : (desired.map (·.id)).Nodup)
    (hparts : ∀ enc ∈ desired, (enc.partitions.map (·.id)).Nodup)
    (hdrivers : ∀ enc ∈ desired, ∃ driver, registry.forEnclave enc = .ok driver)
    (hdry₁ : req₁.dryRun = false) (hdry₂ : req₂.dryRun = false) (htest₁ : req₁.testMode = true)
    (htest₂ : req₂.testMode = true) {w w₁ w₂ : World}
    {r₁ r₂ : Except ReconcileError ReconcileReport}
    (hrun₁ : Prog.Exec (system localAnswers) (reconcileLoaded host req₁ registry desired).run w
      r₁ w₁)
    (hrun₂ : Prog.Exec (system localAnswers) (reconcileLoaded host req₂ registry desired).run w₁
      r₂ w₂) :
    ∃ report, r₂ = .ok report ∧ report.changes = [] ∧ report.errors = [] ∧
      ∀ id, (w₂.store.get? id).map (·.lasting) = (w₁.store.get? id).map (·.lasting) := by
  obtain ⟨report₁, rfl⟩ := ok_of_run neverAborts_localAnswers hdry₁ hvalid hrun₁
  obtain ⟨report₂, rfl⟩ := ok_of_run neverAborts_localAnswers hdry₂ hvalid hrun₂
  have herrors₁ := errors_of_run driversSucceed_localAnswers htest₁ hdrivers hdry₁ hrun₁
  have herrors₂ := errors_of_run driversSucceed_localAnswers htest₂ hdrivers hdry₂ hrun₂
  have happlied := applied_of_run hlawful hdry₁ hnodup hparts hrun₁ herrors₁
  refine ⟨report₂, rfl, changes_of_applied happlied hrun₂, herrors₂, fun id => ?_⟩
  obtain ⟨run₁, _, _, hstart₁, hsettled₁⟩ := settled_of_run hlawful hdry₁ hnodup hrun₁ herrors₁
  obtain ⟨run₂, _, _, hstart₂, hsettled₂⟩ := settled_of_run hlawful hdry₂ hnodup hrun₂ herrors₂
  by_cases hid : id ∈ desired.map (·.id)
  · obtain ⟨enc, henc, rfl⟩ := List.mem_map.mp hid
    obtain ⟨driver₁, s₁, s₁', hdriver₁, hs₁', hrest₁, hvisited₁⟩ := hsettled₁.visited enc henc
    obtain ⟨driver₂, s₂, s₂', hdriver₂, hs₂', hrest₂, hvisited₂⟩ := hsettled₂.visited enc henc
    obtain rfl : driver₁ = driver₂ := by
      rw [hstart₁.registry_eq] at hdriver₁
      rw [hstart₂.registry_eq, hdriver₁] at hdriver₂
      exact Except.ok.inj hdriver₂
    obtain ⟨s, hs, hrecord⟩ := happlied.record enc henc
    obtain rfl : s₁' = s := Option.some.inj (hs₁'.symm.trans hs)
    have himports : s₂'.importHandles = s₁'.importHandles := by
      -- every declared alias was bound by the first run
      have hclean := clean_of_run hlawful hdry₂ hrun₂ herrors₂ (get?_byId_of_mem hnodup henc)
      refine Std.ExtTreeMap.ext_getElem? fun a => ?_
      have hwiring := hclean.wiring a
      simp only [Store.importHandle, hs₂', hs₁', Option.bind_some] at hwiring
      rcases hwiring with ⟨y, hbefore, hafter⟩ | ⟨hbefore, hafter, -⟩ | ⟨hbefore, im, -, hfind, -⟩
      · rw [hafter, hbefore]
      · rw [hafter, hbefore]
      · have hbound := hrecord.imports im (List.mem_of_find?_eq_some hfind)
        rw [alias_of_find? hfind, hbefore] at hbound
        cases hbound
    rw [hs₂', hs₁', Option.map_some, Option.map_some]
    refine congrArg some (lasting_of_visited (hstart₂.host_eq.trans hstart₁.host_eq.symm)
      (hstart₂.registry_eq.trans hstart₁.registry_eq.symm) (hparts enc henc) hvisited₁ hrest₁ hs₁'
      ?_ ?_ hvisited₂ hrest₂ himports)
    · rw [hstart₂.existing, hs₁']
    · rw [hstart₂.host_eq]
      exact hrecord
  · rw [hsettled₁.gone id hid, hsettled₂.gone id hid]

/-! ### Two enclaves -/

/-- The local driver for every cloud. -/
def localOnly : DriverRegistry := ⟨.local, fun _ => some LocalDriver.driver⟩

def testRequest : ReconcileRequest := { ReconcileRequest.default with testMode := true }

/-- The run of a list in the test set-up. -/
def localRun (desired : List Enclave) (w : World) : Except ReconcileError ReconcileReport × World :=
  Prog.run World.next localAnswer (reconcileLoaded plainHost testRequest localOnly desired).run w

theorem exec_localRun (desired : List Enclave) (w : World) :
    Prog.Exec (system localAnswers) (reconcileLoaded plainHost testRequest localOnly desired).run w
      (localRun desired w).1 (localRun desired w).2 :=
  Prog.exec_run (M := system localAnswers) (fun w c => localAnswers_localAnswer w c) _ _

/-- An exporter and an importer, applied twice. -/
theorem two_enclaves_fixpoint :
    ∃ report, (localRun wiredList (localRun wiredList .empty).2).1 = .ok report ∧
      report.changes = [] ∧ report.errors = [] ∧
      ∀ id, ((localRun wiredList (localRun wiredList .empty).2).2.store.get? id).map (·.lasting) =
        ((localRun wiredList .empty).2.store.get? id).map (·.lasting) := by
  refine reconcile_fixpoint Topo.kahn_lawful rfl (by decide) ?_
    (fun _ _ => ⟨LocalDriver.driver, rfl⟩) rfl rfl rfl rfl (exec_localRun _ _) (exec_localRun _ _)
  intro enc henc
  rcases List.mem_cons.mp henc with rfl | henc
  · exact List.nodup_singleton _
  · obtain rfl := List.mem_singleton.mp henc
    exact List.nodup_singleton _

end Nclav
