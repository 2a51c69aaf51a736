import Nclav.Guarantees.AliasScope
import Nclav.Guarantees.Creation

/-!
# The outputs that an export needs

The types say which outputs a partition must declare for what it produces, and validation checks
them. The drivers read other ones: what a driver stores in the handle of an export and is no
required output is declared only if the author of the partition happens to do so.
-/

namespace Nclav

open Effect Serde

/-! ## What validation leaves to the drivers -/

/-- In an accepted list every partition declares the required outputs of what it produces. -/
theorem requiredOutputs_declared {topo : Topo.TopoSort} {enclaves : List Enclave}
    {resolved : ResolvedGraph} (hvalid : validate topo enclaves = .ok resolved) {enc : Enclave}
    (henc : enc ∈ enclaves) {part : Partition} (hpart : part ∈ enc.partitions)
    {produces : ProducesType} (hproduces : part.produces = some produces) {key : String}
    (hkey : key ∈ produces.requiredOutputs) : key ∈ part.declaredOutputs := by
  by_contra hnot
  have herror : GraphError.missingRequiredOutput part.id (toString produces) key ∈
      validationErrors enclaves := by
    refine List.mem_flatMap.mpr ⟨enc, henc, List.mem_append_left _ (List.mem_append_left _
      (List.mem_flatMap.mpr ⟨part, hpart, ?_⟩))⟩
    rw [outputErrors, hproduces]
    exact List.mem_map.mpr ⟨key, List.mem_filter.mpr ⟨hkey, by simpa using hnot⟩, rfl⟩
  rw [(validate_eq_ok hvalid).1] at herror
  exact List.not_mem_nil herror

/-! ## What the drivers store -/

/-- The fields of an export handle that hold an output, each with the name of the output. -/
def outputFields : CloudTarget → ExportType → List (String × String)
  | .local, _ => []
  | .gcp, .http => []
  | .gcp, .tcp => [("service_attachment", "psc_service_attachment")]
  | .gcp, .queue => [("topic", "queue_url")]
  | .azure, .http => [("pls_resource_id", "pls_id"), ("endpoint_url", "endpoint_url")]
  | .azure, .tcp => [("pls_resource_id", "pls_id")]
  | .azure, .queue =>
    [("service_bus_namespace_name", "service_bus_namespace_name"), ("topic_name", "topic_name"),
     ("service_bus_resource_id", "service_bus_resource_id")]
  | .aws, .http | .aws, .tcp => [("endpoint_url", "endpoint_url")]
  | .aws, .queue => [("queue_url", "queue_url")]

/-- The outputs that an export needs. -/
def neededOutputs (cloud : CloudTarget) (t : ExportType) : List String :=
  (outputFields cloud t).map (·.2)

/-- An export that did not fail, and in whose handle no output that is missing is the empty
text. -/
def Exported (cloud : CloudTarget) (t : ExportType) (outputs : HashMap String String)
    (r : Except DriverError ProvisionResult) : Prop :=
  ∃ result, r = .ok result ∧ ∀ f ∈ outputFields cloud t,
    result.handle.idx f.1 = .str "" → outputs[f.2]?.isSome = true

/-! ## A cloud that answers with success -/

/-- The answer to a request is a success. -/
def succeeded : (c : CloudCall) → CloudResp c → Bool
  | .get _ _, r | .patch _ _ _ _, r | .put _ _ _, r | .delete _ _, r | .post _ _ _, r => match r with
    | .ok (status, _) => AzureDriver.success status
    | .error _ => false
  | .armPut _ _, r => AzureDriver.accepted r
  | .armGet _, r => match r with
    | .ok (status, _) => AzureDriver.success status
    | .error _ => false
  | .bearer, r | .postJson _ _ _, r | .armDelete _, r | .waitForOperation _, r | .credentials, r
  | .queryApi _ _ _ _ _, r | .jsonApi _ _ _ _ _ _, r | .route53Post _ _ _, r => r.isOk
  | .timestampMillis, _ | .newUuid, _ | .abort, _ => true

/-- Every request was answered with success. -/
def AllSucceeded (log : List CloudEvent) : Prop := ∀ ev ∈ log, succeeded ev.1 ev.2 = true

variable {cloud : CloudTarget} {enc : Enclave} {ex : Export} {outputs : HashMap String String}

/-- A result whose fields are the outputs, the empty text standing for those that are missing. -/
theorem exported_iff {t : ExportType} {result : ProvisionResult}
    (hfields : ∀ f ∈ outputFields cloud t,
      result.handle.idx f.1 = .str (outputs[f.2]?.getD "")) :
    Exported cloud t outputs (.ok result) ↔
      ∀ o ∈ neededOutputs cloud t, outputs[o]?.isSome = true := by
  rw [neededOutputs, List.forall_mem_map]
  constructor
  · rintro ⟨_, ⟨⟩, hempty⟩ f hf
    rcases ho : outputs[f.2]? with _ | v
    · rw [← ho]
      exact hempty f hf (by rw [hfields f hf, ho]; rfl)
    · rfl
  · exact fun h => ⟨result, rfl, fun f hf _ => h f hf⟩

/-- An export fails where an output is missing that the driver must have. -/
theorem not_exported {t : ExportType} {e : DriverError} {o : String}
    (ho : o ∈ neededOutputs cloud t) (hnone : outputs[o]? = none) :
    Exported cloud t outputs (.error e) ↔
      ∀ o ∈ neededOutputs cloud t, outputs[o]?.isSome = true := by
  refine iff_of_false (fun ⟨_, h, _⟩ => by cases h) fun h => ?_
  have hsome := h o ho
  rw [hnone] at hsome
  cases hsome

/-- On GCP. -/
theorem GcpDriver.provisionExport_exported (d : GcpDriver) :
    Prog.wpE recorder (d.provisionExport enc ex outputs none) (fun r log => AllSucceeded log →
      (Exported .gcp ex.exportType outputs r ↔
        ∀ o ∈ neededOutputs .gcp ex.exportType, outputs[o]?.isSome = true)) [] := by
  rw [provisionExport, Prog.wpE_bind]
  intro token _
  cases token with
  | error e => exact fun h => absurd (h _ (List.mem_cons_self ..)) Bool.false_ne_true
  | ok token =>
    rcases htype : ex.exportType with _ | _ | _
    · have hnone : ∀ f ∈ outputFields .gcp .http, ∀ result : ProvisionResult,
          result.handle.idx f.1 = .str (outputs[f.2]?.getD "") := by simp [outputFields]
      show Prog.wpE recorder (if ex.auth = .none then d.allowAllUsers token enc ex >>= fun _ => pure _
        else pure _) _ _
      split
      · intro r _
        cases r with
        | error e => exact fun h => absurd (h _ (List.mem_cons_self ..)) Bool.false_ne_true
        | ok _ => exact fun _ => exported_iff fun f hf => hnone f hf _
      · exact fun _ => exported_iff fun f hf => hnone f hf _
    · rcases houtput : outputs["psc_service_attachment"]? with _ | attachment
      · exact fun _ => not_exported (List.mem_singleton_self _) houtput
      · refine fun _ => exported_iff ?_
        simp [outputFields, Value.idx_object, Value.lookup_cons_eq_ite, houtput]
    · refine fun _ => exported_iff ?_
      simp [outputFields, Value.idx_object, Value.lookup_cons_eq_ite]

/-- On Azure. -/
theorem AzureDriver.provisionExport_exported :
    Prog.wpE recorder (AzureDriver.provisionExport enc ex outputs none) (fun r log =>
      AllSucceeded log → (Exported .azure ex.exportType outputs r ↔
        ∀ o ∈ neededOutputs .azure ex.exportType, outputs[o]?.isSome = true)) [] := by
  rw [provisionExport, Option.filter_none, createExport]
  rcases htype : ex.exportType with _ | _ | _
  · rcases hurl : outputs["endpoint_url"]? with _ | url
    · dsimp only
      rw [requiredOutput, hurl]
      exact fun _ => not_exported (List.mem_cons_of_mem _ (List.mem_singleton_self _)) hurl
    · dsimp only
      rw [requiredOutput, hurl]
      refine fun _ => exported_iff ?_
      simp [outputFields, exportResult, Value.idx_object, Value.lookup_cons_eq_ite, hurl]
  · rcases hpls : outputs["pls_id"]? with _ | pls
    · dsimp only
      rw [requiredOutput, hpls]
      exact fun _ => not_exported (List.mem_singleton_self _) hpls
    · dsimp only
      rw [requiredOutput, hpls]
      refine fun _ => exported_iff ?_
      simp [outputFields, exportResult, Value.idx_object, Value.lookup_cons_eq_ite, hpls]
  · dsimp only
    rcases hns : outputs["service_bus_namespace_name"]? with _ | ns
    · rw [requiredOutput, hns]
      exact fun _ => not_exported (List.mem_cons_self ..) hns
    rcases htopic : outputs["topic_name"]? with _ | topic
    · rw [requiredOutput, requiredOutput, hns, htopic]
      exact fun _ => not_exported (show "topic_name" ∈ neededOutputs .azure .queue by decide) htopic
    rcases hid : outputs["service_bus_resource_id"]? with _ | id
    · rw [requiredOutput, requiredOutput, requiredOutput, hns, htopic, hid]
      exact fun _ => not_exported
        (show "service_bus_resource_id" ∈ neededOutputs .azure .queue by decide) hid
    · rw [requiredOutput, requiredOutput, requiredOutput, hns, htopic, hid]
      refine fun _ => exported_iff ?_
      simp [outputFields, exportResult, Value.idx_object, Value.lookup_cons_eq_ite, hns, htopic, hid]

/-- On AWS. -/
theorem AwsDriver.provisionExport_exported :
    Prog.wpE recorder (AwsDriver.provisionExport enc ex outputs none) (fun r log =>
      AllSucceeded log → (Exported .aws ex.exportType outputs r ↔
        ∀ o ∈ neededOutputs .aws ex.exportType, outputs[o]?.isSome = true)) [] := by
  rw [provisionExport, Option.filter_none, createExport]
  rcases htype : ex.exportType with _ | _ | _ <;>
  · refine fun _ => exported_iff ?_
    simp [outputFields, Value.idx_object, Value.lookup_cons_eq_ite]

/-! ## What validates can be exported -/

variable (ds : CloudDrivers)

/-- With every request answered with success, an export is as it should be exactly where the
outputs that it needs are there. -/
theorem CloudDrivers.provisionExport_exported {r : Except DriverError ProvisionResult}
    {log : List CloudEvent}
    (hrun : Prog.Exec recorder (ds.provisionExport cloud enc ex outputs none).run [] r log)
    (hlog : AllSucceeded log) : Exported cloud ex.exportType outputs r ↔
      ∀ o ∈ neededOutputs cloud ex.exportType, outputs[o]?.isSome = true := by
  cases cloud with
  | «local» =>
    obtain ⟨rfl, -⟩ : r = .ok _ ∧ log = [] := by
      cases hrun
      exact ⟨rfl, rfl⟩
    exact exported_iff (by simp [outputFields])
  | gcp => exact hrun.wp ds.gcp.provisionExport_exported hlog
  | azure => exact hrun.wp AzureDriver.provisionExport_exported hlog
  | aws =>
    have hexported : Prog.wpE recorder (AwsDriver.provisionExport enc ex outputs none) _ [] :=
      AwsDriver.provisionExport_exported
    exact hrun.wp hexported hlog

/-- A token is handed out and every creation is accepted. -/
def exportAccepts : (c : CloudCall) → Option (CloudResp c)
  | .bearer => some (.ok "")
  | .postJson _ _ _ => some (.ok .null)
  | _ => none

theorem allSucceeded_tryRun {α : Type} {p : Prog CloudCall CloudResp α} {a : α}
    {log log' : List CloudEvent} (hlog : AllSucceeded log)
    (h : Prog.tryRun recorder.next (fun _ => exportAccepts) p log = some (a, log')) :
    AllSucceeded log' := by
  induction p generalizing log with
  | ret =>
    obtain ⟨-, rfl⟩ := Prod.mk.inj (Option.some.inj h)
    exact hlog
  | call c k ih =>
    rw [Prog.tryRun] at h
    split at h
    · rename_i r hr
      refine ih r (List.forall_mem_cons.mpr ⟨?_, hlog⟩) h
      cases c with
      | bearer | postJson =>
        obtain rfl := Option.some.inj hr
        rfl
      | _ => cases hr
    · cases h

theorem CloudDrivers.exists_succeeding_export (cloud : CloudTarget) (enc : Enclave) (ex : Export)
    (outputs : HashMap String String) :
    ∃ r log, Prog.Exec recorder (ds.provisionExport cloud enc ex outputs none).run [] r log ∧
      AllSucceeded log := by
  obtain ⟨r, log, hrun⟩ : ∃ r log, Prog.tryRun recorder.next (fun _ => exportAccepts)
      (ds.provisionExport cloud enc ex outputs none).run [] = some (r, log) := by
    cases cloud with
    | «local» => exact ⟨_, _, rfl⟩
    | gcp =>
      show ∃ r log, Prog.tryRun recorder.next (fun _ => exportAccepts)
        (ds.gcp.provisionExport enc ex outputs none).run [] = some (r, log)
      rw [GcpDriver.provisionExport]
      rcases ex.exportType with _ | _ | _
      · generalize ex.auth = auth
        cases auth <;> exact ⟨_, _, rfl⟩
      · rcases outputs["psc_service_attachment"]? with _ | attachment <;> exact ⟨_, _, rfl⟩
      · exact ⟨_, _, rfl⟩
    | azure =>
      show ∃ r log, Prog.tryRun recorder.next (fun _ => exportAccepts)
        (AzureDriver.createExport enc ex outputs).run [] = some (r, log)
      rw [AzureDriver.createExport]
      simp only [AzureDriver.requiredOutput]
      rcases ex.exportType with _ | _ | _
      · rcases outputs["endpoint_url"]? with _ | url <;> exact ⟨_, _, rfl⟩
      · rcases outputs["pls_id"]? with _ | pls <;> exact ⟨_, _, rfl⟩
      · rcases outputs["service_bus_namespace_name"]? with _ | ns
        · exact ⟨_, _, rfl⟩
        rcases outputs["topic_name"]? with _ | topic
        · exact ⟨_, _, rfl⟩
        rcases outputs["service_bus_resource_id"]? with _ | id <;> exact ⟨_, _, rfl⟩
    | aws => exact ⟨_, _, rfl⟩
  exact ⟨r, log, Prog.exec_tryRun (fun _ _ _ _ => trivial) hrun,
    allSucceeded_tryRun (fun _ hev => absurd hev List.not_mem_nil) hrun⟩

/-- The export of a partition with these declared outputs. -/
theorem export_covered_iff (cloud : CloudTarget) {topo : Topo.TopoSort} {enclaves : List Enclave}
    {resolved : ResolvedGraph} (hvalid : validate topo enclaves = .ok resolved) {enc : Enclave}
    (henc : enc ∈ enclaves) {part : Partition} (hpart : part ∈ enc.partitions)
    {produces : ProducesType} (hproduces : part.produces = some produces) (ex : Export) :
    (∀ outputs : HashMap String String, (∀ o ∈ part.declaredOutputs, outputs[o]?.isSome = true) →
      ∀ r log, Prog.Exec recorder (ds.provisionExport cloud enc ex outputs none).run [] r log →
        AllSucceeded log → Exported cloud ex.exportType outputs r) ↔
      ∀ o ∈ neededOutputs cloud ex.exportType, o ∉ produces.requiredOutputs →
        o ∈ part.declaredOutputs := by
  constructor
  · intro h o ho _
    let outputs : HashMap String String := part.declaredOutputs.foldl (fun m o => m.insert o "x") ∅
    have hget : ∀ o : String, outputs[o]?.isSome = true ↔ o ∈ part.declaredOutputs := by
      intro o
      rw [get?_foldl_insert (fun o => o) (fun _ => "x")]
      simp
    obtain ⟨r, log, hrun, hlog⟩ := ds.exists_succeeding_export cloud enc ex outputs
    have hexported := h outputs (fun o ho => (hget o).mpr ho) r log hrun hlog
    exact (hget o).mp ((ds.provisionExport_exported hrun hlog).mp hexported o ho)
  · intro h outputs hbound r log hrun hlog
    refine (ds.provisionExport_exported hrun hlog).mpr fun o ho => hbound o ?_
    by_cases hrequired : o ∈ produces.requiredOutputs
    · exact requiredOutputs_declared hvalid henc hpart hproduces hrequired
    · exact h o ho hrequired

/-- A partition that produces `t` and declares these outputs. -/
def producingPartition (t : ProducesType) (declaredOutputs : List String) : Partition :=
  { plainPartition "p" [] with produces := some t, declaredOutputs }

/-- A database with an export to everyone. -/
def databaseExport : Export := { plainExport "db" .anyEnclave with exportType := .tcp }

def database (declaredOutputs : List String) : Enclave :=
  plainEnclave "a" [databaseExport] [producingPartition .tcp declaredOutputs]

theorem validate_database : ∃ resolved,
    validate plainHost.topo [database ["hostname", "port", "pls_id"]] = .ok resolved :=
  ⟨_, rfl⟩

/-- With `pls_id` declared the database can be exported on Azure. -/
theorem declared_pls_exported : ∃ resolved,
    validate plainHost.topo [database ["hostname", "port", "pls_id"]] = .ok resolved ∧
    ∀ outputs : HashMap String String,
      (∀ o ∈ ["hostname", "port", "pls_id"], outputs[o]?.isSome = true) →
      ∀ r log, Prog.Exec recorder (plainClouds.provisionExport .azure
          (database ["hostname", "port", "pls_id"]) databaseExport outputs none).run [] r log →
        AllSucceeded log → Exported .azure .tcp outputs r := by
  obtain ⟨resolved, hvalid⟩ := validate_database
  exact ⟨resolved, hvalid, (export_covered_iff plainClouds .azure hvalid (List.mem_singleton_self _)
    (List.mem_singleton_self _) rfl databaseExport).mpr (by decide)⟩

/-- With the required outputs alone it cannot be exported on GCP. -/
theorem required_not_enough : ∃ resolved,
    validate plainHost.topo [database ["hostname", "port"]] = .ok resolved ∧
    ∃ outputs : HashMap String String,
      (∀ o ∈ ["hostname", "port"], outputs[o]?.isSome = true) ∧
      ∃ r log, Prog.Exec recorder (plainClouds.provisionExport .gcp (database ["hostname", "port"])
          databaseExport outputs none).run [] r log ∧
        AllSucceeded log ∧ ¬ Exported .gcp .tcp outputs r := by
  let outputs := ((∅ : HashMap String String).insert "hostname" "h").insert "port" "5432"
  obtain ⟨r, log, hrun, hlog⟩ := plainClouds.exists_succeeding_export .gcp
    (database ["hostname", "port"]) databaseExport outputs
  refine ⟨_, rfl, outputs, by decide, r, log, hrun, hlog, fun hexported => ?_⟩
  have hbound := (plainClouds.provisionExport_exported hrun hlog).mp hexported
  exact absurd (hbound "psc_service_attachment" (List.mem_singleton_self _)) (by decide)

end Nclav
