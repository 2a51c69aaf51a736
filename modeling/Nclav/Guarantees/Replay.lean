import Nclav.Driver.Aws
import Nclav.Driver.Azure
import Nclav.Effect.MayReturn
import Nclav.Guarantees.AliasScope
import Nclav.Guarantees.Creation
import Nclav.Serde.Reorder

/-!
# Provisioning again

An export or an import is provisioned again on the handle that it has. The drivers of Azure and AWS
then return this handle as it is and read the outputs from it. That is what provisioning afresh
would come to where the outputs can be read from the handle, and the handle was made from the same
data: on Azure for the exports, on AWS only where there are no outputs, and for the imports of Azure
never (`cached_answer_iff`).
-/

namespace Nclav

open Effect Serde

/-! ## Drivers that give handles back -/

/-- The calls `C` make a handle, or give one back that they recognise, with outputs that are read
from it. -/
structure Replaying (C : Type) : Type where
  recognises : Handle → Bool
  outputsOf : Handle → HashMap String String
  create : C → Option Handle → Cloud ProvisionResult
  created : ∀ c existing result, MayReturn (create c existing) result →
    recognises result.handle = true

namespace Replaying

variable {C : Type} (k : Replaying C)

def provision (c : C) (existing : Option Handle) : Cloud ProvisionResult :=
  match existing.filter k.recognises with
  | some handle => return { handle, outputs := k.outputsOf handle }
  | none => k.create c existing

/-- The handle was made by this call, and given back by any others since. -/
inductive Made (first : C) : Handle → Prop
  | first {existing : Option Handle} {result : ProvisionResult} :
      existing.filter k.recognises = none → MayReturn (k.provision first existing) result →
      Made first result.handle
  | again {c : C} {handle : Handle} {result : ProvisionResult} :
      Made first handle → MayReturn (k.provision c (some handle)) result → Made first result.handle

variable {k} {c first : C} {handle : Handle} {existing : Option Handle} {result : ProvisionResult}

theorem provision_unrecognised (h : existing.filter k.recognises = none) :
    k.provision c existing = k.create c existing := by
  rw [provision, h]

theorem provision_recognised (h : k.recognises handle = true) :
    k.provision c (some handle) = pure { handle, outputs := k.outputsOf handle } := by
  rw [provision, Option.filter_some, if_pos h]

theorem recognises_result (h : MayReturn (k.provision c existing) result) :
    k.recognises result.handle = true := by
  cases hexisting : existing.filter k.recognises with
  | none =>
    rw [provision_unrecognised hexisting] at h
    exact k.created c existing result h
  | some handle =>
    rw [provision, hexisting, MayReturn.pure_iff] at h
    rw [h]
    exact (Option.filter_eq_some_iff.mp hexisting).2

theorem Made.of_none (h : MayReturn (k.provision first none) result) : k.Made first result.handle :=
  .first (Option.filter_none _) h

/-- Whatever came after, the handle is the one that was made. -/
theorem Made.created (h : k.Made first handle) :
    k.recognises handle = true ∧
      ∃ existing result, MayReturn (k.create first existing) result ∧ handle = result.handle := by
  induction h with
  | @first existing result hexisting hreturns =>
    refine ⟨recognises_result hreturns, existing, result, ?_, rfl⟩
    rwa [provision_unrecognised hexisting] at hreturns
  | again _ hreturns ih =>
    -- the handle is recognised, so that the call returns it as it is
    rw [provision_recognised ih.1, MayReturn.pure_iff] at hreturns
    rw [hreturns]
    exact ih

theorem mayReturn_provision_iff (h : k.recognises handle = true) :
    MayReturn (k.provision c (some handle)) result ↔
      handle = result.handle ∧ k.outputsOf handle = result.outputs := by
  rw [provision_recognised h, MayReturn.pure_iff]
  constructor
  · rintro rfl
    exact ⟨rfl, rfl⟩
  · rintro ⟨rfl, houtputs⟩
    rw [houtputs]

end Replaying

/-- What an export is provisioned from. -/
structure ExportCall : Type where
  enclave : Enclave
  ex : Export
  outputs : HashMap String String

/-- What an import is provisioned from. -/
structure ImportCall : Type where
  importer : Enclave
  im : Import
  exportHandle : Handle

theorem ExportType.toString_injective : Function.Injective (toString : ExportType → String) := by
  intro t t' h
  cases t with
  | http => cases t' with
    | http => rfl
    | tcp => cases (by decide : toString http ≠ toString tcp) h
    | queue => cases (by decide : toString http ≠ toString queue) h
  | tcp => cases t' with
    | http => cases (by decide : toString tcp ≠ toString http) h
    | tcp => rfl
    | queue => cases (by decide : toString tcp ≠ toString queue) h
  | queue => cases t' with
    | http => cases (by decide : toString queue ≠ toString http) h
    | tcp => cases (by decide : toString queue ≠ toString tcp) h
    | queue => rfl

/-- The port among the outputs. -/
def portOr (dflt : Nat) (outputs : HashMap String String) : Nat :=
  (outputs["port"]?.bind parseU16).getD dflt

theorem parseU16_lt {s : String} {n : Nat} (h : parseU16 s = some n) : n < 2 ^ 16 := by
  obtain ⟨digits, hdigits⟩ : ∃ digits : List Char, parseU16 s =
      if !digits.isEmpty && digits.all Char.isDigit then
        let n := digits.foldl (fun n c => 10 * n + (c.toNat - '0'.toNat)) 0
        if n < 2 ^ 16 then some n else none
      else none := ⟨_, rfl⟩
  rw [hdigits] at h
  split at h
  · dsimp only at h
    split at h
    · rename_i hlt
      rw [← Option.some.inj h]
      exact hlt
    · cases h
  · cases h

theorem portOr_lt {dflt : Nat} (hdflt : dflt < 2 ^ 16) (outputs : HashMap String String) :
    portOr dflt outputs < 2 ^ 16 := by
  rw [portOr]
  cases hport : outputs["port"]?.bind parseU16 with
  | none => exact hdflt
  | some port =>
    obtain ⟨text, -, htext⟩ := Option.bind_eq_some_iff.mp hport
    exact parseU16_lt htext

theorem asU64_portOr {dflt : Nat} (hdflt : dflt < 2 ^ 16) (outputs : HashMap String String) :
    asU64 (.num (portOr dflt outputs)) = some (portOr dflt outputs) := by
  have hlt := portOr_lt hdflt outputs
  rw [asU64, if_pos ⟨by omega, by omega⟩, Int.toNat_natCast]

/-! ## Azure -/

namespace AzureDriver

/-- What `createExport` makes. -/
inductive Exports (c : ExportCall) : ProvisionResult → Prop
  | http {endpointUrl : String} : c.ex.exportType = .http →
      c.outputs["endpoint_url"]? = some endpointUrl →
      Exports c (exportResult "http" c.enclave c.ex
        [("pls_resource_id", .str (c.outputs["pls_id"]?.getD "")),
         ("endpoint_url", .str endpointUrl), ("port", .num (portOr 443 c.outputs))]
        [("hostname", extractUrlHostname endpointUrl), ("port", toString (portOr 443 c.outputs))])
  | tcp {plsResourceId : String} : c.ex.exportType = .tcp →
      c.outputs["pls_id"]? = some plsResourceId →
      Exports c (exportResult "tcp" c.enclave c.ex
        [("pls_resource_id", .str plsResourceId), ("port", .num (portOr 0 c.outputs))]
        [("pls_resource_id", plsResourceId), ("port", toString (portOr 0 c.outputs))])
  | queue {nsName topicName sbResourceId : String} : c.ex.exportType = .queue →
      c.outputs["service_bus_namespace_name"]? = some nsName →
      c.outputs["topic_name"]? = some topicName →
      c.outputs["service_bus_resource_id"]? = some sbResourceId →
      Exports c (exportResult "queue" c.enclave c.ex
        [("service_bus_namespace_name", .str nsName), ("topic_name", .str topicName),
         ("service_bus_resource_id", .str sbResourceId)]
        [("queue_url", queueUrl nsName topicName)])

theorem mayReturn_requiredOutput {α : Type} {outputs : HashMap String String}
    {error output : String} {f : String → Cloud α} {a : α}
    (h : MayReturn (requiredOutput outputs error output >>= f) a) :
    ∃ value, outputs[output]? = some value ∧ MayReturn (f value) a := by
  obtain ⟨value, hvalue, hf⟩ := h.of_bind
  rw [requiredOutput] at hvalue
  cases houtput : outputs[output]? with
  | none =>
    rw [houtput] at hvalue
    exact (MayReturn.of_throw hvalue).elim
  | some v =>
    rw [houtput] at hvalue
    obtain rfl := MayReturn.pure_iff.mp hvalue
    exact ⟨value, rfl, hf⟩

theorem Exports.of_mayReturn {c : ExportCall} {result : ProvisionResult}
    (h : MayReturn (createExport c.enclave c.ex c.outputs) result) : Exports c result := by
  rw [createExport] at h
  cases htype : c.ex.exportType with
  | http =>
    rw [htype] at h
    obtain ⟨endpointUrl, hurl, h⟩ := mayReturn_requiredOutput h
    rw [MayReturn.pure_iff] at h
    rw [h]
    exact .http htype hurl
  | tcp =>
    rw [htype] at h
    obtain ⟨plsResourceId, hpls, h⟩ := mayReturn_requiredOutput h
    rw [MayReturn.pure_iff] at h
    rw [h]
    exact .tcp htype hpls
  | queue =>
    rw [htype] at h
    obtain ⟨nsName, hns, h⟩ := mayReturn_requiredOutput h
    obtain ⟨topicName, htopic, h⟩ := mayReturn_requiredOutput h
    obtain ⟨sbResourceId, hsb, h⟩ := mayReturn_requiredOutput h
    rw [MayReturn.pure_iff] at h
    rw [h]
    exact .queue htype hns htopic hsb

/-- The outputs can be read from the handle. -/
theorem Exports.outputs {c : ExportCall} {result : ProvisionResult} (h : Exports c result) :
    exportOutputsFromHandle result.handle = result.outputs := by
  cases h with
  | http =>
    simp [exportOutputsFromHandle, exportResult, Value.idx_object, Value.lookup_cons_eq_ite,
      Value.asStr, asU64_portOr]
  | tcp =>
    simp [exportOutputsFromHandle, exportResult, Value.idx_object, Value.lookup_cons_eq_ite,
      Value.asStr, asU64_portOr]
  | queue =>
    simp [exportOutputsFromHandle, exportResult, Value.idx_object, Value.lookup_cons_eq_ite,
      Value.asStr]

theorem isHandleOf_object (kind : String) (fields : List (String × Value)) :
    isHandleOf kind (.object (("driver", .str "azure") :: ("kind", .str kind) :: fields)) = true := by
  simp [isHandleOf, Value.idx_object, Value.lookup_cons_eq_ite, Value.asStr]

theorem Exports.recognised {c : ExportCall} {result : ProvisionResult} (h : Exports c result) :
    isHandleOf "export" result.handle = true := by
  cases h with
  | http => exact isHandleOf_object _ _
  | tcp => exact isHandleOf_object _ _
  | queue => exact isHandleOf_object _ _

def exports : Replaying ExportCall where
  recognises := isHandleOf "export"
  outputsOf := exportOutputsFromHandle
  create c _ := createExport c.enclave c.ex c.outputs
  created _ _ _ h := (Exports.of_mayReturn h).recognised

theorem provision_exports (c : ExportCall) (existing : Option Handle) :
    exports.provision c existing = provisionExport c.enclave c.ex c.outputs existing := rfl

/-- Two calls store the same data. -/
def SameExport (c first : ExportCall) : Prop :=
  first.enclave.id = c.enclave.id ∧ first.ex.exportType = c.ex.exportType ∧
    match c.ex.exportType with
    | .http =>
      first.outputs["pls_id"]?.getD "" = c.outputs["pls_id"]?.getD "" ∧
        first.outputs["endpoint_url"]? = c.outputs["endpoint_url"]? ∧
        portOr 443 first.outputs = portOr 443 c.outputs
    | .tcp =>
      first.outputs["pls_id"]? = c.outputs["pls_id"]? ∧
        portOr 0 first.outputs = portOr 0 c.outputs
    | .queue => ∀ output ∈ ["service_bus_namespace_name", "topic_name", "service_bus_resource_id"],
      first.outputs[output]? = c.outputs[output]?

variable {c first : ExportCall} {result made : ProvisionResult}

theorem Exports.idx_type (h : Exports c result) :
    result.handle.idx "type" = .str (toString c.ex.exportType) := by
  cases h with
  | http htype =>
    rw [htype]
    exact Value.idx_object _ _
  | tcp htype =>
    rw [htype]
    exact Value.idx_object _ _
  | queue htype =>
    rw [htype]
    exact Value.idx_object _ _

/-- A handle tells what it was made from. -/
theorem Exports.handle_eq_iff (hname : first.ex.name = c.ex.name) (hfirst : Exports first made)
    (h : Exports c result) : made.handle = result.handle ↔ SameExport c first := by
  by_cases htypes : first.ex.exportType = c.ex.exportType
  · cases h with
    | http htype hurl =>
      obtain ⟨-, hurl'⟩ | ⟨htype', -⟩ | ⟨htype', -, -, -⟩ := hfirst
      · have hkeys : ["driver", "kind", "type", "subscription_id", "resource_group", "export_name",
          "pls_resource_id", "endpoint_url", "port"].Nodup := by decide
        refine (Value.object_inj hkeys rfl rfl).trans ?_
        simp [SameExport, htypes, htype, hurl, hurl', hname, EnclaveId.ext_iff]
      · cases htype'.symm.trans (htypes.trans htype)
      · cases htype'.symm.trans (htypes.trans htype)
    | tcp htype hpls =>
      obtain ⟨htype', -⟩ | ⟨-, hpls'⟩ | ⟨htype', -, -, -⟩ := hfirst
      · cases htype'.symm.trans (htypes.trans htype)
      · have hkeys : ["driver", "kind", "type", "subscription_id", "resource_group", "export_name",
          "pls_resource_id", "port"].Nodup := by decide
        refine (Value.object_inj hkeys rfl rfl).trans ?_
        simp [SameExport, htypes, htype, hpls, hpls', hname, EnclaveId.ext_iff]
      · cases htype'.symm.trans (htypes.trans htype)
    | queue htype hns htopic hsb =>
      obtain ⟨htype', -⟩ | ⟨htype', -⟩ | ⟨-, hns', htopic', hsb'⟩ := hfirst
      · cases htype'.symm.trans (htypes.trans htype)
      · cases htype'.symm.trans (htypes.trans htype)
      · have hkeys : ["driver", "kind", "type", "subscription_id", "resource_group", "export_name",
          "service_bus_namespace_name", "topic_name", "service_bus_resource_id"].Nodup := by decide
        refine (Value.object_inj hkeys rfl rfl).trans ?_
        simp [SameExport, htypes, htype, hns, hns', htopic, htopic', hsb, hsb', hname,
          EnclaveId.ext_iff]
  · refine iff_of_false (fun heq => htypes ?_) fun hsame => htypes hsame.2.1
    have htype : (Value.str (toString first.ex.exportType)) = .str (toString c.ex.exportType) := by
      rw [← hfirst.idx_type, ← h.idx_type, heq]
    exact ExportType.toString_injective (Value.str.inj htype)

/-! ### Imports -/

/-- What `createImport` makes. -/
inductive Imports (c : ImportCall) : ProvisionResult → Prop
  | service {exportType importerSub : String} {endpoint : Value} {ip recordName hostname : String}
      {port : Nat} : exportType = "http" ∨ exportType = "tcp" →
      Imports c (endpointResult exportType importerSub endpoint ip recordName hostname port)
  | queue {importerSub : String} : Imports c (queueResult c.im c.exportHandle importerSub)

theorem Imports.of_mayReturn {d : AzureDriver} {c : ImportCall} {existing : Option Handle}
    {result : ProvisionResult}
    (h : MayReturn (d.createImport c.importer c.im c.exportHandle existing) result) :
    Imports c result := by
  rw [createImport] at h
  split at h
  · rename_i htype
    obtain ⟨plsResourceId, -, h⟩ := MayReturn.of_bind h
    dsimp only at h
    split at h
    · obtain ⟨_, hthrow, -⟩ := MayReturn.of_bind h
      exact (MayReturn.of_throw hthrow).elim
    · obtain ⟨endpoint, -, h⟩ := MayReturn.of_bind h
      obtain ⟨ip, -, h⟩ := MayReturn.of_bind h
      split at h
      · obtain ⟨_, -, h⟩ := MayReturn.of_bind h
        rw [MayReturn.pure_iff.mp h]
        exact .service htype
      · rw [MayReturn.pure_iff.mp h]
        exact .service htype
  · split at h
    · obtain ⟨sbResourceId, -, h⟩ := MayReturn.of_bind h
      dsimp only at h
      split at h
      · obtain ⟨_, hthrow, -⟩ := MayReturn.of_bind h
        exact (MayReturn.of_throw hthrow).elim
      · obtain ⟨_, -, h⟩ := MayReturn.of_bind h
        rw [MayReturn.pure_iff.mp h]
        exact .queue
    · exact (MayReturn.of_throw h).elim

theorem Imports.recognised {c : ImportCall} {result : ProvisionResult} (h : Imports c result) :
    isHandleOf "import" result.handle = true := by
  cases h with
  | service => exact isHandleOf_object _ _
  | queue => exact isHandleOf_object _ _

/-- The port of a service and the address of a queue are not in the handle. -/
theorem Imports.outputs_ne {c : ImportCall} {result : ProvisionResult} (h : Imports c result) :
    importOutputsFromHandle result.handle ≠ result.outputs := by
  cases h with
  | @service exportType importerSub endpoint ip recordName hostname port htype =>
    have houtputs : importOutputsFromHandle
        (endpointResult exportType importerSub endpoint ip recordName hostname port).handle =
          (∅ : HashMap String String).insert "hostname" ip := by
      rcases htype with rfl | rfl
      · simp [importOutputsFromHandle, endpointResult, Value.idx_object, Value.lookup_cons_eq_ite,
          Value.asStr]
      · simp [importOutputsFromHandle, endpointResult, Value.idx_object, Value.lookup_cons_eq_ite,
          Value.asStr]
    rw [houtputs]
    -- the address alone, where the call returned the port too
    intro heq
    have hport := congrArg (fun outputs : HashMap String String => outputs["port"]?) heq
    simp [endpointResult] at hport
  | @queue importerSub =>
    have houtputs :
        importOutputsFromHandle (queueResult c.im c.exportHandle importerSub).handle = ∅ := by
      simp [importOutputsFromHandle, queueResult, Value.idx_object, Value.lookup_cons_eq_ite,
        Value.asStr]
    rw [houtputs]
    -- the handle of a queue is read under a key that is not stored
    intro heq
    have hurl := congrArg (fun outputs : HashMap String String => outputs["queue_url"]?) heq
    simp [queueResult] at hurl

def imports (d : AzureDriver) : Replaying ImportCall where
  recognises := isHandleOf "import"
  outputsOf := importOutputsFromHandle
  create c existing := d.createImport c.importer c.im c.exportHandle existing
  created _ _ _ h := (Imports.of_mayReturn h).recognised

theorem provision_imports (d : AzureDriver) (c : ImportCall) (existing : Option Handle) :
    d.imports.provision c existing =
      d.provisionImport c.importer c.im c.exportHandle existing := rfl

end AzureDriver

/-! ## AWS -/

namespace AwsDriver

/-- Two calls store the same data. -/
def SameExport (c first : ExportCall) : Prop :=
  first.ex.exportType = c.ex.exportType ∧
    match c.ex.exportType with
    | .http =>
      first.outputs["endpoint_url"]?.getD "" = c.outputs["endpoint_url"]?.getD "" ∧
        portOr 443 first.outputs = portOr 443 c.outputs
    | .tcp =>
      first.outputs["endpoint_url"]?.getD "" = c.outputs["endpoint_url"]?.getD "" ∧
        portOr 0 first.outputs = portOr 0 c.outputs
    | .queue => first.outputs["queue_url"]?.getD "" = c.outputs["queue_url"]?.getD ""

theorem addressOutputs_eq_empty_iff (endpointUrl queueUrl : Option String) :
    ∅ = addressOutputs endpointUrl queueUrl ↔ endpointUrl = none ∧ queueUrl = none := by
  constructor
  · intro h
    have hendpoint := congrArg (fun outputs : HashMap String String => outputs["endpoint_url"]?) h
    have hqueue := congrArg (fun outputs : HashMap String String => outputs["queue_url"]?) h
    rcases endpointUrl with _ | url
    · rcases queueUrl with _ | url'
      · exact ⟨rfl, rfl⟩
      · simp [addressOutputs] at hqueue
    · rcases queueUrl with _ | url'
      · simp [addressOutputs] at hendpoint
      · simp [addressOutputs] at hqueue
  · rintro ⟨rfl, rfl⟩
    rfl

theorem isHandle_object (fields : List (String × Value)) :
    isHandle (.object (("driver", .str "aws") :: fields)) = true := by
  simp [isHandle, Value.get?_object, Value.asStr]

def exports : Replaying ExportCall where
  recognises := isHandle
  outputsOf _ := ∅
  create c _ := return createExport c.ex c.outputs
  created c _ result h := by
    rw [MayReturn.pure_iff.mp h, createExport]
    cases c.ex.exportType with
    | http => exact isHandle_object _
    | tcp => exact isHandle_object _
    | queue => exact isHandle_object _

theorem provision_exports (c : ExportCall) (existing : Option Handle) :
    exports.provision c existing = provisionExport c.enclave c.ex c.outputs existing := rfl

theorem idx_type (ex : Export) (outputs : HashMap String String) :
    (createExport ex outputs).handle.idx "type" = .str (toString ex.exportType) := by
  rw [createExport]
  cases ex.exportType with
  | http => exact Value.idx_object _ _
  | tcp => exact Value.idx_object _ _
  | queue => exact Value.idx_object _ _

/-- A handle tells what it was made from. -/
theorem handle_eq_iff {c first : ExportCall} (hname : first.ex.name = c.ex.name) :
    (createExport first.ex first.outputs).handle = (createExport c.ex c.outputs).handle ↔
      SameExport c first := by
  by_cases htypes : first.ex.exportType = c.ex.exportType
  · have haddress : ["driver", "kind", "type", "export_name", "endpoint_url", "port"].Nodup := by
      decide
    have hqueue : ["driver", "kind", "type", "export_name", "queue_url"].Nodup := by decide
    rw [createExport, createExport, SameExport, htypes]
    cases c.ex.exportType with
    | http =>
      refine (Value.object_inj haddress rfl rfl).trans ?_
      simp [hname, portOr]
    | tcp =>
      refine (Value.object_inj haddress rfl rfl).trans ?_
      simp [hname, portOr]
    | queue =>
      refine (Value.object_inj hqueue rfl rfl).trans ?_
      simp [hname]
  · refine iff_of_false (fun heq => htypes ?_) fun hsame => htypes hsame.1
    have htype : Value.str (toString first.ex.exportType) = .str (toString c.ex.exportType) := by
      rw [← idx_type _ first.outputs, ← idx_type _ c.outputs, heq]
    exact ExportType.toString_injective (Value.str.inj htype)

/-! ### Imports -/

/-- No address to import. -/
def NoAddress (exportHandle : Handle) : Prop :=
  (exportHandle.idx "endpoint_url").asStr = none ∧ (exportHandle.idx "queue_url").asStr = none

theorem import_of_mayReturn {c : ImportCall} {result : ProvisionResult}
    (h : MayReturn (provisionImport c.importer c.im c.exportHandle none) result) :
    isHandle result.handle = true ∧ result.outputs = addressOutputs
      (c.exportHandle.idx "endpoint_url").asStr (c.exportHandle.idx "queue_url").asStr := by
  obtain ⟨handle, hhandle, h⟩ := MayReturn.of_bind h
  rw [MayReturn.pure_iff.mp h]
  refine ⟨?_, rfl⟩
  cases hmade : importHandle c.im c.exportHandle (strOr c.exportHandle "type" "http") with
  | none =>
    rw [hmade] at hhandle
    exact (MayReturn.of_throw hhandle).elim
  | some made =>
    rw [hmade] at hhandle
    rw [MayReturn.pure_iff.mp hhandle]
    rw [importHandle] at hmade
    dsimp only at hmade
    split at hmade
    · rw [← Option.some.inj hmade]
      exact isHandle_object _
    · split at hmade
      · rw [← Option.some.inj hmade]
        exact isHandle_object _
      · cases hmade

def imports : Replaying ImportCall where
  recognises := isHandle
  outputsOf _ := ∅
  create c _ := provisionImport c.importer c.im c.exportHandle none
  created _ _ _ h := (import_of_mayReturn h).1

theorem provision_imports (c : ImportCall) (existing : Option Handle) :
    imports.provision c existing =
      provisionImport c.importer c.im c.exportHandle existing := by
  rw [Replaying.provision, provisionImport]
  rfl

end AwsDriver

/-! ## Fresh answers and cached ones -/

namespace Replaying

variable {C : Type} {k : Replaying C} {c : C} {existing : Option Handle} {result : ProvisionResult}

/-- On its own handle a call has the outputs that are read from it. -/
theorem own_outputs_iff (h : MayReturn (k.provision c existing) result) :
    (∃ replayed, MayReturn (k.provision c (some result.handle)) replayed ∧
      replayed.outputs = result.outputs) ↔ k.outputsOf result.handle = result.outputs := by
  constructor
  · rintro ⟨replayed, hreplayed, houtputs⟩
    rw [← houtputs]
    exact ((mayReturn_provision_iff (recognises_result h)).mp hreplayed).2
  · intro houtputs
    exact ⟨result, (mayReturn_provision_iff (recognises_result h)).mpr ⟨rfl, houtputs⟩, rfl⟩

/-- What was given back is given back again. -/
theorem outputsOf_given {handle : Handle} (hexisting : existing.filter k.recognises = some handle)
    (h : MayReturn (k.provision c existing) result) :
    k.outputsOf result.handle = result.outputs := by
  rw [provision, hexisting, MayReturn.pure_iff] at h
  rw [h]

end Replaying

/-- The existing handle is one that is given back. -/
def GivenBack (recognises : Handle → Bool) (existing : Option Handle) : Prop :=
  ∃ handle, existing = some handle ∧ recognises handle = true

theorem filter_eq_none {recognises : Handle → Bool} {existing : Option Handle}
    (h : ¬ GivenBack recognises existing) : existing.filter recognises = none := by
  rw [Option.filter_eq_none_iff]
  exact fun handle hexisting hrecognised => h ⟨handle, hexisting, hrecognised⟩

theorem AzureDriver.SameExport.refl (c : ExportCall) : SameExport c c := by
  refine ⟨rfl, rfl, ?_⟩
  cases c.ex.exportType with
  | http => exact ⟨rfl, rfl, rfl⟩
  | tcp => exact ⟨rfl, rfl⟩
  | queue => exact fun _ _ => rfl

variable {call first : ExportCall} {handle : Handle} {existing : Option Handle}
  {result : ProvisionResult}

theorem AzureDriver.export_replay_iff (hname : first.ex.name = call.ex.name)
    (hfresh : MayReturn (provisionExport call.enclave call.ex call.outputs none) result)
    (hmade : exports.Made first handle) :
    MayReturn (provisionExport call.enclave call.ex call.outputs (some handle)) result ↔
      SameExport call first := by
  obtain ⟨hrecognised, existing, made, hcreated, rfl⟩ := hmade.created
  -- the outputs agree as soon as the handles do
  have hresult := Exports.of_mayReturn hfresh
  have hfirst := Exports.of_mayReturn hcreated
  rw [← provision_exports, Replaying.mayReturn_provision_iff hrecognised,
    ← hfirst.handle_eq_iff hname hresult]
  constructor
  · exact And.left
  · intro heq
    refine ⟨heq, ?_⟩
    rw [heq]
    exact hresult.outputs

theorem AwsDriver.export_replay_iff (hname : first.ex.name = call.ex.name)
    (hfresh : MayReturn (provisionExport call.enclave call.ex call.outputs none) result)
    (hmade : exports.Made first handle) :
    MayReturn (provisionExport call.enclave call.ex call.outputs (some handle)) result ↔
      SameExport call first ∧ call.outputs["endpoint_url"]? = none ∧
        call.outputs["queue_url"]? = none := by
  obtain ⟨hrecognised, existing, made, hcreated, rfl⟩ := hmade.created
  rw [← provision_exports, Replaying.mayReturn_provision_iff hrecognised,
    MayReturn.pure_iff.mp hcreated, MayReturn.pure_iff.mp hfresh]
  exact and_congr (handle_eq_iff hname) (addressOutputs_eq_empty_iff ..)

theorem AzureDriver.import_replay_iff (d : AzureDriver) {call : ImportCall}
    (h : MayReturn (d.provisionImport call.importer call.im call.exportHandle existing) result) :
    (∃ replayed, MayReturn (d.provisionImport call.importer call.im call.exportHandle
      (some result.handle)) replayed ∧ replayed.outputs = result.outputs) ↔
      GivenBack (isHandleOf "import") existing := by
  rw [← provision_imports] at h
  refine (Replaying.own_outputs_iff h).trans ⟨fun houtputs => ?_, ?_⟩
  · by_contra hgiven
    rw [Replaying.provision_unrecognised (filter_eq_none hgiven)] at h
    exact (Imports.of_mayReturn h).outputs_ne houtputs
  · rintro ⟨handle, rfl, hrecognised⟩
    exact Replaying.outputsOf_given (Option.filter_some_pos hrecognised) h

theorem AwsDriver.import_replay_iff {call : ImportCall}
    (h : MayReturn (provisionImport call.importer call.im call.exportHandle existing) result) :
    (∃ replayed, MayReturn (provisionImport call.importer call.im call.exportHandle
      (some result.handle)) replayed ∧ replayed.outputs = result.outputs) ↔
      GivenBack isHandle existing ∨ NoAddress call.exportHandle := by
  rw [← provision_imports] at h
  simp only [← provision_imports]
  rw [Replaying.own_outputs_iff h]
  by_cases hgiven : GivenBack isHandle existing
  · refine iff_of_true ?_ (.inl hgiven)
    obtain ⟨handle, rfl, hrecognised⟩ := hgiven
    exact Replaying.outputsOf_given (Option.filter_some_pos hrecognised) h
  · rw [Replaying.provision_unrecognised (filter_eq_none hgiven)] at h
    rw [(import_of_mayReturn h).2, or_iff_right hgiven]
    exact addressOutputs_eq_empty_iff ..

/-- **A cached answer equals the computed one**, for the exports and then the imports of Azure and
AWS: exactly under these conditions. -/
theorem cached_answer_iff (azure : AzureDriver) :
    (∀ (call first : ExportCall) (result : ProvisionResult) (handle : Handle),
      first.ex.name = call.ex.name →
      MayReturn (AzureDriver.provisionExport call.enclave call.ex call.outputs none) result →
      AzureDriver.exports.Made first handle →
      (MayReturn (AzureDriver.provisionExport call.enclave call.ex call.outputs (some handle))
        result ↔ AzureDriver.SameExport call first)) ∧
    (∀ (call first : ExportCall) (result : ProvisionResult) (handle : Handle),
      first.ex.name = call.ex.name →
      MayReturn (AwsDriver.provisionExport call.enclave call.ex call.outputs none) result →
      AwsDriver.exports.Made first handle →
      (MayReturn (AwsDriver.provisionExport call.enclave call.ex call.outputs (some handle))
        result ↔ AwsDriver.SameExport call first ∧ call.outputs["endpoint_url"]? = none ∧
          call.outputs["queue_url"]? = none)) ∧
    (∀ (call : ImportCall) (existing : Option Handle) (result : ProvisionResult),
      MayReturn (azure.provisionImport call.importer call.im call.exportHandle existing) result →
      ((∃ replayed, MayReturn (azure.provisionImport call.importer call.im call.exportHandle
        (some result.handle)) replayed ∧ replayed.outputs = result.outputs) ↔
        GivenBack (AzureDriver.isHandleOf "import") existing)) ∧
    ∀ (call : ImportCall) (existing : Option Handle) (result : ProvisionResult),
      MayReturn (AwsDriver.provisionImport call.importer call.im call.exportHandle existing)
        result →
      ((∃ replayed, MayReturn (AwsDriver.provisionImport call.importer call.im call.exportHandle
        (some result.handle)) replayed ∧ replayed.outputs = result.outputs) ↔
        GivenBack AwsDriver.isHandle existing ∨ AwsDriver.NoAddress call.exportHandle) :=
  ⟨fun _ _ _ _ => AzureDriver.export_replay_iff, fun _ _ _ _ => AwsDriver.export_replay_iff,
    fun _ _ _ => azure.import_replay_iff, fun _ _ _ => AwsDriver.import_replay_iff⟩

/-- An export over HTTP, with its address. -/
def httpCall : ExportCall :=
  ⟨plainEnclave "a" [] [], plainExport "x" .anyEnclave,
    (∅ : HashMap String String).insert "endpoint_url" "https://a.example"⟩

/-- On Azure an export is given back with its outputs. -/
theorem cached_answer_iff_own : ∃ result,
    MayReturn (AzureDriver.provisionExport httpCall.enclave httpCall.ex httpCall.outputs none)
      result ∧
    MayReturn (AzureDriver.provisionExport httpCall.enclave httpCall.ex httpCall.outputs
      (some result.handle)) result := by
  obtain ⟨result, hresult⟩ : ∃ result,
      AzureDriver.provisionExport httpCall.enclave httpCall.ex httpCall.outputs none =
        pure result := ⟨_, rfl⟩
  have hfresh : MayReturn
      (AzureDriver.provisionExport httpCall.enclave httpCall.ex httpCall.outputs none) result := by
    rw [hresult, MayReturn.pure_iff]
  exact ⟨result, hfresh, ((cached_answer_iff plainClouds.azure).1 httpCall httpCall result
    result.handle rfl hfresh (.of_none hfresh)).mpr (.refl httpCall)⟩

/-- On AWS it is given back without them. -/
theorem aws_outputs_lost : ∃ result,
    MayReturn (AwsDriver.provisionExport httpCall.enclave httpCall.ex httpCall.outputs none)
      result ∧
    ¬ MayReturn (AwsDriver.provisionExport httpCall.enclave httpCall.ex httpCall.outputs
      (some result.handle)) result := by
  have hfresh : MayReturn
      (AwsDriver.provisionExport httpCall.enclave httpCall.ex httpCall.outputs none)
      (AwsDriver.createExport httpCall.ex httpCall.outputs) := MayReturn.pure_iff.mpr rfl
  refine ⟨_, hfresh, fun hreplayed => ?_⟩
  have hurl : httpCall.outputs["endpoint_url"]? = some "https://a.example" := by
    simp [httpCall]
  have hmade : AwsDriver.exports.Made httpCall _ := .of_none hfresh
  have hsame := (AwsDriver.export_replay_iff rfl hfresh hmade).mp hreplayed
  cases hurl.symm.trans hsame.2.1

end Nclav
