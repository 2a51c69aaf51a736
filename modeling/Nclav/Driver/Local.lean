import Nclav.System.Call

/-!
# The local driver

A stub that simulates infrastructure: its handles are documents that say what would be created,
it does no I/O and never fails.
-/

namespace Nclav

open Serde (Value)

namespace LocalDriver

/-- The driver as the registry holds it. -/
def driver : Driver where
  name := "local"
  contextVars _ _ := ∅
  authEnv _ _ := ∅

def provisionEnclave (enclave : Enclave) (_existing : Option Handle) :
    Except DriverError ProvisionResult :=
  .ok
    { handle := Value.object
        [("driver", .str "local"),
         ("kind", .str "enclave"),
         ("id", .str enclave.id.val),
         ("cloud", .str "local")]
      outputs := ∅ }

def teardownEnclave (_enclave : Enclave) (_handle : Handle) : Except DriverError Unit := .ok ()

def provisionPartition (enclave : Enclave) (partition : Partition)
    (_resolvedInputs : HashMap String String) (_existing : Option Handle) :
    Except DriverError ProvisionResult :=
  .ok
    { handle := Value.object
        [("driver", .str "local"),
         ("kind", .str "partition"),
         ("enclave_id", .str enclave.id.val),
         ("partition_id", .str partition.id.val)]
      -- the required outputs are stubbed
      outputs := ((partition.produces.map (·.requiredOutputs)).getD []).foldl
        (fun m key => m.insert key s!"local://{partition.id.val}/{key}") ∅ }

def teardownPartition (_enclave : Enclave) (_partition : Partition) (_handle : Handle) :
    Except DriverError Unit :=
  .ok ()

def provisionExport (enclave : Enclave) (ex : Export) (partitionOutputs : HashMap String String)
    (_existing : Option Handle) : Except DriverError ProvisionResult :=
  .ok
    { handle := Value.object
        [("driver", .str "local"),
         ("kind", .str "export"),
         ("enclave_id", .str enclave.id.val),
         ("export_name", .str ex.name),
         ("outputs", Value.object (partitionOutputs.toList.map fun o => (o.1, .str o.2)))]
      outputs := partitionOutputs }

def provisionImport (importer : Enclave) (im : Import) (exportHandle : Handle)
    (_existing : Option Handle) : Except DriverError ProvisionResult :=
  .ok
    { handle := Value.object
        [("driver", .str "local"),
         ("kind", .str "import"),
         ("importer_enclave", .str importer.id.val),
         ("alias", .str im.alias_),
         ("export_handle", exportHandle)]
      -- whatever texts the export handle carries
      outputs := (((exportHandle.get? "outputs").bind (·.asObject)).getD []).foldl
        (fun m o => match o.2.asStr with
          | some s => m.insert o.1 s
          | none => m) ∅ }

end LocalDriver

/-- The answers of the test set-up: the store does not fail, and every driver is the local
one. -/
def localAnswers (c : Call) (r : Resp c) : Prop :=
  storeOk c r ∧ match c, r with
    | .provisionEnclave _ enc existing, r => r = LocalDriver.provisionEnclave enc existing
    | .teardownEnclave _ enc h, r => r = LocalDriver.teardownEnclave enc h
    | .provisionPartition _ enc part inputs existing, r =>
      r = LocalDriver.provisionPartition enc part inputs existing
    | .teardownPartition _ enc part h, r => r = LocalDriver.teardownPartition enc part h
    | .provisionExport _ enc ex outputs existing, r =>
      r = LocalDriver.provisionExport enc ex outputs existing
    | .provisionImport _ enc im xh existing, r => r = LocalDriver.provisionImport enc im xh existing
    | .listPartitionResources _ _ _ _, r => r = .ok []
    | _, _ => True

/-- An outcome in the test set-up. -/
def localAnswer (w : World) : (c : Call) → Resp c
  | .provisionEnclave _ enc existing => LocalDriver.provisionEnclave enc existing
  | .teardownEnclave _ enc h => LocalDriver.teardownEnclave enc h
  | .provisionPartition _ enc part inputs existing =>
    LocalDriver.provisionPartition enc part inputs existing
  | .teardownPartition _ enc part h => LocalDriver.teardownPartition enc part h
  | .provisionExport _ enc ex outputs existing =>
    LocalDriver.provisionExport enc ex outputs existing
  | .provisionImport _ enc im xh existing => LocalDriver.provisionImport enc im xh existing
  | c => okAnswer w c

theorem localAnswers_localAnswer (w : World) (c : Call) :
    answers w c (localAnswer w c) ∧ localAnswers c (localAnswer w c) := by
  cases c with
  | provisionEnclave | teardownEnclave | provisionPartition | teardownPartition
  | provisionExport | provisionImport => exact ⟨trivial, nofun, rfl⟩
  | listPartitionResources => exact ⟨trivial, nofun, rfl⟩
  | _ => exact ⟨answers_okAnswer w _, fun _ => allOk_okAnswer w _, trivial⟩

/-- No driver call fails. -/
def DriversSucceed (A : (c : Call) → Resp c → Prop) : Prop :=
  ∀ c r, A c r → c.isDriver = true → failed c r = false

theorem driversSucceed_localAnswers : DriversSucceed localAnswers := by
  rintro c r ⟨-, hr⟩ hc
  cases c with
  | provisionEnclave | teardownEnclave | provisionPartition | teardownPartition
  | provisionExport | provisionImport | listPartitionResources =>
    subst hr
    rfl
  | _ => cases hc

theorem neverAborts_localAnswers : NeverAborts localAnswers := by
  intro c r hr hc
  cases c with
  | teardownEnclave => exact driversSucceed_localAnswers _ r hr rfl
  | getEnclave | listEnclaves | upsertEnclave | deleteEnclave | deletePartition | appendEvent =>
    exact hr.1 hc
  | _ => cases hc

end Nclav
