import Nclav.Driver.Aws
import Nclav.Driver.Azure
import Nclav.Driver.Gcp
import Nclav.Driver.Local

/-!
# The drivers of a server

A driver for each of the clouds, and the cloud requests behind the calls in the log.
-/

namespace Nclav

open Effect

/-- The drivers of the public clouds; the local one has nothing to configure. -/
structure CloudDrivers : Type where
  gcp : GcpDriver
  azure : AzureDriver
  aws : AwsDriver

namespace CloudDrivers

variable (ds : CloudDrivers)

/-- The driver of a cloud, as the registry holds it. -/
def driver : CloudTarget → Driver
  | .local => LocalDriver.driver
  | .gcp => ds.gcp.driver
  | .azure => ds.azure.driver
  | .aws => ds.aws.driver

/-- `provision_enclave` of the driver of a cloud. -/
def provisionEnclave : CloudTarget → Enclave → Option Handle → Cloud ProvisionResult
  | .local => fun enc existing => ExceptT.mk (.ret (LocalDriver.provisionEnclave enc existing))
  | .gcp => ds.gcp.provisionEnclave
  | .azure => ds.azure.provisionEnclave
  | .aws => ds.aws.provisionEnclave

/-- `provision_export` of the driver of a cloud. -/
def provisionExport : CloudTarget → Enclave → Export → HashMap String String → Option Handle →
    Cloud ProvisionResult
  | .local => fun enc ex outputs existing =>
    ExceptT.mk (.ret (LocalDriver.provisionExport enc ex outputs existing))
  | .gcp => ds.gcp.provisionExport
  | .azure => AzureDriver.provisionExport
  | .aws => AwsDriver.provisionExport

/-- `provision_import` of the driver of a cloud. -/
def provisionImport : CloudTarget → Enclave → Import → Handle → Option Handle →
    Cloud ProvisionResult
  | .local => fun importer im exportHandle existing =>
    ExceptT.mk (.ret (LocalDriver.provisionImport importer im exportHandle existing))
  | .gcp => ds.gcp.provisionImport
  | .azure => ds.azure.provisionImport
  | .aws => AwsDriver.provisionImport

/-- An accepted creation of a part of an enclave on a cloud. -/
def creates : CloudTarget → EnclaveId → Resource → CloudEvent → Prop
  | .local => fun _ _ _ => False
  | .gcp => ds.gcp.creates
  | .azure => ds.azure.creates
  | .aws => ds.aws.creates

variable {ds}

theorem name_driver (cloud : CloudTarget) : (ds.driver cloud).name = toString cloud := by
  cases cloud <;> rfl

/-- **What the provisioning of an enclave comes to** on each of the public clouds. -/
theorem provides {cloud : CloudTarget} (hcloud : cloud ≠ .local) (enc : Enclave)
    (existing : Option Handle) :
    Provides (ds.creates cloud) enc existing (ds.provisionEnclave cloud enc existing) := by
  cases cloud with
  | «local» => exact absurd rfl hcloud
  | gcp => exact GcpDriver.provisionEnclave_provides enc existing
  | azure => exact AzureDriver.provisionEnclave_provides enc existing
  | aws => exact AwsDriver.provisionEnclave_provides enc existing

end CloudDrivers

/-! ## The requests behind the log -/

/-- The requests that were sent during the newest call of a log. -/
abbrev Requests : Type := List Event → List CloudEvent

namespace CloudDrivers

variable (ds : CloudDrivers)

/-- The calls in the log answered what the drivers made of these requests. -/
def Traced (requests : Requests) (log : List Event) : Prop :=
  ∀ driver enc existing r older,
    (⟨.provisionEnclave driver enc existing, r⟩ : Event) :: older <:+ log →
    ∀ cloud, driver = ds.driver cloud →
      Prog.Exec recorder (ds.provisionEnclave cloud enc existing).run [] r
        (requests (⟨.provisionEnclave driver enc existing, r⟩ :: older))

/-- The cloud has accepted the creation of the part of the enclave. -/
def Created (requests : Requests) (log : List Event) (cloud : CloudTarget) (id : EnclaveId)
    (part : Resource) : Prop :=
  ∃ ev older, ev :: older <:+ log ∧ ∃ e ∈ requests (ev :: older), ds.creates cloud id part e

variable {ds} {requests : Requests} {log log' : List Event}

theorem Traced.mono (h : ds.Traced requests log') (hlog : log <:+ log') : ds.Traced requests log :=
  fun driver enc existing r older hev => h driver enc existing r older (hev.trans hlog)

theorem Created.mono {cloud : CloudTarget} {id : EnclaveId} {part : Resource}
    (h : ds.Created requests log cloud id part) (hlog : log <:+ log') :
    ds.Created requests log' cloud id part := by
  obtain ⟨ev, older, hev, e, he, hcreates⟩ := h
  exact ⟨ev, older, hev.trans hlog, e, he, hcreates⟩

/-- A call that was answered with a handle returned the one it was given, or all parts of the
enclave have been created. -/
theorem Traced.provisioned (h : ds.Traced requests log) {cloud : CloudTarget}
    (hcloud : cloud ≠ .local) {enc : Enclave} {existing : Option Handle}
    {result : ProvisionResult}
    (hev : (⟨.provisionEnclave (ds.driver cloud) enc existing, .ok result⟩ : Event) ∈ log) :
    Handle.complete result.handle = true ∧ (existing = some result.handle ∨
      ∀ part ∈ enc.resources, ds.Created requests log cloud enc.id part) := by
  obtain ⟨newer, older, rfl⟩ := List.append_of_mem hev
  have hsuffix := List.suffix_append newer
    ((⟨.provisionEnclave (ds.driver cloud) enc existing, .ok result⟩ : Event) :: older)
  have hrun := h _ _ _ _ older hsuffix cloud rfl
  obtain ⟨hcomplete, hreuse | hcreated⟩ := hrun.wp (provides hcloud enc existing []) result rfl
  · exact ⟨hcomplete, .inl hreuse⟩
  · exact ⟨hcomplete, .inr fun part hpart => ⟨_, older, hsuffix, hcreated part hpart⟩⟩

end CloudDrivers

end Nclav
