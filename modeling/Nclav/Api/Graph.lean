import Nclav.Api.Handlers

/-!
# The graph that is served

The handler of `GET /graph` reads all records and answers with a node for each, and with an edge for
each of their imports.
-/

namespace Nclav

open Effect

/-- `Display` of a status. -/
def ProvisioningStatus.display : ProvisioningStatus → String
  | .pending => "pending"
  | .provisioning => "provisioning"
  | .active => "active"
  | .updating => "updating"
  | .degraded => "degraded"
  | .error => "error"
  | .deleting => "deleting"
  | .deleted => "deleted"

structure PartitionNode : Type where
  id : PartitionId
  name : String
  produces : Option ProducesType
  status : String

structure EnclaveNode : Type where
  id : EnclaveId
  name : String
  cloud : Option CloudTarget
  status : ProvisioningStatus
  createdAt : Option DateTime
  updatedAt : Option DateTime
  lastError : Option ResourceError
  partitions : List PartitionNode

/-- An import, with the partition that declares it, if one does. -/
structure ImportEdge : Type where
  from_ : EnclaveId
  to_ : EnclaveId
  partition : Option PartitionId
  export_ : String
  alias_ : String

structure SystemGraph : Type where
  nodes : List EnclaveNode
  edges : List ImportEdge

def EnclaveState.partitionNode (s : EnclaveState) (p : Partition) : PartitionNode :=
  { id := p.id
    name := p.name
    produces := p.produces
    status := ((s.partitions[p.id]?).map (·.meta_.status.display)).getD "pending" }

def EnclaveState.node (s : EnclaveState) : EnclaveNode :=
  { id := s.desired.id
    name := s.desired.name
    cloud := s.desired.cloud
    status := s.meta_.status
    createdAt := s.meta_.createdAt
    updatedAt := s.meta_.updatedAt
    lastError := s.meta_.lastError
    partitions := s.desired.partitions.map s.partitionNode }

/-- The edge of an import of the enclave. -/
def Enclave.importEdge (enc : Enclave) (partition : Option PartitionId) (im : Import) :
    ImportEdge :=
  { from_ := im.from_, to_ := enc.id, partition, export_ := im.exportName, alias_ := im.alias_ }

def Enclave.importEdges (enc : Enclave) : List ImportEdge :=
  enc.imports.map (enc.importEdge none) ++
    enc.partitions.flatMap fun part => part.imports.map (enc.importEdge (some part.id))

def systemGraph (all : List EnclaveState) : SystemGraph :=
  { nodes := all.map (·.node), edges := all.flatMap (·.desired.importEdges) }

/-- `GET /graph`. -/
def getSystemGraph : Api SystemGraph := do
  let all ← apiStoreCall (perform .listEnclaves)
  return systemGraph all

end Nclav
