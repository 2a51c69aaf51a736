import Nclav.Driver.Clouds

/-!
# The inventories of the clouds

Each public cloud is asked for what is left of a partition, and for what carries the label of a
partition that is not known. One query is sent for either, and the first page of its result is read.
-/

namespace Nclav

open Effect Serde

/-- A resource labelled with a partition that is not in the state. -/
structure OrphanedResource : Type where
  resourceName : String
  resourceType : String
  nclavPartition : String
  nclavEnclave : String

/-- The entries of an array in a document. -/
def entriesOf (v : Value) (k : String) : List Value := ((v.idx k).asArray).getD []

/-- The label of a partition that is not known. -/
def unknownLabel (known : List String) (labels : Value) : Option String :=
  let nclavPartition := strOr labels "nclav-partition" ""
  if nclavPartition.isEmpty then none
  else if known.contains nclavPartition then none
  else some nclavPartition

/-- The base URLs of the inventory services. -/
structure InventoryUrls : Type where
  cloudasset : String
  tagging : String
  graph : String

/-! ## Google Cloud -/

namespace GcpDriver

variable (d : GcpDriver)

/-- The resources whose name is read. -/
def resourceNames (resp : Value) : List String :=
  (entriesOf resp "results").filterMap fun r => (r.idx "name").asStr

def orphans (known : List String) (resp : Value) : List OrphanedResource :=
  (entriesOf resp "results").filterMap fun r =>
    (unknownLabel known (r.idx "labels")).map fun nclavPartition =>
      { resourceName := strOr r "name" "", resourceType := strOr r "assetType" "", nclavPartition,
        nclavEnclave := strOr (r.idx "labels") "nclav-enclave" "" }

/-- The body of an answer, whatever its status. -/
def searchBody : Except String JsonResponse → Except DriverError Value
  | .error e => .error (.internal s!"CAI searchAllResources: {e}")
  | .ok (_, .error e) => .error (.internal s!"CAI decode: {e}")
  | .ok (_, .ok body) => .ok body

def searchUrl (cloudasset projectId : String) : String :=
  s!"{cloudasset}/v1/projects/{projectId}:searchAllResources"

def partitionQuery (enclave : Enclave) (partition : Partition) : String :=
  s!"labels.nclav-partition={partition.id.val} AND labels.nclav-enclave={enclave.id.val}"

/-- One query. -/
def search (cloudasset : String) (enclave : Enclave) (encHandle : Handle) (query : String) :
    Cloud Value := do
  let token ← ask (request .bearer)
  let url := searchUrl cloudasset (d.authProject enclave encHandle)
  let sent ← send (.post url token (.object [("query", .str query)]))
  MonadExcept.ofExcept (searchBody sent)

def listPartitionResources (cloudasset : String) (enclave : Enclave) (encHandle : Handle)
    (partition : Partition) : Cloud (List String) := do
  let resp ← d.search cloudasset enclave encHandle (partitionQuery enclave partition)
  return resourceNames resp

def listOrphanedResources (cloudasset : String) (enclave : Enclave) (encHandle : Handle)
    (known : List String) : Cloud (List OrphanedResource) := do
  let resp ← d.search cloudasset enclave encHandle "labels.nclav-managed=true"
  return orphans known resp

end GcpDriver

/-! ## Amazon -/

namespace AwsDriver

variable (d : AwsDriver)

/-- `str::trim_end_matches('/')`. -/
def trimSlashes (s : String) : String :=
  String.ofList (s.toList.reverse.dropWhile (· = '/')).reverse

/-- What `json_api` makes of a response. -/
def jsonApiAnswer (baseUrl target : String) : Except String JsonResponse → Except DriverError Value
  | .error e => .error (.internal s!"POST {trimSlashes baseUrl}/ failed: {e}")
  | .ok (status, body) =>
    let respBody := match body with
      | .ok v => v
      | .error _ => .null
    if 400 ≤ status then
      let errorType := strOr respBody "__type" "Unknown"
      let msg := ((respBody.idx "message").asStr.orElse fun _ =>
        (respBody.idx "Message").asStr).getD "unknown error"
      .error (.provisionFailed s!"{baseUrl} [{target}]: {errorType} — {msg}")
    else .ok respBody

/-- The service in an ARN. -/
def serviceOf (arn : String) : String := ((arn.splitOn ":")[2]?).getD ""

/-- The tags of an item. -/
def tagsOf (item : Value) : HashMap String String :=
  (entriesOf item "Tags").foldl (fun tags t =>
    match (t.idx "Key").asStr, (t.idx "Value").asStr with
    | some k, some v => tags.insert k v
    | _, _ => tags) ∅

def mappings (resp : Value) : List (String × String × HashMap String String) :=
  (entriesOf resp "ResourceTagMappingList").map fun item =>
    let arn := strOr item "ResourceARN" ""
    (arn, serviceOf arn, tagsOf item)

/-- The tag of a partition that is not known. -/
def unknownTag (known : List String) (tags : HashMap String String) : Option String :=
  match tags["nclav-partition"]? with
  | none => none
  | some part => if known.contains part then none else some part

def orphans (known : List String) (resp : Value) : List OrphanedResource :=
  (mappings resp).filterMap fun (arn, rtype, tags) =>
    (unknownTag known tags).map fun part =>
      { resourceName := arn, resourceType := rtype, nclavPartition := part,
        nclavEnclave := (tags["nclav-enclave"]?).getD "" }

def taggingTarget : String := "ResourceGroupsTaggingAPI_20170126.GetResources"

def tagFilter (key value : String) : Value :=
  .object [("Key", .str key), ("Values", .arr [.str value])]

def partitionFilters (enclave : Enclave) (partition : Partition) : List Value :=
  [tagFilter "nclav-managed" "true", tagFilter "nclav-partition" partition.id.val,
    tagFilter "nclav-enclave" enclave.id.val]

def enclaveFilters (enclave : Enclave) : List Value :=
  [tagFilter "nclav-managed" "true", tagFilter "nclav-enclave" enclave.id.val]

/-- One query in the account of a handle; nothing where it names no account. -/
def taggingGetResources {α : Type} (tagging : String) (encHandle : Handle) (filters : List Value)
    (read : Value → List α) : Cloud (List α) := do
  let accountId := strOr encHandle "account_id" ""
  if accountId.isEmpty then return []
  else do
    let region := strOr encHandle "region" d.config.defaultRegion
    let creds ← d.enclaveCreds accountId
    let resp ← ask (request (.jsonApi tagging region "tagging" taggingTarget creds
      (.object [("TagFilters", .arr filters)])))
    return read resp

def listPartitionResources (tagging : String) (enclave : Enclave) (encHandle : Handle)
    (partition : Partition) : Cloud (List String) :=
  d.taggingGetResources tagging encHandle (partitionFilters enclave partition)
    fun resp => (mappings resp).map (·.1)

def listOrphanedResources (tagging : String) (enclave : Enclave) (encHandle : Handle)
    (known : List String) : Cloud (List OrphanedResource) :=
  d.taggingGetResources tagging encHandle (enclaveFilters enclave) (orphans known)

end AwsDriver

/-! ## Azure -/

namespace AzureDriver

/-- The body of an answer to a POST. -/
def postBody (url : String) : Except String JsonResponse → Except DriverError Value
  | .error e => .error (.provisionFailed s!"POST {url}: {e}")
  | .ok (status, body) =>
    let bodyVal := match body with
      | .ok v => v
      | .error _ => .null
    if success status = false ∧ status ≠ 202 then
      .error (.provisionFailed s!"POST {url}: status {status} — {parseArmError bodyVal}")
    else .ok bodyVal

def armPost (url : String) (body : Value) : Cloud Value := do
  let token ← ask (request .bearer)
  let sent ← send (.post url token body)
  MonadExcept.ofExcept (postBody url sent)

/-- The rows of a table. -/
def rowsOf (resp : Value) : List Value := entriesOf (resp.idx "data") "rows"

/-- The position of a column. -/
def column (resp : Value) (name : String) : Option Nat :=
  (entriesOf (resp.idx "data") "columns").findIdx? fun c => (c.idx "name").asStr = some name

/-- The cell of a row. -/
def cell (row : Value) (i : Option Nat) : Option Value :=
  row.asArray.bind fun cells => i.bind fun i => cells[i]?

def extractResourceNames (resp : Value) : List String :=
  let idIdx := (column resp "id").orElse fun _ => column resp "name"
  (rowsOf resp).filterMap fun row => (cell row idIdx).bind (·.asStr)

/-- The tags of a row. -/
def rowTags (resp row : Value) : Value := (cell row (column resp "tags")).getD .null

def orphans (known : List String) (resp : Value) : List OrphanedResource :=
  (rowsOf resp).filterMap fun row =>
    (unknownLabel known (rowTags resp row)).map fun nclavPartition =>
      { resourceName := (((cell row (column resp "id")).orElse fun _ =>
          cell row (column resp "name")).bind (·.asStr)).getD "",
        resourceType := ((cell row (column resp "type")).bind (·.asStr)).getD "", nclavPartition,
        nclavEnclave := strOr (rowTags resp row) "nclav-enclave" "" }

def graphUrl (graph : String) : String :=
  s!"{graph}/providers/Microsoft.ResourceGraph/resources?api-version=2021-03-01"

def graphBody (subId query : String) : Value :=
  .object [("subscriptions", .arr [.str subId]), ("query", .str query)]

/-- One query, an error being an empty result. -/
def queryOrNothing {α : Type} (url : String) (body : Value) (read : Value → List α) :
    Cloud (List α) := do
  let answered ← (monadLift (armPost url body).run : Cloud (Except DriverError Value))
  match answered with
  | .ok resp => return read resp
  | .error _ => return []

def partitionQuery (partition : Partition) : String :=
  "Resources | where tags['nclav-managed'] == 'true' and tags['nclav-partition'] == '" ++
    partition.id.val ++ "'"

def listPartitionResources (graph : String) (_enclave : Enclave) (encHandle : Handle)
    (partition : Partition) : Cloud (List String) := do
  let subId := strOr encHandle "subscription_id" ""
  if subId.isEmpty then return []
  else do
    let url := graphUrl graph
    let body := graphBody subId (partitionQuery partition)
    let probed ← send (.armGet url)
    let status := match probed with
      | .ok (status, _) => status
      | .error _ => 500
    -- the query is the same whatever the probe answers
    if status ≠ 200 then queryOrNothing url body extractResourceNames
    else queryOrNothing url body extractResourceNames

def orphansQuery : String :=
  "Resources | where tags['nclav-managed'] == 'true' and isnotempty(tags['nclav-partition'])"

def listOrphanedResources (graph : String) (_enclave : Enclave) (encHandle : Handle)
    (known : List String) : Cloud (List OrphanedResource) := do
  let subId := strOr encHandle "subscription_id" ""
  if subId.isEmpty then return []
  else queryOrNothing (graphUrl graph) (graphBody subId orphansQuery) (orphans known)

end AzureDriver

/-! ## The clouds -/

namespace CloudDrivers

variable (ds : CloudDrivers) (urls : InventoryUrls)

def listPartitionResources : CloudTarget → Enclave → Handle → Partition → Cloud (List String)
  | .local => fun _ _ _ => return []
  | .gcp => ds.gcp.listPartitionResources urls.cloudasset
  | .azure => AzureDriver.listPartitionResources urls.graph
  | .aws => ds.aws.listPartitionResources urls.tagging

def listOrphanedResources :
    CloudTarget → Enclave → Handle → List String → Cloud (List OrphanedResource)
  | .local => fun _ _ _ => return []
  | .gcp => ds.gcp.listOrphanedResources urls.cloudasset
  | .azure => AzureDriver.listOrphanedResources urls.graph
  | .aws => ds.aws.listOrphanedResources urls.tagging

end CloudDrivers

end Nclav
