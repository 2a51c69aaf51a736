import Nclav.Driver.Cloud

/-!
# The Azure driver

An enclave is a subscription with a resource group, a managed identity, a VNet and a private DNS
zone. A handle that is marked as complete is returned as it is.
-/

namespace Nclav

open Effect Serde

structure AzureDriverConfig : Type where
  tenantId : String
  managementGroupId : String
  billingAccountName : String
  billingProfileName : String
  invoiceSectionName : String
  defaultLocation : String
  subscriptionPrefix : Option String
  clientId : Option String
  clientSecret : Option String

structure AzureDriver : Type where
  lib : Lib
  config : AzureDriverConfig
  /-- the base URL of the management API -/
  management : String
  /-- `IDENTITY_ENDPOINT` is set -/
  identityEndpoint : Bool

namespace AzureDriver

/-! ### Names -/

/-- The next character of an alias, `out` being reversed. -/
def sanitizeChar (c : Char) (out : List Char) : List Char :=
  if c.isAlphanum || c = '-' || c = '_' || c = '.' then c :: out
  else match out with
    | [] => []
    | '-' :: _ => out
    | _ => '-' :: out

/-- The loop over the text, which stops at 63 characters. -/
def sanitizeLoop : List Char → List Char → List Char
  | [], out => out
  | c :: cs, out => if out.length = 63 then out else sanitizeLoop cs (sanitizeChar c out)

def sanitizeSubscriptionAlias (raw : String) : String :=
  String.ofList ((sanitizeLoop raw.toList []).dropWhile fun c => !c.isAlphanum).reverse

variable (d : AzureDriver)

def subscriptionAlias (enclaveId : String) : String :=
  sanitizeSubscriptionAlias (match d.config.subscriptionPrefix with
    | some pre => if pre.isEmpty then enclaveId else s!"{pre}-{enclaveId}"
    | none => enclaveId)

/-- The managed identity of a partition, or nothing where the id is cut within a character. -/
def partitionMiName (partitionId : String) : Option String :=
  let candidate := s!"partition-{partitionId}"
  if candidate.utf8ByteSize ≤ 64 then some candidate
  else (bytePrefix partitionId (min 19 partitionId.utf8ByteSize)).map fun truncated =>
    s!"pt-{truncated}-" ++ String.ofList ((d.lib.defaultHash partitionId).toList.take 6)

def billingScope : String :=
  s!"/providers/Microsoft.Billing/billingAccounts/{d.config.billingAccountName}" ++
    s!"/billingProfiles/{d.config.billingProfileName}" ++
    s!"/invoiceSections/{d.config.invoiceSectionName}"

/-! ### The pure methods -/

def contextVars (enclave : Enclave) (handle : Handle) : HashMap String String :=
  let subId := strOr handle "subscription_id" ""
  let location := strOr handle "location" d.config.defaultLocation
  let miClientId := strOr handle "identity_client_id" ""
  ([("nclav_project_id", subId),
    ("nclav_region", location),
    ("nclav_subscription_id", subId),
    ("nclav_resource_group", "nclav-rg"),
    ("nclav_location", location),
    ("nclav_identity_client_id", miClientId),
    ("nclav_enclave", enclave.id.val)]).foldl (fun m e => m.insert e.1 e.2) ∅

def authEnv (_enclave : Enclave) (handle : Handle) : HashMap String String :=
  let subId := strOr handle "subscription_id" ""
  let env := ((∅ : HashMap String String).insert "ARM_TENANT_ID" d.config.tenantId).insert
    "ARM_SUBSCRIPTION_ID" subId
  let env := match d.config.clientId with
    | some cid => env.insert "ARM_CLIENT_ID" cid
    | none => env
  let env := match d.config.clientSecret with
    | some cs => env.insert "ARM_CLIENT_SECRET" cs
    | none => env
  -- without a service principal Terraform is told to use the machine's identity
  if (d.config.clientId.isNone || d.config.clientSecret.isNone) && d.identityEndpoint then
    env.insert "ARM_USE_MSI" "true"
  else env

/-- The driver as the registry holds it. -/
def driver : Driver where
  name := "azure"
  contextVars := d.contextVars
  authEnv := d.authEnv

/-! ### Requests -/

def parseArmError (body : Value) : String :=
  let err := ((body.get? "error").orElse fun _ => body.get? "Error").getD body
  let code := strOr err "code" "Unknown"
  let message := strOr err "message" "unknown error"
  s!"{code}: {message}"

def success (status : Nat) : Bool := 200 ≤ status && status < 300

/-- A PUT, waited for. -/
def armPutAndWait (url : String) (body : Value) : Cloud Value := do
  let (status, answer, asyncOp) ← ask (request (.armPut url body))
  if status = 200 ∨ status = 201 then
    if (answer.get? "error").isSome then
      throw (.provisionFailed s!"PUT {url}: {parseArmError answer}")
    else return answer
  else if status = 202 then
    match asyncOp with
    | some opUrl => ask (request (.waitForOperation opUrl))
    | none => return answer
  else if status = 409 then
    throw (.provisionFailed s!"PUT {url} conflict (409): {parseArmError answer}")
  else throw (.provisionFailed s!"PUT {url}: status {status} — {parseArmError answer}")

/-- The subscription that an alias document names. -/
def subscriptionIdOf (body : Value) : Option String :=
  ((body.idx "properties").idx "subscriptionId").asStr

/-- Step 1: the subscription behind an alias. -/
def createSubscription (alias_ displayName : String) : Cloud String := do
  let url := s!"{d.management}/providers/Microsoft.Subscription/aliases/{alias_}?api-version=2021-10-01"
  let (status, body, asyncOp) ← ask (request (.armPut url
    (.object [("properties", .object
      [("displayName", .str displayName),
       ("billingScope", .str d.billingScope),
       ("workload", .str "Production")])])))
  match decide (status = 200 ∨ status = 201), subscriptionIdOf body with
  | true, some subId => return subId
  | _, _ =>
    if status = 202 then do
      let opUrl ← orThrow
        (.provisionFailed "subscription alias PUT 202: no Azure-AsyncOperation header") asyncOp
      let result ← ask (request (.waitForOperation opUrl))
      let (_, aliasBody) ← ask (request (.armGet url))
      orThrow (.provisionFailed "subscription alias: no subscriptionId in operation result")
        (((subscriptionIdOf aliasBody).orElse fun _ => (result.idx "subscriptionId").asStr).orElse
          fun _ => subscriptionIdOf result)
    else if status = 409 then do
      let (getStatus, getBody) ← ask (request (.armGet url))
      orThrow (.provisionFailed
          s!"subscription alias 409 and GET returned {getStatus}: {parseArmError getBody}")
        (if getStatus = 200 then subscriptionIdOf getBody else none)
    else throw (.provisionFailed
      s!"create subscription alias '{alias_}': status {status} — {parseArmError body}")

/-- Step 2: into the management group. -/
def moveToManagementGroup (subId : String) : Cloud Unit := do
  let mg := d.config.managementGroupId
  let (status, body, _) ← ask (request (.armPut
    (s!"{d.management}/providers/Microsoft.Management/managementGroups/{mg}" ++
      s!"/subscriptions/{subId}?api-version=2020-05-01") (.object [])))
  if success status then return
  -- it is there already
  else if status = 409 then return
  else throw (.provisionFailed
    s!"move subscription {subId} to MG {mg}: status {status} — {parseArmError body}")

/-- What every resource is tagged with. -/
def tags (enclaveId : String) : Value :=
  .object [("nclav-managed", .str "true"), ("nclav-enclave", .str enclaveId)]

/-- Step 3: the resource group. -/
def createResourceGroup (subId location enclaveId : String) : Cloud Unit :=
  tryCatch
    (do
      let _ ← armPutAndWait
        s!"{d.management}/subscriptions/{subId}/resourcegroups/nclav-rg?api-version=2021-04-01"
        (.object [("location", .str location), ("tags", tags enclaveId)])
      return)
    fun e => if d.lib.mentions e "conflict" then return else throw e

/-- A path under the resource group of a subscription. -/
def groupUrl (subId path : String) : String :=
  s!"{d.management}/subscriptions/{subId}/resourceGroups/nclav-rg/providers/{path}"

def identityUrl (subId name : String) : String :=
  d.groupUrl subId
    s!"Microsoft.ManagedIdentity/userAssignedIdentities/{name}?api-version=2023-01-31"

/-- A managed identity: its resource, principal and client ids. -/
def createManagedIdentity (subId name location enclaveId : String) (partitionId : Option String) :
    Cloud (String × String × String) := do
  let tags := match partitionId with
    | some partId => (tags enclaveId).set "nclav-partition" (.str partId)
    | none => tags enclaveId
  let (status, body, _) ← ask (request (.armPut (d.identityUrl subId name)
    (.object [("location", .str location), ("tags", tags)])))
  if success status then
    return (strOr body "id" "", strOr (body.idx "properties") "principalId" "",
      strOr (body.idx "properties") "clientId" "")
  else throw (.provisionFailed
    s!"create managed identity '{name}': status {status} — {parseArmError body}")

def vnetUrl (subId : String) : String :=
  d.groupUrl subId "Microsoft.Network/virtualNetworks/nclav-vnet?api-version=2023-11-01"

/-- The subnets of a VNet document. -/
def subnetDocs (subnets : List String) : Value :=
  .arr (subnets.zipIdx.map fun s => .object
    [("name", .str s!"subnet-{s.2}"),
     ("properties", .object [("addressPrefix", .str s.1)])])

def vnetBody (enclave : Enclave) (cidr : String) (subnets : List String) : Value :=
  .object
    [("location", .str enclave.region),
     ("tags", tags enclave.id.val),
     ("properties", .object
       [("addressSpace", .object [("addressPrefixes", .arr [.str cidr])]),
        ("subnets", subnetDocs subnets)])]

/-- An error with a prefix. -/
def prefixed {α : Type} (label : String) (x : Cloud α) : Cloud α :=
  tryCatch x fun e => throw (.provisionFailed s!"{label}: {e}")

/-- Step 5: the VNet with all its subnets, if there is a network; its id. -/
def createVnet (subId : String) (enclave : Enclave) : Cloud String :=
  match enclave.network with
  | none => return ""
  | some network => do
    let created ← prefixed "create VNet" (armPutAndWait (d.vnetUrl subId)
      (vnetBody enclave (network.vpcCidr.getD "10.0.0.0/16") network.subnets))
    let vnetId := strOr created "id" ""
    if vnetId.isEmpty then do
      let (_, read) ← ask (request (.armGet (d.vnetUrl subId)))
      return strOr read "id" ""
    else return vnetId

def zoneUrl (subId zone : String) : String :=
  d.groupUrl subId s!"Microsoft.Network/privateDnsZones/{zone}?api-version=2020-06-01"

/-- Step 6: the private DNS zone and its link to the VNet, if there are these. -/
def createDnsZone (subId vnetId : String) (enclave : Enclave) : Cloud String :=
  match enclave.zone with
  | none => return ""
  | some zone => do
    let _ ← prefixed "create DNS zone" (armPutAndWait (d.zoneUrl subId zone)
      (.object [("location", .str "global"), ("tags", tags enclave.id.val)]))
    if !vnetId.isEmpty then
      let _ ← prefixed "create DNS VNet link" (armPutAndWait
        (d.groupUrl subId (s!"Microsoft.Network/privateDnsZones/{zone}" ++
          "/virtualNetworkLinks/nclav-link?api-version=2020-06-01"))
        (.object
          [("location", .str "global"),
           ("properties", .object
             [("virtualNetwork", .object [("id", .str vnetId)]),
              ("registrationEnabled", .bool false)])]))
    return zone

/-- All steps, and the complete handle. -/
def createEnclave (enclave : Enclave) : Cloud ProvisionResult := do
  let enclaveId := enclave.id.val
  let alias_ := d.subscriptionAlias enclaveId
  let location := enclave.region
  let subId ← d.createSubscription alias_ enclave.name
  d.moveToManagementGroup subId
  d.createResourceGroup subId location enclaveId
  let (resourceId, principalId, clientId) ← d.createManagedIdentity subId
    (enclave.identity.getD "nclav-identity") location enclaveId none
  let vnetId ← d.createVnet subId enclave
  let dnsZoneName ← d.createDnsZone subId vnetId enclave
  return {
    handle := .object
      [("driver", .str "azure"),
       ("kind", .str "enclave"),
       ("subscription_id", .str subId),
       ("subscription_alias", .str alias_),
       ("resource_group", .str "nclav-rg"),
       ("location", .str location),
       ("identity_resource_id", .str resourceId),
       ("identity_principal_id", .str principalId),
       ("identity_client_id", .str clientId),
       ("vnet_resource_id", .str vnetId),
       ("dns_zone_name", .str dnsZoneName),
       ("provisioning_complete", .bool true)]
    outputs := ∅ }

def provisionEnclave (enclave : Enclave) (existing : Option Handle) : Cloud ProvisionResult :=
  match existing with
  | some handle =>
    if handle.complete then return { handle, outputs := ∅ } else d.createEnclave enclave
  | none => d.createEnclave enclave

/-! ### What is created -/

/-- The answer to a PUT is a success. -/
def accepted (r : Except DriverError (Nat × Value × Option String)) : Bool :=
  match r with
  | .ok (status, _, _) => success status
  | .error _ => false

/-- The enclave that a document is tagged with. -/
def taggedWith (body : Value) (id : EnclaveId) : Prop :=
  (body.idx "tags").idx "nclav-enclave" = .str id.val

/-- An accepted creation of a part of an enclave. -/
def creates (id : EnclaveId) : Resource → CloudEvent → Prop
  | .subnet cidr, ev => ∃ subId body subnets r, ev = ⟨.armPut (d.vnetUrl subId) body, r⟩ ∧
      taggedWith body id ∧ (body.idx "properties").idx "subnets" = subnetDocs subnets ∧
        cidr ∈ subnets ∧ accepted r = true
  | .zone name, ev => ∃ subId body r, ev = ⟨.armPut (d.zoneUrl subId name) body, r⟩ ∧
      taggedWith body id ∧ accepted r = true
  | .identity name, ev => ∃ subId body r, ev = ⟨.armPut (d.identityUrl subId name) body, r⟩ ∧
      taggedWith body id ∧ accepted r = true

variable {d}

/-- A PUT that is waited for succeeds only if it was accepted. -/
theorem armPutAndWait_records {url : String} {body : Value} {p : CloudEvent → Prop}
    (h : ∀ r, accepted r = true → p ⟨.armPut url body, r⟩) : Records p (armPutAndWait url body) := by
  refine Records.call_then (R := CloudResp) (c := CloudCall.armPut url body) (f := fun r => r) fun r b hr => ?_
  obtain ⟨status, answer, asyncOp⟩ := b
  simp only []
  split
  · rename_i hstatus
    refine .inl (h r ?_)
    rcases hstatus with rfl | rfl <;> rw [hr] <;> rfl
  split
  · rename_i hstatus
    subst hstatus
    exact .inl (h r (by rw [hr]; rfl))
  split
  · exact .inr ⟨_, rfl⟩
  · exact .inr ⟨_, rfl⟩

/-- An error that is given a prefix is an error still. -/
theorem prefixed_records {α : Type} {label : String} {x : Cloud α} {p : CloudEvent → Prop}
    (hx : Records p x) : Records p (prefixed label x) :=
  hx.tryCatch fun _ => Records.throw _

theorem createManagedIdentity_records {subId name location enclaveId : String}
    {partitionId : Option String} {p : CloudEvent → Prop}
    (h : ∀ body r, taggedWith body ⟨enclaveId⟩ → accepted r = true →
      p ⟨.armPut (d.identityUrl subId name) body, r⟩) :
    Records p (d.createManagedIdentity subId name location enclaveId partitionId) := by
  have hput : ∀ body : Value, taggedWith body ⟨enclaveId⟩ → Records p (do
      let (status, answer, _) ← ask (request (.armPut (d.identityUrl subId name) body))
      if success status then
        return (strOr answer "id" "", strOr (answer.idx "properties") "principalId" "",
          strOr (answer.idx "properties") "clientId" "")
      else throw (.provisionFailed
        s!"create managed identity '{name}': status {status} — {parseArmError answer}")) := by
    intro body htags
    refine Records.call_then (R := CloudResp)
      (c := CloudCall.armPut (d.identityUrl subId name) body) (f := fun r => r) fun r b hr => ?_
    obtain ⟨status, answer, asyncOp⟩ := b
    simp only []
    split
    · rename_i hstatus
      exact .inl (h body r htags (by rw [hr]; exact hstatus))
    · exact .inr ⟨_, rfl⟩
  cases partitionId with
  | none =>
    refine hput _ ?_
    simp [taggedWith, tags, Value.idx_object, Value.lookup_cons_eq_ite]
  | some partId =>
    refine hput _ ?_
    simp [taggedWith, tags, Value.idx_object, Value.idx_set_object, Value.lookup_cons_eq_ite]

/-- Provisioning every part from the first step on. -/
theorem createEnclave_records (enc : Enclave) {part : Resource} (hpart : part ∈ enc.resources) :
    Records (d.creates enc.id part) (d.createEnclave enc) := by
  refine .bind_right fun subId => .bind_right fun _ => .bind_right fun _ => ?_
  rcases mem_resources hpart with ⟨cidr, hcidr, rfl⟩ | ⟨name, hname, rfl⟩ | ⟨name, hname, rfl⟩
  · refine .bind_right fun _ => .bind_left ?_
    rw [Enclave.subnets] at hcidr
    rcases hnetwork : enc.network with _ | network
    · rw [hnetwork] at hcidr
      exact absurd hcidr List.not_mem_nil
    rw [hnetwork] at hcidr
    rw [createVnet, hnetwork]
    refine .bind_left (prefixed_records (armPutAndWait_records fun r hr =>
      ⟨_, _, network.subnets, r, rfl, ?_, ?_, hcidr, hr⟩))
    · simp [taggedWith, vnetBody, tags, Value.idx_object, Value.lookup_cons_eq_ite]
    · simp [vnetBody, Value.idx_object, Value.lookup_cons_eq_ite]
  · refine .bind_right fun _ => .bind_right fun vnetId => .bind_left ?_
    rw [createDnsZone, hname]
    refine .bind_left (prefixed_records (armPutAndWait_records fun r hr =>
      ⟨_, _, r, rfl, ?_, hr⟩))
    simp [taggedWith, tags, Value.idx_object, Value.lookup_cons_eq_ite]
  · refine .bind_left (createManagedIdentity_records fun body r htags hr => ?_)
    rw [hname]
    exact ⟨_, body, r, rfl, htags, hr⟩

theorem createEnclave_complete (enc : Enclave) :
    Returns (fun result => Handle.complete result.handle = true) (d.createEnclave enc) := by
  refine .bind_right fun _ => .bind_right fun _ => .bind_right fun _ => .bind_right fun _ =>
    .bind_right fun _ => .bind_right fun _ => .pure ?_
  simp [Handle.complete, Value.idx_object, Value.lookup_cons_eq_ite, Value.asBool]

/-- **What the Azure driver's provisioning of an enclave comes to.** -/
theorem provisionEnclave_provides (enc : Enclave) (existing : Option Handle) :
    Provides d.creates enc existing (d.provisionEnclave enc existing) := by
  have hcreate : ∀ existing, Provides d.creates enc existing (d.createEnclave enc) :=
    fun _ => .of_records (createEnclave_complete enc) fun part hpart =>
      createEnclave_records enc hpart
  cases existing with
  | none => exact hcreate none
  | some handle =>
    rw [provisionEnclave]
    split
    · rename_i hcomplete
      exact .reuse hcomplete
    · exact hcreate (some handle)

variable (d)

/-! ### Provisioning a partition -/

def assignRole (scope roleDefinitionId principalId : String) : Cloud Unit := do
  let assignmentId ← send .newUuid
  let (status, body, _) ← ask (request (.armPut
    (s!"{d.management}{scope}/providers/Microsoft.Authorization/roleAssignments/" ++
      s!"{assignmentId}?api-version=2022-04-01")
    (.object [("properties", .object
      [("roleDefinitionId", .str roleDefinitionId),
       ("principalId", .str principalId),
       ("principalType", .str "ServicePrincipal")])])))
  if success status then return
  -- the assignment exists
  else if status = 409 then return
  else throw (.provisionFailed
    s!"assign role on {scope}: status {status} — {parseArmError body}")

/-- The subscription that a partition is provisioned in. -/
def subscriptionId (enclave : Enclave) (resolvedInputs : HashMap String String)
    (existing : Option Handle) : String :=
  ((resolvedInputs["nclav_subscription_id"]?.orElse
    fun _ => existing.bind fun h => (h.idx "subscription_id").asStr).orElse
    fun _ => enclave.identity).getD ""

/-- The handle of a partition that is provisioned already. -/
def isPartitionHandle (h : Handle) : Bool :=
  (h.idx "kind").asStr = some "partition" && (h.idx "driver").asStr = some "azure"

/-- The managed identity of a partition, a contributor to its subscription. -/
def createPartition (enclave : Enclave) (partition : Partition) (subId location : String) :
    Cloud ProvisionResult := do
  let miName ← orAbort (d.partitionMiName partition.id.val)
  let (resourceId, principalId, clientId) ← d.createManagedIdentity subId miName location
    enclave.id.val (some partition.id.val)
  -- a missing grant is not fatal
  let _ ← tryCatch (d.assignRole s!"/subscriptions/{subId}"
    (s!"/subscriptions/{subId}/providers/Microsoft.Authorization/roleDefinitions/" ++
      "b24988ac-6180-42a0-ab88-20f7382dd24c") principalId) fun _ => return
  return {
    handle := .object
      [("driver", .str "azure"),
       ("kind", .str "partition"),
       ("type", .str "iac"),
       ("subscription_id", .str subId),
       ("resource_group", .str "nclav-rg"),
       ("partition_identity_resource_id", .str resourceId),
       ("partition_identity_principal_id", .str principalId),
       ("partition_identity_client_id", .str clientId)]
    outputs := ∅ }

/-- The error of a partition whose subscription is not known. -/
def noSubscription (enclave : Enclave) : DriverError :=
  .provisionFailed (s!"provision_partition for enclave '{enclave.id.val}': cannot determine Azure " ++
    "subscription ID. Ensure provision_enclave has run first (subscription_id is injected via " ++
    "context_vars → nclav_subscription_id).")

def provisionPartition (enclave : Enclave) (partition : Partition)
    (resolvedInputs : HashMap String String) (existing : Option Handle) :
    Cloud ProvisionResult :=
  match existing.filter isPartitionHandle with
  | some handle => return { handle, outputs := ∅ }
  | none =>
    let subId := subscriptionId enclave resolvedInputs existing
    if subId.isEmpty then throw (noSubscription enclave)
    else d.createPartition enclave partition subId
      (resolvedInputs["nclav_location"]?.getD enclave.region)

/-- Delete the managed identity; a failure is not fatal. -/
def teardownPartition (_enclave : Enclave) (partition : Partition) (handle : Handle) :
    Cloud Unit :=
  let subId := strOr handle "subscription_id" ""
  if subId.isEmpty then return
  else do
    let miName ← orAbort (d.partitionMiName partition.id.val)
    let _ ← send (.armDelete (d.identityUrl subId miName))
    return

/-! ### An export -/

/-- The host of a URL. -/
def extractUrlHostname (url : String) : String :=
  let rest (scheme : String) := if scheme.toList.isPrefixOf url.toList then
    some (url.toList.drop scheme.length) else none
  let withoutProto := ((rest "https://").orElse fun _ => rest "http://").getD url.toList
  String.ofList ((withoutProto.takeWhile (· ≠ '/')).takeWhile (· ≠ ':'))

/-- A handle of this kind that the driver has returned before. -/
def isHandleOf (kind : String) (h : Handle) : Bool :=
  (h.idx "driver").asStr = some "azure" && (h.idx "kind").asStr = some kind

/-- The address of a Service Bus topic. -/
def queueUrl (nsName topicName : String) : String := s!"{nsName}.servicebus.windows.net/{topicName}"

def exportOutputsFromHandle (h : Handle) : HashMap String String :=
  let insertOpt (m : HashMap String String) (k : String) : Option String → HashMap String String
    | some v => m.insert k v
    | none => m
  let port := (asU64 (h.idx "port")).map toString
  match (h.idx "type").asStr with
  | some "http" =>
    insertOpt (insertOpt ∅ "hostname" ((h.idx "endpoint_url").asStr.map extractUrlHostname)) "port" port
  | some "tcp" => insertOpt (insertOpt ∅ "pls_resource_id" (h.idx "pls_resource_id").asStr) "port" port
  | some "queue" =>
    match (h.idx "service_bus_namespace_name").asStr, (h.idx "topic_name").asStr with
    | some ns, some topic => (∅ : HashMap String String).insert "queue_url" (queueUrl ns topic)
    | _, _ => ∅
  | _ => ∅

/-- An output of the partition that must be there. -/
def requiredOutput (partitionOutputs : HashMap String String) (error output : String) : Cloud String :=
  orThrow (.provisionFailed error) partitionOutputs[output]?

/-- The result of an export. -/
def exportResult (type : String) (enclave : Enclave) (ex : Export) (fields : List (String × Value))
    (outputs : List (String × String)) : ProvisionResult where
  handle := .object
    ([("driver", .str "azure"),
      ("kind", .str "export"),
      ("type", .str type),
      ("subscription_id", .str enclave.id.val),
      ("resource_group", .str "nclav-rg"),
      ("export_name", .str ex.name)] ++ fields)
  outputs := outputs.foldl (fun m o => m.insert o.1 o.2) ∅

/-- The export of a partition that is exported for the first time. -/
def createExport (enclave : Enclave) (ex : Export) (partitionOutputs : HashMap String String) :
    Cloud ProvisionResult :=
  let portOr (dflt : Nat) := (partitionOutputs["port"]?.bind parseU16).getD dflt
  match ex.exportType with
  | .http => do
    let plsResourceId := partitionOutputs["pls_id"]?.getD ""
    let endpointUrl ← requiredOutput partitionOutputs
      (s!"provision_export '{ex.name}': missing Terraform output 'endpoint_url' — " ++
        "your .tf must declare output \"endpoint_url\"") "endpoint_url"
    let port := portOr 443
    return exportResult "http" enclave ex
      [("pls_resource_id", .str plsResourceId), ("endpoint_url", .str endpointUrl), ("port", .num port)]
      [("hostname", extractUrlHostname endpointUrl), ("port", toString port)]
  | .tcp => do
    let plsResourceId ← requiredOutput partitionOutputs
      (s!"provision_export '{ex.name}': missing Terraform output 'pls_id' — " ++
        "your .tf must declare output \"pls_id\"") "pls_id"
    let port := portOr 0
    return exportResult "tcp" enclave ex
      [("pls_resource_id", .str plsResourceId), ("port", .num port)]
      [("pls_resource_id", plsResourceId), ("port", toString port)]
  | .queue => do
    let missing (output : String) :=
      s!"provision_export '{ex.name}': missing Terraform output '{output}'"
    let nsName ← requiredOutput partitionOutputs (missing "service_bus_namespace_name")
      "service_bus_namespace_name"
    let topicName ← requiredOutput partitionOutputs (missing "topic_name") "topic_name"
    let sbResourceId ← requiredOutput partitionOutputs (missing "service_bus_resource_id")
      "service_bus_resource_id"
    return exportResult "queue" enclave ex
      [("service_bus_namespace_name", .str nsName), ("topic_name", .str topicName),
       ("service_bus_resource_id", .str sbResourceId)]
      [("queue_url", queueUrl nsName topicName)]

def provisionExport (enclave : Enclave) (ex : Export) (partitionOutputs : HashMap String String)
    (existing : Option Handle) : Cloud ProvisionResult :=
  match existing.filter (isHandleOf "export") with
  | some handle => return { handle, outputs := exportOutputsFromHandle handle }
  | none => createExport enclave ex partitionOutputs

/-! ### An import -/

def importOutputsFromHandle (h : Handle) : HashMap String String :=
  match (h.idx "type").asStr with
  | some "http" | some "tcp" =>
    match (h.idx "private_ip").asStr with
    | some ip => (∅ : HashMap String String).insert "hostname" ip
    | none => ∅
  | some "queue" =>
    match (h.idx "queue_url").asStr with
    | some url => (∅ : HashMap String String).insert "queue_url" url
    | none => ∅
  | _ => ∅

/-- The subscription of the importer: that of the handle there is, or else its identity. -/
def importerSubscription (importer : Enclave) (existing : Option Handle) : String :=
  ((existing.bind fun h => (h.idx "subscription_id").asStr).orElse fun _ => importer.identity).getD ""

/-- A private endpoint in the importer's subnet, with `mark` in its name. -/
def createPrivateEndpoint (importer : Enclave) (im : Import) (importerSub mark serviceId : String)
    (groupIds : List (String × Value)) : Cloud Value :=
  armPutAndWait
    (d.groupUrl importerSub
      s!"Microsoft.Network/privateEndpoints/{im.alias_}{mark}-pe?api-version=2023-11-01")
    (.object
      [("location", .str importer.region),
       ("tags", tags importer.id.val),
       ("properties", .object
         [("subnet", .object [("id", .str (s!"/subscriptions/{importerSub}/resourceGroups/" ++
            "nclav-rg/providers/Microsoft.Network/virtualNetworks/nclav-vnet/subnets/subnet-0"))]),
          ("privateLinkServiceConnections", .arr [.object
            [("name", .str s!"{im.alias_}{mark}-connection"),
             ("properties", .object
               ([("privateLinkServiceId", .str serviceId)] ++ groupIds ++
                [("requestMessage", .str s!"nclav import {im.alias_}")]))]])])])

/-- The private address behind an endpoint. -/
def privateIp (endpoint : Value) : Cloud String :=
  let nicResourceId := ((((((endpoint.idx "properties").idx "networkInterfaces").asArray).bind
    (·.head?)).bind fun nic => (nic.idx "id").asStr)).getD ""
  if nicResourceId.isEmpty then return "10.0.0.0"
  else do
    let (_, nic) ← ask (request (.armGet s!"{d.management}{nicResourceId}?api-version=2023-11-01"))
    return ((((((nic.idx "properties").idx "ipConfigurations").asArray).bind (·.head?)).bind
      fun cfg => ((cfg.idx "properties").idx "privateIPAddress").asStr)).getD "10.0.0.0"

/-- The result of an import over a private endpoint. -/
def endpointResult (exportType importerSub : String) (endpoint : Value)
    (ip recordName hostname : String) (port : Nat) : ProvisionResult where
  handle := .object
    [("driver", .str "azure"),
     ("kind", .str "import"),
     ("type", .str exportType),
     ("subscription_id", .str importerSub),
     ("resource_group", .str "nclav-rg"),
     ("private_endpoint_resource_id", .str (strOr endpoint "id" "")),
     ("private_ip", .str ip),
     ("dns_record_name", .str recordName)]
  outputs := ((∅ : HashMap String String).insert "hostname" hostname).insert "port" (toString port)

/-- An import of a service: with a DNS record if the importer has a zone. -/
def createServiceImport (importer : Enclave) (im : Import) (exportHandle : Handle)
    (exportType importerSub : String) : Cloud ProvisionResult := do
  let plsResourceId ← orThrow (.provisionFailed (s!"provision_import '{im.alias_}': export handle " ++
    "missing 'pls_resource_id'. Ensure the exporter's Terraform declares output \"pls_id\"."))
    (exportHandle.idx "pls_resource_id").asStr
  let port := (asU64 (exportHandle.idx "port")).getD 443 % 2 ^ 16
  if importerSub.isEmpty then
    throw (.provisionFailed (s!"provision_import '{im.alias_}': cannot determine importer " ++
      s!"subscription ID. Ensure the importer enclave '{importer.id.val}' is provisioned first."))
  let endpoint ← prefixed "create private endpoint"
    (d.createPrivateEndpoint importer im importerSub "" plsResourceId [])
  let ip ← d.privateIp endpoint
  match importer.zone with
  | some zone => do
    let _ ← prefixed "create DNS A record" (armPutAndWait
      (d.groupUrl importerSub
        s!"Microsoft.Network/privateDnsZones/{zone}/A/{im.alias_}?api-version=2020-06-01")
      (.object [("properties", .object
        [("ttl", .num 300), ("aRecords", .arr [.object [("ipv4Address", .str ip)]])])]))
    return endpointResult exportType importerSub endpoint ip im.alias_ s!"{im.alias_}.{zone}" port
  | none => return endpointResult exportType importerSub endpoint ip "" ip port

/-- The result of an import of a queue. -/
def queueResult (im : Import) (exportHandle : Handle) (importerSub : String) : ProvisionResult where
  handle := .object
    [("driver", .str "azure"),
     ("kind", .str "import"),
     ("type", .str "queue"),
     ("subscription_id", .str importerSub),
     ("resource_group", .str "nclav-rg"),
     ("alias", .str im.alias_)]
  outputs := (∅ : HashMap String String).insert "queue_url"
    (queueUrl (strOr exportHandle "service_bus_namespace_name" "")
      (strOr exportHandle "topic_name" ""))

/-- An import of a queue. The principal that would be granted access to it is the empty text here,
so no role is assigned. -/
def createQueueImport (importer : Enclave) (im : Import) (exportHandle : Handle)
    (importerSub : String) : Cloud ProvisionResult := do
  let sbResourceId ← orThrow (.provisionFailed
    s!"provision_import '{im.alias_}': export handle missing 'service_bus_resource_id'")
    (exportHandle.idx "service_bus_resource_id").asStr
  if importerSub.isEmpty then
    throw (.provisionFailed
      s!"provision_import '{im.alias_}': cannot determine importer subscription ID")
  let _ ← prefixed "create SB private endpoint" (d.createPrivateEndpoint importer im importerSub
    "-sb" sbResourceId [("groupIds", .arr [.str "namespace"])])
  return queueResult im exportHandle importerSub

/-- An import that is wired for the first time. -/
def createImport (importer : Enclave) (im : Import) (exportHandle : Handle)
    (existing : Option Handle) : Cloud ProvisionResult :=
  let exportType := strOr exportHandle "type" "http"
  let importerSub := importerSubscription importer existing
  if exportType = "http" ∨ exportType = "tcp" then
    d.createServiceImport importer im exportHandle exportType importerSub
  else if exportType = "queue" then d.createQueueImport importer im exportHandle importerSub
  else throw (.provisionFailed
    s!"provision_import '{im.alias_}': unknown export type '{exportType}'")

def provisionImport (importer : Enclave) (im : Import) (exportHandle : Handle)
    (existing : Option Handle) : Cloud ProvisionResult :=
  match existing.filter (isHandleOf "import") with
  | some handle => return { handle, outputs := importOutputsFromHandle handle }
  | none => d.createImport importer im exportHandle existing

end AzureDriver

end Nclav
