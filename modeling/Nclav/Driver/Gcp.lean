import Nclav.Driver.Cloud

/-!
# The GCP driver

An enclave is a project with a service account, a VPC, subnets and a private DNS zone. Every
creation that answers "already exists" counts as done; a handle that is marked as complete is
returned as it is as long as its project can be read.
-/

namespace Nclav

open Effect Serde

structure GcpDriverConfig : Type where
  parent : String
  billingAccount : String
  projectPrefix : Option String

structure GcpBaseUrls : Type where
  resourcemanager : String
  compute : String
  run : String
  iam : String
  pubsub : String
  serviceusage : String
  cloudbilling : String
  dns : String

structure GcpDriver : Type where
  lib : Lib
  config : GcpDriverConfig
  base : GcpBaseUrls
  /-- in production the service account key that Terraform authenticates with -/
  keyFile : Option String

namespace GcpDriver

def requiredApis : List String :=
  ["compute.googleapis.com", "run.googleapis.com", "iam.googleapis.com",
    "cloudresourcemanager.googleapis.com", "dns.googleapis.com", "pubsub.googleapis.com",
    "sqladmin.googleapis.com", "servicenetworking.googleapis.com",
    "cloudbilling.googleapis.com", "cloudasset.googleapis.com"]

/-! ### Names -/

/-- The next character of a project id, `out` being reversed. -/
def sanitizeChar (c : Char) (out : List Char) (prevHyphen : Bool) : List Char × Bool :=
  if ('a' ≤ c ∧ c ≤ 'z') ∨ ('0' ≤ c ∧ c ≤ '9') then (c :: out, false)
  else if !prevHyphen && !out.isEmpty then ('-' :: out, true)
  else (out, prevHyphen)

/-- The loop over the lowercased text, which stops at 30 characters. -/
def sanitizeLoop : List Char → List Char → Bool → List Char
  | [], out, _ => out
  | c :: cs, out, prevHyphen =>
    if out.length = 30 then out
    else sanitizeLoop cs (sanitizeChar c out prevHyphen).1 (sanitizeChar c out prevHyphen).2

/-- A project id: lowercase letters, digits and single hyphens, no hyphen at the end. -/
def sanitizeProjectId (lib : Lib) (raw : String) : String :=
  match sanitizeLoop (lib.toLowercase raw).toList [] true with
  | '-' :: out => String.ofList out.reverse
  | out => String.ofList out.reverse

variable (d : GcpDriver)

def gcpProjectId (enclaveId : String) : String :=
  let raw := match d.config.projectPrefix with
    | some pre => if pre.isEmpty then enclaveId else s!"{pre}-{enclaveId}"
    | none => enclaveId
  sanitizeProjectId d.lib raw

def sanitizeDisplayName (name : String) : String :=
  let sanitized := name.toList.map fun c =>
    if d.lib.isAlphanumeric c || " -'\"!".toList.contains c then c else ' '
  " ".intercalate (((sanitized.splitOnP d.lib.isWhitespace).filter (!·.isEmpty)).map String.ofList)

/-! ### Errors -/

/-- The two kinds of details of an error: `ErrorInfo`, then `BadRequest`. -/
def errorDetail (detail : Value) : List String :=
  (match (detail.idx "reason").asStr with
    | some reason =>
      let meta_ := (((detail.idx "metadata").asObject).getD []).filterMap (·.2.asStr)
      [if meta_.isEmpty then reason else reason ++ " — " ++ ", ".intercalate meta_]
    | none => []) ++
  (((detail.idx "fieldViolations").asArray).getD []).map fun v =>
    "field '" ++ strOr v "field" "?" ++ "': " ++ strOr v "description" "invalid"

/-- The error of a response as a text. -/
def extractGcpError (body : Value) : String :=
  let err := body.idx "error"
  let status := strOr err "status" "UNKNOWN"
  let message := strOr err "message" "unknown error"
  let parts := (((err.idx "details").asArray).getD []).flatMap errorDetail
  if parts.isEmpty then s!"{status}: {message}"
  else s!"{status}: {message} (" ++ "; ".intercalate parts ++ ")"

/-! ### The pure methods -/

def contextVars (enclave : Enclave) (handle : Handle) : HashMap String String :=
  let projectId := ((handle.idx "project_id").asStr).getD (d.gcpProjectId enclave.id.val)
  let region := ((handle.idx "region").asStr).getD enclave.region
  ((∅ : HashMap String String).insert "nclav_project_id" projectId).insert "nclav_region" region

/-- The project that an enclave's Terraform runs in. -/
def authProject (enclave : Enclave) (handle : Handle) : String :=
  ((handle.idx "project_id").asStr).getD (d.gcpProjectId enclave.id.val)

/-- The service account of an enclave. -/
def enclaveSa (enclave : Enclave) (handle : Handle) : Option String :=
  enclave.identity.map fun identity =>
    s!"{identity}@{d.authProject enclave handle}.iam.gserviceaccount.com"

/-- With a key file Terraform authenticates with it and impersonates the enclave's SA. -/
def authEnv (enclave : Enclave) (handle : Handle) : HashMap String String :=
  let env : HashMap String String := match d.keyFile with
    | some keyPath =>
      let env := (∅ : HashMap String String).insert "GOOGLE_APPLICATION_CREDENTIALS" keyPath
      match d.enclaveSa enclave handle with
      | some email => env.insert "GOOGLE_IMPERSONATE_SERVICE_ACCOUNT" email
      | none => env
    | none => ∅
  env.insert "GOOGLE_PROJECT" (d.authProject enclave handle)

/-- The driver as the registry holds it. -/
def driver : Driver where
  name := "gcp"
  contextVars := d.contextVars
  authEnv := d.authEnv

/-! ### Provisioning an enclave -/

def alreadyExists (e : DriverError) : Bool := d.lib.mentions e "already exists"

/-- What is made of the answer to a creation: it, or nothing if the thing exists. -/
def orExists : Except DriverError Value → Except DriverError (Option Value)
  | .ok op => .ok (some op)
  | .error e => if d.alreadyExists e then .ok none else .error e

/-- A creation. -/
def postOrExists (url token : String) (body : Value) : Cloud (Option Value) :=
  ExceptT.mk ((request (.postJson url token body)).bind fun r => .ret (d.orExists r))

/-- Wait for the operation that an answer names, if it names one. -/
def waitFor (opUrl : String → String) (op : Value) : Cloud Unit :=
  match (op.idx "name").asStr with
  | some name => do
    let _ ← ask (request (.waitForOperation (opUrl name)))
    return
  | none => return

def projectUrl (projectId : String) : String :=
  s!"{d.base.resourcemanager}/v3/projects/{projectId}"

/-- The project exists already: read it, and restore it if it is pending deletion. -/
def fetchProject (token projectId : String) : Cloud String := do
  let sent ← send (.get (d.projectUrl projectId) token)
  match sent with
  | .error e => throw (.internal e)
  | .ok (_, .error e) => throw (.internal e)
  | .ok (_, .ok project) => do
    if (project.idx "lifecycleState").asStr = some "DELETE_REQUESTED" then
      let op ← ask (request
        (.postJson s!"{d.projectUrl projectId}:undelete" token (.object [])))
      waitFor (fun name => s!"{d.base.resourcemanager}/v3/{name}") op
    return strOr project "projectNumber" ""

/-- Step 1: the project, and its number. -/
def createProject (token projectId : String) (enclave : Enclave) : Cloud String := do
  let created ← d.postOrExists s!"{d.base.resourcemanager}/v3/projects" token
    (.object
      [("projectId", .str projectId),
       ("displayName", .str (d.sanitizeDisplayName enclave.name)),
       ("parent", .str d.config.parent)])
  match created with
  | some op => do
    let opName ← orThrow (.provisionFailed "create project: no operation name")
      (op.idx "name").asStr
    let project ← ask (request
      (.waitForOperation s!"{d.base.resourcemanager}/v3/{opName}"))
    return strOr project "projectNumber" ""
  | none => d.fetchProject token projectId

/-- Step 1b: labels, best effort. -/
def labelProject (token projectId : String) (enclave : Enclave) : Cloud Unit := do
  let url := d.projectUrl projectId
  let sent ← send (.patch url token [("updateMask", "labels")]
    (.object [("labels", .object
      [("nclav-managed", .str "true"), ("nclav-enclave", .str enclave.id.val)])]))
  match sent with
  | .error e => throw (.provisionFailed s!"PATCH project labels {url}: {e}")
  | .ok (status, body) =>
    if 200 ≤ status ∧ status < 300 then
      match ((body.toOption.getD .null).idx "name").asStr with
      | some opName => do
        let _ ← send (.waitForOperation s!"{d.base.resourcemanager}/v3/{opName}")
        return
      | none => return
    else return

/-- Step 2: the billing account. -/
def linkBilling (token projectId : String) : Cloud Unit := do
  let url := s!"{d.base.cloudbilling}/v1/projects/{projectId}/billingInfo"
  let sent ← send (.put url token
    (.object [("billingAccountName", .str d.config.billingAccount)]))
  match sent with
  | .error e => throw (.provisionFailed s!"PUT {url}: {e}")
  | .ok (status, body) =>
    if 200 ≤ status ∧ status < 300 then return
    else throw (.provisionFailed s!"PUT {url}: {extractGcpError (body.toOption.getD .null)}")

/-- Step 3: the APIs. -/
def enableApis (token projectId : String) : Cloud Unit := do
  let op ← ask (request (.postJson
    s!"{d.base.serviceusage}/v1/projects/{projectId}/services:batchEnable" token
    (.object [("serviceIds", .arr (requiredApis.map .str))])))
  waitFor (fun name => s!"{d.base.serviceusage}/v1/{name}") op

def serviceAccountsUrl (projectId : String) : String :=
  s!"{d.base.iam}/v1/projects/{projectId}/serviceAccounts"

/-- Step 4: the service account, and its address. -/
def createServiceAccount (token projectId : String) (enclave : Enclave) : Cloud String := do
  let saId := enclave.identity.getD projectId
  let email := s!"{saId}@{projectId}.iam.gserviceaccount.com"
  let created ← d.postOrExists (d.serviceAccountsUrl projectId) token
    (.object
      [("accountId", .str saId),
       ("serviceAccount", .object [("displayName", .str enclave.name)])])
  match created with
  | some sa => return strOr sa "email" email
  | none => return email

/-- Step 5: the VPC, if there is a network; its link. -/
def createVpc (token projectId : String) (enclave : Enclave) : Cloud String :=
  match enclave.network with
  | none => return ""
  | some _ => do
    let created ← d.postOrExists
      s!"{d.base.compute}/compute/v1/projects/{projectId}/global/networks" token
      (.object [("name", .str "nclav-vpc"), ("autoCreateSubnetworks", .bool false)])
    if let some op := created then
      waitFor (fun name =>
        s!"{d.base.compute}/compute/v1/projects/{projectId}/global/operations/{name}") op
    return s!"https://www.googleapis.com/compute/v1/projects/{projectId}/global/networks/nclav-vpc"

def subnetsUrl (projectId region : String) : String :=
  s!"{d.base.compute}/compute/v1/projects/{projectId}/regions/{region}/subnetworks"

def createSubnet (token projectId region vpcSelfLink : String) (_ : Unit) (entry : String × Nat) :
    Cloud Unit := do
  let created ← d.postOrExists (d.subnetsUrl projectId region) token
    (.object
      [("name", .str s!"subnet-{entry.2}"),
       ("network", .str vpcSelfLink),
       ("ipCidrRange", .str entry.1),
       ("region", .str region),
       ("privateIpGoogleAccess", .bool true)])
  match created with
  | some op => waitFor (fun name =>
      s!"{d.base.compute}/compute/v1/projects/{projectId}/regions/{region}/operations/{name}") op
  | none => return

/-- Step 6: a subnet for each range. -/
def createSubnets (token projectId vpcSelfLink : String) (enclave : Enclave) : Cloud Unit :=
  enclave.subnets.zipIdx.foldlM (d.createSubnet token projectId enclave.region vpcSelfLink) ()

def zonesUrl (projectId : String) : String :=
  s!"{d.base.dns}/dns/v1/projects/{projectId}/managedZones"

/-- Step 7: the private DNS zone, if there is one. -/
def createDnsZone (token projectId vpcSelfLink : String) (enclave : Enclave) : Cloud String :=
  match enclave.zone with
  | none => return ""
  | some zone => do
    let _ ← d.postOrExists (d.zonesUrl projectId) token
      (.object
        [("name", .str "nclav-zone"),
         ("dnsName", .str s!"{zone}."),
         ("description", .str "nclav managed private DNS zone"),
         ("visibility", .str "private"),
         ("privateVisibilityConfig", .object
           [("networks", .arr [.object [("networkUrl", .str vpcSelfLink)]])])])
    return "nclav-zone"

/-- All steps, and the complete handle. -/
def createEnclave (token : String) (enclave : Enclave) :
    Cloud ProvisionResult := do
  let projectId := d.gcpProjectId enclave.id.val
  let projectNumber ← d.createProject token projectId enclave
  d.labelProject token projectId enclave
  d.linkBilling token projectId
  d.enableApis token projectId
  let saEmail ← d.createServiceAccount token projectId enclave
  let vpcSelfLink ← d.createVpc token projectId enclave
  d.createSubnets token projectId vpcSelfLink enclave
  let dnsZoneName ← d.createDnsZone token projectId vpcSelfLink enclave
  return {
    handle := .object
      [("driver", .str "gcp"),
       ("kind", .str "enclave"),
       ("project_id", .str projectId),
       ("project_number", .str projectNumber),
       ("service_account_email", .str saEmail),
       ("vpc_self_link", .str vpcSelfLink),
       ("dns_zone_name", .str dnsZoneName),
       ("region", .str enclave.region),
       ("provisioning_complete", .bool true)]
    outputs := ∅ }

/-- Whether the project of a complete handle can be read. -/
def skips (token : String) (handle : Handle) : Cloud Bool :=
  match handle.complete, (handle.idx "project_id").asStr with
  | true, some pid => do
    let sent ← send (.get (d.projectUrl pid) token)
    match sent with
    | .error e => throw (.internal e)
    | .ok (status, _) => return decide (200 ≤ status ∧ status < 300)
  | _, _ => return false

def provisionEnclave (enclave : Enclave)
    (existing : Option Handle) : Cloud ProvisionResult := do
  let token ← ask (request .bearer)
  match existing with
  | none => d.createEnclave token enclave
  | some handle => do
    let skip ← d.skips token handle
    if skip then return { handle, outputs := ∅ }
    else d.createEnclave token enclave

/-- Delete the project that the enclave's id stands for; a project that is not there is deleted.
The handle is not read. -/
def teardownEnclave (enclave : Enclave) (_ : Handle) : Cloud Unit := do
  let token ← ask (request .bearer)
  let sent ← send (.delete (d.projectUrl (d.gcpProjectId enclave.id.val)) token)
  match sent with
  | .error e => throw (.teardownFailed e)
  | .ok (status, body) =>
    if (200 ≤ status ∧ status < 300) ∨ status = 404 then return
    else throw (.teardownFailed (extractGcpError (body.toOption.getD .null)))

/-! ### What is created -/

/-- An accepted creation of a part of an enclave. -/
def creates (id : EnclaveId) : Resource → CloudEvent → Prop
  | .subnet cidr, ev => ∃ region token body r,
      ev = ⟨.postJson (d.subnetsUrl (d.gcpProjectId id.val) region) token body, r⟩ ∧
        body.idx "ipCidrRange" = .str cidr ∧ (d.orExists r).isOk = true
  | .zone name, ev => ∃ token body r,
      ev = ⟨.postJson (d.zonesUrl (d.gcpProjectId id.val)) token body, r⟩ ∧
        body.idx "dnsName" = .str s!"{name}." ∧ (d.orExists r).isOk = true
  | .identity name, ev => ∃ token body r,
      ev = ⟨.postJson (d.serviceAccountsUrl (d.gcpProjectId id.val)) token body, r⟩ ∧
        body.idx "accountId" = .str name ∧ (d.orExists r).isOk = true

variable {d}

theorem postOrExists_records {url token : String} {body : Value} {p : CloudEvent → Prop}
    (h : ∀ r, (d.orExists r).isOk = true → p ⟨.postJson url token body, r⟩) :
    Records p (d.postOrExists url token body) :=
  Records.call fun r _ hr => h r (by rw [hr]; rfl)

/-- Provisioning every part from the first step on. -/
theorem createEnclave_records (token : String) (enc : Enclave) {part : Resource}
    (hpart : part ∈ enc.resources) :
    Records (d.creates enc.id part) (d.createEnclave token enc) := by
  refine .bind_right fun _ => .bind_right fun _ => .bind_right fun _ => .bind_right fun _ => ?_
  rcases mem_resources hpart with ⟨cidr, hcidr, rfl⟩ | ⟨name, hname, rfl⟩ | ⟨name, hname, rfl⟩
  · refine .bind_right fun _ => .bind_right fun link => .bind_left ?_
    obtain ⟨i, hi⟩ : ∃ i, (cidr, i) ∈ enc.subnets.zipIdx := by
      obtain ⟨i, hi, hget⟩ := List.getElem_of_mem hcidr
      exact ⟨i, List.mem_zipIdx_iff_getElem?.mpr (by simp [hget, hi])⟩
    refine .foldlM hi (fun _ => .bind_left ?_) ()
    refine postOrExists_records fun r hr => ⟨_, _, _, r, rfl, ?_, hr⟩
    simp [Value.idx_object, Value.lookup_cons_eq_ite]
  · refine .bind_right fun _ => .bind_right fun link => .bind_right fun _ => .bind_left ?_
    rw [createDnsZone, hname]
    refine .bind_left (postOrExists_records fun r hr => ⟨_, _, r, rfl, ?_, hr⟩)
    simp [Value.idx_object, Value.lookup_cons_eq_ite]
  · refine .bind_left (.bind_left ?_)
    rw [hname]
    refine postOrExists_records fun r hr => ⟨_, _, r, rfl, ?_, hr⟩
    simp [Value.idx_object]

theorem createEnclave_complete (token : String) (enc : Enclave) :
    Returns (fun result => Handle.complete result.handle = true) (d.createEnclave token enc) := by
  refine .bind_right fun _ => .bind_right fun _ => .bind_right fun _ => .bind_right fun _ =>
    .bind_right fun _ => .bind_right fun _ => .bind_right fun _ => .bind_right fun _ => .pure ?_
  simp [Handle.complete, Value.idx_object, Value.lookup_cons_eq_ite, Value.asBool]

/-- **What the GCP driver's provisioning of an enclave comes to.** -/
theorem provisionEnclave_provides (enc : Enclave) (existing : Option Handle) :
    Provides d.creates enc existing (d.provisionEnclave enc existing) := by
  refine .bind_right fun token => ?_
  have hcreate : ∀ existing, Provides d.creates enc existing (d.createEnclave token enc) :=
    fun _ => .of_records (createEnclave_complete token enc) fun part hpart =>
      createEnclave_records token enc hpart
  cases existing with
  | none => exact hcreate none
  | some handle =>
    rcases hcomplete : Handle.complete handle with _ | _
    · have hskips : d.skips token handle = pure false := by
        rw [skips, hcomplete]
      show Provides d.creates enc (some handle) (d.skips token handle >>= _)
      rw [hskips]
      exact hcreate (some handle)
    · refine .bind_right fun skip => ?_
      cases skip with
      | true => exact .reuse hcomplete
      | false => exact hcreate (some handle)

/-! ### Which project -/

theorem createEnclave_project (token : String) (enc : Enclave) :
    Returns (fun result => Handle.project result.handle = some (d.gcpProjectId enc.id.val))
      (d.createEnclave token enc) := by
  refine .bind_right fun _ => .bind_right fun _ => .bind_right fun _ => .bind_right fun _ =>
    .bind_right fun _ => .bind_right fun _ => .bind_right fun _ => .bind_right fun _ => .pure ?_
  simp [Handle.project, Value.idx_object, Value.lookup_cons_eq_ite, Value.asStr]

/-- The handle of an enclave is the one that was passed in, or names the project of its id. -/
theorem provisionEnclave_project (enc : Enclave) (existing : Option Handle) :
    Returns (fun result => existing = some result.handle ∨
      Handle.project result.handle = some (d.gcpProjectId enc.id.val))
      (d.provisionEnclave enc existing) := by
  have hcreate : ∀ token, Returns (fun result => existing = some result.handle ∨
      Handle.project result.handle = some (d.gcpProjectId enc.id.val)) (d.createEnclave token enc) :=
    fun token log => Prog.wpE_mono (createEnclave_project token enc log) fun _ _ h result hr =>
      .inr (h result hr)
  refine .bind_right fun token => ?_
  cases existing with
  | none => exact hcreate token
  | some handle =>
    refine .bind_right fun skip => ?_
    cases skip with
    | true => exact .pure (.inl rfl)
    | false => exact hcreate token

/-- The request is for the deletion of this project. -/
def Deletes (d : GcpDriver) (project : String) (ev : CloudEvent) : Prop :=
  ∃ token, ev.1 = .delete (d.projectUrl project) token

/-- A teardown asks for a token and for the deletion of the project of the enclave's id. -/
theorem teardownEnclave_requests {enc : Enclave} {handle : Handle} {r : Except DriverError Unit}
    {log : List CloudEvent}
    (h : Prog.Exec recorder (d.teardownEnclave enc handle).run [] r log) :
    (∀ ev ∈ log, ev.1 = .bearer ∨ d.Deletes (d.gcpProjectId enc.id.val) ev) ∧
    (r = .ok () → ∃ ev ∈ log, d.Deletes (d.gcpProjectId enc.id.val) ev) := by
  refine h.wp (Q := fun r log =>
    (∀ ev ∈ log, ev.1 = .bearer ∨ d.Deletes (d.gcpProjectId enc.id.val) ev) ∧
      (r = .ok () → ∃ ev ∈ log, d.Deletes (d.gcpProjectId enc.id.val) ev)) ?_
  rintro (e | token) _
  · exact ⟨fun ev hev => .inl (by rw [List.mem_singleton.mp hev]), nofun⟩
  · intro sent _
    have hdelete : d.Deletes (d.gcpProjectId enc.id.val)
        ⟨.delete (d.projectUrl (d.gcpProjectId enc.id.val)) token, sent⟩ := ⟨token, rfl⟩
    have hrequests : ∀ r : Except DriverError Unit,
        Prog.wp recorder (.ret r) (fun r log =>
          (∀ ev ∈ log, ev.1 = .bearer ∨ d.Deletes (d.gcpProjectId enc.id.val) ev) ∧
            (r = .ok () → ∃ ev ∈ log, d.Deletes (d.gcpProjectId enc.id.val) ev))
          [⟨.delete (d.projectUrl (d.gcpProjectId enc.id.val)) token, sent⟩,
            ⟨.bearer, .ok token⟩] := by
      refine fun r => ⟨fun ev hev => ?_, fun _ => ⟨_, List.mem_cons_self .., hdelete⟩⟩
      rcases List.mem_cons.mp hev with rfl | hev
      · exact .inr hdelete
      · exact .inl (by rw [List.mem_singleton.mp hev])
    rcases sent with e | ⟨status, body⟩
    · exact hrequests _
    · show Prog.wpE recorder (if (200 ≤ status ∧ status < 300) ∨ status = 404 then pure ()
        else throw (.teardownFailed (extractGcpError (body.toOption.getD .null))) : Cloud Unit) _ _
      split
      · exact hrequests _
      · exact hrequests _

variable (d)

/-! ### Policies -/

/-- The bindings with the member in that of the role: nothing to write where it is in it already,
and nothing at all where the members of the role are no list. -/
def addMember (member role : String) : List Value → Option (Option (List Value))
  | [] => some (some [.object [("role", .str role), ("members", .arr [.str member])]])
  | binding :: bindings =>
    if (binding.idx "role").asStr = some role then
      (binding.idx "members").asArray.map fun members =>
        if members.any (·.asStr = some member) then none
        else some (binding.set "members" (.arr (members ++ [.str member])) :: bindings)
    else (addMember member role bindings).map (·.map (binding :: ·))

/-- The policy that is taken to be in force, by the answer to its reading. -/
def currentPolicy : Except DriverError Value → Value
  | .ok policy => policy
  | .error _ => .object [("version", .num 1), ("bindings", .arr [])]

def bindingsOf (policy : Value) : List Value := ((policy.idx "bindings").asArray).getD []

/-- What follows on the reading of the policy. -/
def writeIamRoleBinding (token resourceUrl member role : String) (read : Except DriverError Value) :
    Cloud Unit := do
  let bindings ← orAbort (addMember member role (bindingsOf (currentPolicy read)))
  match bindings with
  | none => return
  | some bindings => do
    let _ ← ask (request (.postJson s!"{resourceUrl}:setIamPolicy" token (.object
      [("policy", .object [("version", .num 1), ("bindings", .arr bindings)])])))
    return

/-- Read the policy of a resource, add the member and write it back. -/
def ensureIamRoleBinding (token resourceUrl member role : String) : Cloud Unit := do
  let read ← send (.postJson s!"{resourceUrl}:getIamPolicy" token (.object []))
  writeIamRoleBinding token resourceUrl member role read

/-! ### A partition -/

/-- The service account of a partition, or nothing where the id is cut within a character. -/
def partitionSaId (partitionId : String) : Option String :=
  let candidate := s!"partition-{partitionId}"
  if candidate.utf8ByteSize ≤ 28 then some candidate
  else (bytePrefix partitionId (min 19 partitionId.utf8ByteSize)).map fun truncated =>
    let shortHash := String.ofList ((d.lib.defaultHash partitionId).toList.take 6)
    let id := s!"pt-{truncated}-{shortHash}".toList.map fun c =>
      if c.isAlphanum || c = '-' then c.toLower else '-'
    String.ofList (id.reverse.dropWhile (· = '-')).reverse

def serviceAccountUrl (projectId email : String) : String :=
  s!"{d.base.iam}/v1/projects/{projectId}/serviceAccounts/{email}"

/-- The partition's own service account, an editor of the project; the enclave's may act as it. -/
def provisionPartition (enclave : Enclave) (partition : Partition)
    (_resolvedInputs : HashMap String String) (_existing : Option Handle) :
    Cloud ProvisionResult := do
  let token ← ask (request .bearer)
  let projectId := d.gcpProjectId enclave.id.val
  let saAccountId ← orAbort (d.partitionSaId partition.id.val)
  let partitionSaEmail := s!"{saAccountId}@{projectId}.iam.gserviceaccount.com"
  let _ ← d.postOrExists (d.serviceAccountsUrl projectId) token (.object
    [("accountId", .str saAccountId),
     ("serviceAccount", .object
       [("displayName", .str s!"nclav {enclave.id.val}/{partition.id.val}")])])
  let encSaEmail := s!"{enclave.identity.getD projectId}@{projectId}.iam.gserviceaccount.com"
  -- missing grants are not fatal
  let _ ← tryCatch (ensureIamRoleBinding token (d.serviceAccountUrl projectId partitionSaEmail)
    s!"serviceAccount:{encSaEmail}" "roles/iam.serviceAccountTokenCreator") fun _ => return
  let _ ← tryCatch (ensureIamRoleBinding token (d.projectUrl projectId)
    s!"serviceAccount:{partitionSaEmail}" "roles/editor") fun _ => return
  return {
    handle := .object
      [("driver", .str "gcp"),
       ("kind", .str "partition"),
       ("type", .str "iac"),
       ("project_id", .str projectId),
       ("partition_sa", .str partitionSaEmail)]
    outputs := ∅ }

/-- Delete the service account that the handle names; a refusal is not fatal. -/
def teardownPartition (enclave : Enclave) (_partition : Partition) (handle : Handle) :
    Cloud Unit := do
  let token ← ask (request .bearer)
  match (handle.idx "partition_sa").asStr with
  | none => return
  | some saEmail => do
    let sent ← send (.delete (d.serviceAccountUrl (d.gcpProjectId enclave.id.val) saEmail) token)
    match sent with
    | .error e => throw (.teardownFailed e)
    | .ok _ => return

/-! ### An export -/

/-- The Cloud Run service behind an export. -/
def serviceName (enclave : Enclave) (ex : Export) : String :=
  s!"projects/{d.gcpProjectId enclave.id.val}/locations/{enclave.region}/services/" ++
    ex.targetPartition.val

/-- Everyone may call the service of an export without authentication. -/
def allowAllUsers (token : String) (enclave : Enclave) (ex : Export) : Cloud Unit := do
  let _ ← ask (request (.postJson s!"{d.base.run}/v2/{d.serviceName enclave ex}:setIamPolicy" token
    (.object [("policy", .object
      [("bindings", .arr [.object
        [("role", .str "roles/run.invoker"), ("members", .arr [.str "allUsers"])]])])])))
  return

def provisionExport (enclave : Enclave) (ex : Export) (partitionOutputs : HashMap String String)
    (_existing : Option Handle) : Cloud ProvisionResult := do
  let token ← ask (request .bearer)
  let projectId := d.gcpProjectId enclave.id.val
  let outputs := Value.object (partitionOutputs.toList.map fun o => (o.1, .str o.2))
  match ex.exportType with
  | .http => do
    if ex.auth = .none then d.allowAllUsers token enclave ex
    return {
      handle := .object
        [("driver", .str "gcp"),
         ("kind", .str "export"),
         ("type", .str "http"),
         ("project_id", .str projectId),
         ("export_name", .str ex.name),
         ("cloud_run_service", .str (d.serviceName enclave ex)),
         ("iam_bindings_applied",
           .arr (if ex.auth = .none then [.str "allUsers:roles/run.invoker"] else [])),
         ("outputs", outputs)]
      outputs := partitionOutputs }
  | .tcp => do
    let serviceAttachment ← orThrow (.provisionFailed (s!"tcp export '{ex.name}': partition must " ++
      "declare 'psc_service_attachment' in its outputs. Catalog services (Cloud SQL, AlloyDB, " ++
      "Memorystore) support this natively — enable PSC on the service in Terraform and output " ++
      "'psc_service_attachment_link'.")) partitionOutputs["psc_service_attachment"]?
    return {
      handle := .object
        [("driver", .str "gcp"),
         ("kind", .str "export"),
         ("type", .str "tcp"),
         ("project_id", .str projectId),
         ("export_name", .str ex.name),
         ("region", .str enclave.region),
         ("service_attachment", .str serviceAttachment),
         ("outputs", outputs)]
      outputs := partitionOutputs }
  | .queue =>
    return {
      handle := .object
        [("driver", .str "gcp"),
         ("kind", .str "export"),
         ("type", .str "queue"),
         ("project_id", .str projectId),
         ("export_name", .str ex.name),
         ("topic", .str (partitionOutputs["queue_url"]?.getD "")),
         ("outputs", outputs)]
      outputs := partitionOutputs }

/-! ### An import -/

def regionUrl (projectId region path : String) : String :=
  s!"{d.base.compute}/compute/v1/projects/{projectId}/regions/{region}/{path}"

/-- A creation in a region, waited for. -/
def createInRegion (token projectId region path : String) (body : Value) : Cloud Unit := do
  let created ← d.postOrExists (d.regionUrl projectId region path) token body
  match created with
  | some op => waitFor (fun name => d.regionUrl projectId region s!"operations/{name}") op
  | none => return

/-- Read the document of an address. -/
def getAddress (token url : String) : Cloud Value := do
  let sent ← send (.get url token)
  match sent with
  | .error e => throw (.provisionFailed s!"GET {url}: {e}")
  | .ok (_, .error e) => throw (.internal s!"GET {url} decode: {e}")
  | .ok (_, .ok addr) => return addr

/-- Steps 1 to 3 of a PSC endpoint: an address, a forwarding rule to the service attachment and a
DNS record of the name. What is returned is the address. -/
def createEndpoint (token : String) (importer : Enclave) (im : Import)
    (serviceAttachment dnsName : String) : Cloud String := do
  let importerProject := d.gcpProjectId importer.id.val
  let region := importer.region
  let epIpName := s!"nclav-ep-ip-{im.alias_}"
  let subnetwork := s!"projects/{importerProject}/regions/{region}/subnetworks/subnet-0"
  d.createInRegion token importerProject region "addresses" (.object
    [("name", .str epIpName),
     ("addressType", .str "INTERNAL"),
     ("subnetwork", .str subnetwork),
     ("purpose", .str "GCE_ENDPOINT")])
  let addr ← getAddress token (d.regionUrl importerProject region s!"addresses/{epIpName}")
  let endpointIp ← orThrow
    (.provisionFailed "PSC endpoint address GET returned no 'address' field")
    (addr.idx "address").asStr
  let endpointAddrUrl := strOr addr "selfLink"
    s!"projects/{importerProject}/regions/{region}/addresses/{epIpName}"
  d.createInRegion token importerProject region "forwardingRules" (.object
    [("name", .str s!"nclav-ep-{im.alias_}"),
     ("loadBalancingScheme", .str ""),
     ("target", .str serviceAttachment),
     ("network", .str s!"projects/{importerProject}/global/networks/nclav-vpc"),
     ("subnetwork", .str subnetwork),
     ("IPAddress", .str endpointAddrUrl)])
  let _ ← d.postOrExists
    s!"{d.base.dns}/dns/v1/projects/{importerProject}/managedZones/nclav-zone/changes" token
    (.object [("additions", .arr [.object
      [("name", .str s!"{dnsName}."),
       ("type", .str "A"),
       ("ttl", .num 300),
       ("rrdatas", .arr [.str endpointIp])]])])
  return endpointIp

/-- A subscription in the importer's project to the exporter's topic. -/
def createSubscription (token importerProject : String) (im : Import) (exporterTopic : String) :
    Cloud Unit := do
  let sent ← send (.put
    s!"{d.base.pubsub}/v1/projects/{importerProject}/subscriptions/{im.alias_}" token
    (.object [("topic", .str exporterTopic), ("ackDeadlineSeconds", .num 60)]))
  match sent with
  | .error e => throw (.provisionFailed e)
  | .ok (status, body) =>
    if (200 ≤ status ∧ status < 300) ∨ status = 409 then return
    else throw (.provisionFailed (extractGcpError (body.toOption.getD .null)))

/-- The result of an import, with the outputs in the handle. -/
def importResult (type : String) (importer : Enclave) (im : Import)
    (fields : List (String × Value)) (outputs : HashMap String String) : ProvisionResult where
  handle := .object
    ([("driver", .str "gcp"),
      ("kind", .str "import"),
      ("type", .str type),
      ("importer_project", .str (d.gcpProjectId importer.id.val)),
      ("alias", .str im.alias_)] ++ fields ++
      [("outputs", .object (outputs.toList.map fun o => (o.1, .str o.2)))])
  outputs := outputs

def provisionImport (importer : Enclave) (im : Import) (exportHandle : Handle)
    (_existing : Option Handle) : Cloud ProvisionResult := do
  let token ← ask (request .bearer)
  let importerProject := d.gcpProjectId importer.id.val
  let exportType := strOr exportHandle "type" ""
  if exportType = "http" then
    return d.importResult "http" importer im [("export_handle", exportHandle)]
      (exportedOutputs exportHandle)
  else if exportType = "tcp" then do
    let serviceAttachment ← orThrow
      (.provisionFailed "tcp import: export handle missing 'service_attachment'")
      (exportHandle.idx "service_attachment").asStr
    if importer.network.isNone then
      throw (.provisionFailed (s!"cross-enclave tcp import '{im.alias_}': importer enclave must " ++
        "have network: configured"))
    let dnsZone ← orThrow (.provisionFailed (s!"cross-enclave tcp import '{im.alias_}': importer " ++
      "enclave must have dns.zone: configured")) importer.zone
    let dnsName := s!"{im.alias_}.{dnsZone}"
    let endpointIp ← d.createEndpoint token importer im serviceAttachment dnsName
    return d.importResult "tcp" importer im
      [("endpoint_ip_name", .str s!"nclav-ep-ip-{im.alias_}"),
       ("endpoint_name", .str s!"nclav-ep-{im.alias_}"),
       ("endpoint_ip", .str endpointIp),
       ("dns_name", .str dnsName)]
      ((exportedOutputs exportHandle).insert "hostname" dnsName)
  else if exportType = "queue" then do
    d.createSubscription token importerProject im (strOr exportHandle "topic" "")
    let queueUrl := s!"projects/{importerProject}/subscriptions/{im.alias_}"
    return d.importResult "queue" importer im [("subscription", .str queueUrl)]
      ((∅ : HashMap String String).insert "queue_url" queueUrl)
  else throw (.provisionFailed
    s!"provision_import: unknown export type '{exportType}' in export handle")

end GcpDriver

end Nclav
