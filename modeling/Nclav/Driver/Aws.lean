import Nclav.Driver.Cloud

/-!
# The AWS driver

An enclave is an account with a VPC, subnets, a private hosted zone and an IAM role. A handle that
is marked as complete is returned as it is.
-/

namespace Nclav

open Effect Serde

structure AwsDriverConfig : Type where
  orgUnitId : String
  emailDomain : String
  defaultRegion : String
  accountPrefix : Option String
  crossAccountRole : String
  roleArn : Option String

structure AwsBaseUrls : Type where
  organizations : String
  sts : String
  ec2 : String
  iam : String

structure AwsDriver : Type where
  lib : Lib
  config : AwsDriverConfig
  base : AwsBaseUrls

namespace AwsDriver

variable (d : AwsDriver)

/-! ### Names -/

/-- An account name, or nothing where it is cut within a character. -/
def sanitizeAccountName (name : String) : Option String :=
  let cleaned := name.toList.map fun c =>
    if d.lib.isAlphanumeric c || c = ' ' || c = '-' then c else '-'
  let trimEnd (cs : List Char) := (cs.dropWhile fun c => !d.lib.isAlphanumeric c).reverse
  let trimmed := String.ofList (trimEnd (trimEnd cleaned))
  if trimmed.utf8ByteSize > 50 then bytePrefix trimmed 50 else some trimmed

def accountName (enclaveId : String) : Option String :=
  d.sanitizeAccountName (match d.config.accountPrefix with
    | some pre => if pre.isEmpty then enclaveId else s!"{pre}-{enclaveId}"
    | none => enclaveId)

def accountEmail (accountName : String) : String :=
  let clean := d.lib.toLowercase (String.ofList (accountName.toList.filter (· ≠ ' ')))
  s!"aws+{clean}@{d.config.emailDomain}"

/-- The IAM role of a partition, or nothing where its id is cut within a character. -/
def partitionRoleName (partitionId : String) : Option String :=
  let base := s!"nclav-partition-{partitionId}"
  if base.utf8ByteSize ≤ 64 then some base
  -- 64 bytes, less the 16 of the prefix, a hyphen and 8 of the hash
  else (bytePrefix partitionId 39).map fun truncated =>
    s!"nclav-partition-{truncated}-" ++ String.ofList ((d.lib.sha256 partitionId).toList.take 8)

/-! ### The pure methods -/

def contextVars (enclave : Enclave) (handle : Handle) : HashMap String String :=
  let accountId := strOr handle "account_id" ""
  let region := strOr handle "region" d.config.defaultRegion
  let roleArn := strOr handle "partition_role_arn" ""
  ([("nclav_project_id", accountId),
    ("nclav_region", region),
    ("nclav_account_id", accountId),
    ("nclav_role_arn", roleArn),
    ("nclav_enclave", enclave.id.val)]).foldl (fun m e => m.insert e.1 e.2) ∅

def authEnv (_enclave : Enclave) (handle : Handle) : HashMap String String :=
  let region := strOr handle "region" d.config.defaultRegion
  let roleArn := strOr handle "partition_role_arn" ""
  let env := (∅ : HashMap String String).insert "AWS_DEFAULT_REGION" region
  if roleArn.isEmpty then env else env.insert "AWS_ROLE_ARN" roleArn

/-- The driver as the registry holds it. -/
def driver : Driver where
  name := "aws"
  contextVars := d.contextVars
  authEnv := d.authEnv

/-! ### Requests -/

/-- The text contains this. -/
def contains (e : DriverError) (text : String) : Bool :=
  (toString e).toList.tails.any text.toList.isPrefixOf

/-- An Organizations request. -/
def organizations (creds : AwsCredentials) (action : String) (body : Value) : CloudCall :=
  .jsonApi d.base.organizations "us-east-1" "organizations"
    s!"AmazonOrganizationsV20161128.{action}" creds body

def stsAssumeRole (creds : AwsCredentials) (roleArn sessionName : String) :
    Cloud AwsCredentials := do
  let xml ← ask (request (.queryApi d.base.sts "us-east-1" "sts" creds
    [("Action", "AssumeRole"), ("Version", "2011-06-15"), ("RoleArn", roleArn),
     ("RoleSessionName", sessionName), ("DurationSeconds", "3600")]))
  let accessKeyId ← orThrow (.internal "STS AssumeRole: no AccessKeyId")
    (d.lib.xmlText xml "AccessKeyId")
  let secretAccessKey ← orThrow (.internal "STS AssumeRole: no SecretAccessKey")
    (d.lib.xmlText xml "SecretAccessKey")
  return { accessKeyId, secretAccessKey, sessionToken := d.lib.xmlText xml "SessionToken" }

/-- Credentials within the account of an enclave. -/
def enclaveCreds (accountId : String) : Cloud AwsCredentials := do
  let baseCreds ← ask (request .credentials)
  d.stsAssumeRole baseCreds s!"arn:aws:iam::{accountId}:role/{d.config.crossAccountRole}"
    "nclav-session"

def orgCreateAccount (creds : AwsCredentials) (accountName email : String) : Cloud String := do
  let sent ← send (d.organizations creds "CreateAccount"
    (.object [("AccountName", .str accountName), ("Email", .str email)]))
  match sent with
  | .ok v =>
    orThrow (.provisionFailed "CreateAccount: no CreateAccountStatus.Id in response")
      ((v.idx "CreateAccountStatus").idx "Id").asStr
  | .error e =>
    if contains e "DuplicateAccountException" then
      throw (.provisionFailed (s!"Account '{accountName}' already exists but no account ID in " ++
        "state. Set provisioning_complete in the enclave handle to recover. " ++
        s!"Original error: {e}"))
    else throw e

/-- Poll until the account is there, `polls` times at most. -/
def orgWaitForAccount (creds : AwsCredentials) (reqId : String) : (polls : Nat) → Cloud String
  | 0 => throw (.provisionFailed
      s!"AWS account creation timed out after 120 polls (request: {reqId})")
  | polls + 1 => do
    let resp ← ask (request (d.organizations creds "DescribeCreateAccountStatus"
      (.object [("CreateAccountRequestId", .str reqId)])))
    let status := resp.idx "CreateAccountStatus"
    match strOr status "State" "UNKNOWN" with
    | "SUCCEEDED" =>
      orThrow
        (.provisionFailed "DescribeCreateAccountStatus: no AccountId in Succeeded response")
        (status.idx "AccountId").asStr
    | "FAILED" =>
      let reason := strOr status "FailureReason" "unknown"
      throw (.provisionFailed s!"CreateAccount failed: {reason}")
    | _ => orgWaitForAccount creds reqId polls

def orgListParents (creds : AwsCredentials) (accountId : String) : Cloud String := do
  let resp ← ask (request (d.organizations creds "ListParents"
    (.object [("ChildId", .str accountId)])))
  orThrow (.provisionFailed s!"ListParents for {accountId}: no parent found")
    (((resp.idx "Parents").asArray).bind (·.head?) |>.bind fun p => (p.idx "Id").asStr)

def orgMoveAccount (creds : AwsCredentials) (accountId sourceParentId destParentId : String) :
    Cloud Unit := do
  let sent ← send (d.organizations creds "MoveAccount"
    (.object
      [("AccountId", .str accountId),
       ("SourceParentId", .str sourceParentId),
       ("DestinationParentId", .str destParentId)]))
  match sent with
  | .ok _ => return
  | .error e =>
    if contains e "DuplicateAccountException" ||
      contains e "AccountAlreadyInOrganizationException" then return
    else throw e

/-- The tags of an EC2 resource. -/
def ec2Tags (resourceType name encId : String) : List (String × String) :=
  [("TagSpecification.1.ResourceType", resourceType),
   ("TagSpecification.1.Tag.1.Key", "Name"),
   ("TagSpecification.1.Tag.1.Value", name),
   ("TagSpecification.1.Tag.2.Key", "nclav-managed"),
   ("TagSpecification.1.Tag.2.Value", "true"),
   ("TagSpecification.1.Tag.3.Key", "nclav-enclave"),
   ("TagSpecification.1.Tag.3.Value", encId)]

def ec2CreateVpc (creds : AwsCredentials) (region cidr encId : String) : Cloud String := do
  let xml ← ask (request (.queryApi d.base.ec2 region "ec2" creds
    ([("Action", "CreateVpc"), ("Version", "2016-11-15"), ("CidrBlock", cidr)] ++
      ec2Tags "vpc" s!"nclav-{encId}" encId)))
  orThrow (.provisionFailed "EC2 CreateVpc: no vpcId in response") (d.lib.xmlText xml "vpcId")

def ec2ModifyVpcAttribute (creds : AwsCredentials) (region vpcId attr value : String) :
    CloudCall :=
  .queryApi d.base.ec2 region "ec2" creds
    [("Action", "ModifyVpcAttribute"), ("Version", "2016-11-15"), ("VpcId", vpcId), (attr, value)]

def subnetParams (vpcId cidr encId : String) (i : Nat) : List (String × String) :=
  [("Action", "CreateSubnet"), ("Version", "2016-11-15"), ("VpcId", vpcId), ("CidrBlock", cidr)] ++
    ec2Tags "subnet" s!"nclav-{encId}-subnet-{i}" encId

def ec2CreateSubnet (creds : AwsCredentials) (region vpcId cidr encId : String) (i : Nat) :
    Cloud String := do
  let xml ← ask (request (.queryApi d.base.ec2 region "ec2" creds
    (subnetParams vpcId cidr encId i)))
  orThrow (.provisionFailed "EC2 CreateSubnet: no subnetId") (d.lib.xmlText xml "subnetId")

/-- The request document of a hosted zone. -/
def hostedZoneXml (name callerRef region vpcId : String) : String :=
  "<?xml version=\"1.0\" encoding=\"UTF-8\"?>\n" ++
  "<CreateHostedZoneRequest xmlns=\"https://route53.amazonaws.com/doc/2013-04-01/\">\n" ++
  s!"  <Name>{name}</Name>\n" ++
  s!"  <CallerReference>{callerRef}</CallerReference>\n" ++
  "  <HostedZoneConfig>\n" ++
  "    <Comment>Managed by nclav</Comment>\n" ++
  "    <PrivateZone>true</PrivateZone>\n" ++
  "  </HostedZoneConfig>\n" ++
  "  <VPC>\n" ++
  s!"    <VPCRegion>{region}</VPCRegion>\n" ++
  s!"    <VPCId>{vpcId}</VPCId>\n" ++
  "  </VPC>\n" ++
  "</CreateHostedZoneRequest>"

/-- `trim_start_matches`: the prefix is taken off as often as it stands there. -/
def trimStartMatches (pat : List Char) : (fuel : Nat) → List Char → List Char
  | 0, cs => cs
  | fuel + 1, cs =>
    if pat.isPrefixOf cs then trimStartMatches pat fuel (cs.drop pat.length) else cs

def route53CreateHostedZone (creds : AwsCredentials) (name vpcId region : String) :
    Cloud String := do
  let millis ← send .timestampMillis
  let xml ← ask (request (.route53Post "/2013-04-01/hostedzone" creds
    (hostedZoneXml name s!"nclav-{name}-{millis}" region vpcId)))
  orThrow (.provisionFailed "Route53 CreateHostedZone: no Id")
    ((d.lib.xmlText xml "Id").map fun zone =>
      String.ofList (trimStartMatches "/hostedzone/".toList zone.length zone.toList))

def iamGetRoleArn (creds : AwsCredentials) (roleName : String) : Cloud String := do
  let xml ← ask (request (.queryApi d.base.iam "us-east-1" "iam" creds
    [("Action", "GetRole"), ("Version", "2010-05-08"), ("RoleName", roleName)]))
  orThrow (.provisionFailed s!"IAM GetRole {roleName}: no Arn") (d.lib.xmlText xml "Arn")

def roleParams (roleName trustPolicy encId : String) (partId : Option String) :
    List (String × String) :=
  [("Action", "CreateRole"), ("Version", "2010-05-08"), ("RoleName", roleName),
   ("AssumeRolePolicyDocument", trustPolicy),
   ("Tags.member.1.Key", "nclav-managed"), ("Tags.member.1.Value", "true"),
   ("Tags.member.2.Key", "nclav-enclave"), ("Tags.member.2.Value", encId)] ++
  match partId with
  | some pid => [("Tags.member.3.Key", "nclav-partition"), ("Tags.member.3.Value", pid)]
  | none => []

/-- Create a role, or find the one that exists; its ARN. -/
def iamCreateRole (creds : AwsCredentials) (roleName trustPolicy encId : String)
    (partId : Option String) : Cloud String := do
  let sent ← send (.queryApi d.base.iam "us-east-1" "iam" creds
    (roleParams roleName trustPolicy encId partId))
  match sent with
  | .ok xml => orThrow (.provisionFailed "IAM CreateRole: no Arn") (d.lib.xmlText xml "Arn")
  | .error e =>
    if contains e "EntityAlreadyExists" then d.iamGetRoleArn creds roleName else throw e

/-- The server's role may assume the role. -/
def trustPolicy : String :=
  d.lib.jsonText (.object
    [("Version", .str "2012-10-17"),
     ("Statement", .arr [.object
       [("Effect", .str "Allow"),
        ("Principal", .object [("AWS", .str (d.config.roleArn.getD "arn:aws:iam::*:root"))]),
        ("Action", .str "sts:AssumeRole")]])])

/-! ### Provisioning an enclave -/

/-- Steps 1 to 3: the account, moved into its unit, and credentials within it. -/
def createAccount (enclave : Enclave) : Cloud (String × String × AwsCredentials) := do
  let baseCreds ← ask (request .credentials)
  let accountName ← orAbort (d.accountName enclave.id.val)
  let reqId ← d.orgCreateAccount baseCreds accountName (d.accountEmail accountName)
  let accountId ← d.orgWaitForAccount baseCreds reqId 120
  let rootId ← d.orgListParents baseCreds accountId
  d.orgMoveAccount baseCreds accountId rootId d.config.orgUnitId
  let creds ← d.enclaveCreds accountId
  return (accountId, accountName, creds)

/-- Step 4: the VPC, with DNS where that can be had. -/
def createVpc (creds : AwsCredentials) (enclave : Enclave) : Cloud String := do
  let cidr := (enclave.network.bind (·.vpcCidr)).getD "10.0.0.0/16"
  let vpcId ← d.ec2CreateVpc creds enclave.region cidr enclave.id.val
  let _ ← send (d.ec2ModifyVpcAttribute creds enclave.region vpcId "EnableDnsSupport.Value" "true")
  let _ ← send (d.ec2ModifyVpcAttribute creds enclave.region vpcId "EnableDnsHostnames.Value"
    "true")
  return vpcId

/-- Step 5: a subnet for each range; their ids. -/
def createSubnets (creds : AwsCredentials) (vpcId : String) (enclave : Enclave) :
    Cloud (List String) :=
  enclave.subnets.zipIdx.foldlM (fun ids s => do
    let subnetId ← d.ec2CreateSubnet creds enclave.region vpcId s.1 enclave.id.val s.2
    return ids ++ [subnetId]) []

/-- Step 6: the hosted zone, if there is one. -/
def createZone (creds : AwsCredentials) (vpcId : String) (enclave : Enclave) :
    Cloud (Option String) :=
  match enclave.zone with
  | none => return none
  | some zone => do
    let zoneId ← d.route53CreateHostedZone creds zone vpcId enclave.region
    return some zoneId

/-- Step 7: the role of the enclave's identity, if it has one. -/
def createIdentity (creds : AwsCredentials) (enclave : Enclave) : Cloud (Option String) :=
  match enclave.identity with
  | none => return none
  | some identity => do
    let arn ← d.iamCreateRole creds identity d.trustPolicy enclave.id.val none
    return some arn

/-- A field that is written if there is something to write. -/
def setIf (v : Value) (k : String) : Option String → Value
  | some x => v.set k (.str x)
  | none => v

/-- All steps, and the complete handle. -/
def createEnclave (enclave : Enclave) : Cloud ProvisionResult := do
  let (accountId, accountName, creds) ← d.createAccount enclave
  let vpcId ← d.createVpc creds enclave
  let subnetIds ← d.createSubnets creds vpcId enclave
  let zoneId ← d.createZone creds vpcId enclave
  let identityRoleArn ← d.createIdentity creds enclave
  let handle := Value.object
    [("driver", .str "aws"),
     ("kind", .str "enclave"),
     ("account_id", .str accountId),
     ("account_name", .str accountName),
     ("region", .str enclave.region),
     ("vpc_id", .str vpcId),
     ("subnet_ids", .arr (subnetIds.map .str)),
     ("provisioning_complete", .bool true)]
  return {
    handle := setIf (setIf handle "route53_zone_id" zoneId) "identity_role_arn" identityRoleArn
    outputs := ∅ }

def provisionEnclave (enclave : Enclave) (existing : Option Handle) : Cloud ProvisionResult :=
  match existing with
  | some handle =>
    if handle.complete then return { handle, outputs := ∅ } else d.createEnclave enclave
  | none => d.createEnclave enclave

/-! ### What is created -/

/-- The answer to a creation: it succeeded, or the role is there already. -/
def accepted (r : Except DriverError String) : Bool :=
  match r with
  | .ok _ => true
  | .error e => contains e "EntityAlreadyExists"

/-- An accepted creation of a part of an enclave. -/
def creates (id : EnclaveId) : Resource → CloudEvent → Prop
  | .subnet cidr, ev => ∃ region creds params xml,
      ev = ⟨.queryApi d.base.ec2 region "ec2" creds params, .ok xml⟩ ∧
        ("Action", "CreateSubnet") ∈ params ∧ ("CidrBlock", cidr) ∈ params ∧
        ("TagSpecification.1.Tag.3.Value", id.val) ∈ params
  | .zone name, ev => ∃ creds callerRef region vpcId xml,
      ev = ⟨.route53Post "/2013-04-01/hostedzone" creds
        (hostedZoneXml name callerRef region vpcId), .ok xml⟩
  | .identity name, ev => ∃ creds params r,
      ev = ⟨.queryApi d.base.iam "us-east-1" "iam" creds params, r⟩ ∧
        ("Action", "CreateRole") ∈ params ∧ ("RoleName", name) ∈ params ∧
        ("Tags.member.2.Value", id.val) ∈ params ∧ accepted r = true

variable {d}

/-- A request whose error is passed on. -/
theorem ask_records {α β : Type} {c : CloudCall} {x : Prog CloudCall CloudResp (Except DriverError α)}
    {f : CloudResp c → Except DriverError α} {g : α → Cloud β} {p : CloudEvent → Prop}
    (hx : x = (request c).bind fun r => .ret (f r)) (h : ∀ r a, f r = .ok a → p ⟨c, r⟩) :
    Records p (ask x >>= g) := by
  rw [hx]
  exact .bind_left (.call h)

theorem iamCreateRole_records {creds : AwsCredentials} {roleName trust encId : String}
    {partId : Option String} {p : CloudEvent → Prop}
    (h : ∀ r, accepted r = true → p ⟨.queryApi d.base.iam "us-east-1" "iam" creds
      (roleParams roleName trust encId partId), r⟩) :
    Records p (d.iamCreateRole creds roleName trust encId partId) := by
  refine Records.call_then (R := CloudResp) (c := CloudCall.queryApi d.base.iam "us-east-1" "iam"
    creds (roleParams roleName trust encId partId)) (f := .ok) fun r b hr => ?_
  obtain rfl := Except.ok.inj hr
  rcases r with e | xml
  · simp only []
    split
    · rename_i hexists
      exact .inl (h _ hexists)
    · exact .inr ⟨_, rfl⟩
  · exact .inl (h _ rfl)

/-- Provisioning every part from the first step on. -/
theorem createEnclave_records (enc : Enclave) {part : Resource} (hpart : part ∈ enc.resources) :
    Records (d.creates enc.id part) (d.createEnclave enc) := by
  refine .bind_right fun account => .bind_right fun vpcId => ?_
  rcases mem_resources hpart with ⟨cidr, hcidr, rfl⟩ | ⟨name, hname, rfl⟩ | ⟨name, hname, rfl⟩
  · refine .bind_left ?_
    obtain ⟨i, hi⟩ : ∃ i, (cidr, i) ∈ enc.subnets.zipIdx := by
      obtain ⟨i, hi, hget⟩ := List.getElem_of_mem hcidr
      exact ⟨i, List.mem_zipIdx_iff_getElem?.mpr (by simp [hget, hi])⟩
    refine .foldlM hi (fun _ => .bind_left ?_) []
    refine ask_records (c := .queryApi d.base.ec2 enc.region "ec2" account.2.2
      (subnetParams vpcId cidr enc.id.val i)) (f := fun r => r) rfl fun r xml hr => ?_
    exact ⟨_, _, _, xml, by rw [hr], by simp [subnetParams], by simp [subnetParams],
      by simp [subnetParams, ec2Tags]⟩
  · refine .bind_right fun _ => .bind_left ?_
    rw [createZone, hname]
    refine .bind_left (.bind_right fun millis => ?_)
    refine ask_records (c := .route53Post "/2013-04-01/hostedzone" account.2.2
      (hostedZoneXml name s!"nclav-{name}-{millis}" enc.region vpcId)) (f := fun r => r) rfl
      fun r xml hr => ?_
    exact ⟨_, _, _, _, xml, by rw [hr]⟩
  · refine .bind_right fun _ => .bind_right fun _ => .bind_left ?_
    rw [createIdentity, hname]
    refine .bind_left (iamCreateRole_records fun r hr => ?_)
    exact ⟨_, _, r, rfl, by simp [roleParams], by simp [roleParams], by simp [roleParams], hr⟩

/-- Writing a field leaves the others alone. -/
theorem idx_setIf {fields : List (String × Value)} {k k' : String} (x : Option String)
    (hk : k' ≠ k) :
    ∃ fields', setIf (.obj fields) k x = .obj fields' ∧
      (Value.obj fields').idx k' = (Value.obj fields).idx k' := by
  cases x with
  | none => exact ⟨fields, rfl, rfl⟩
  | some x =>
    refine ⟨Value.insertField k (.str x) fields, rfl, ?_⟩
    simp only [Value.idx, Value.get?, Value.lookup_insertField, if_neg hk]

/-- The handle of a new enclave has these fields, besides those of its zone and identity. -/
theorem createEnclave_handle (enc : Enclave) {k : String} (hzone : k ≠ "route53_zone_id")
    (hidentity : k ≠ "identity_role_arn") {p : Value → Prop}
    (hp : ∀ accountId accountName vpcId subnetIds, p ((Value.object
      [("driver", .str "aws"), ("kind", .str "enclave"), ("account_id", .str accountId),
       ("account_name", .str accountName), ("region", .str enc.region), ("vpc_id", .str vpcId),
       ("subnet_ids", .arr subnetIds), ("provisioning_complete", .bool true)]).idx k)) :
    Returns (fun result => p (result.handle.idx k)) (d.createEnclave enc) := by
  refine .bind_right fun account => .bind_right fun vpcId => .bind_right fun subnetIds =>
    .bind_right fun zoneId => .bind_right fun arn => .pure ?_
  obtain ⟨fields, hsetZone, hidx⟩ := idx_setIf zoneId hzone
  obtain ⟨fields', hsetArn, hidx'⟩ := idx_setIf arn hidentity
  show p ((setIf (setIf _ _ zoneId) _ arn).idx k)
  rw [Value.object, hsetZone, hsetArn, hidx', hidx]
  exact hp _ _ _ _

theorem createEnclave_complete (enc : Enclave) :
    Returns (fun result => Handle.complete result.handle = true) (d.createEnclave enc) :=
  createEnclave_handle enc (by decide) (by decide) (p := fun v => v.asBool.getD false = true)
    fun _ _ _ _ => by simp [Value.idx_object, Value.lookup_cons_eq_ite, Value.asBool]

/-- It names no role of a partition. -/
theorem createEnclave_role (enc : Enclave) :
    Returns (fun result => (result.handle.idx "partition_role_arn").asStr = none)
      (d.createEnclave enc) :=
  createEnclave_handle enc (by decide) (by decide) (p := fun v => v.asStr = none)
    fun _ _ _ _ => by simp [Value.idx_object, Value.lookup_cons_eq_ite, Value.asStr]

/-- **What the AWS driver's provisioning of an enclave comes to.** -/
theorem provisionEnclave_provides (enc : Enclave) (existing : Option Handle) :
    Provides d.creates enc existing (d.provisionEnclave enc existing) := by
  have hcreate : ∀ existing, Provides d.creates enc existing (d.createEnclave enc) :=
    fun _ => .of_records (createEnclave_complete enc) fun part hpart =>
      createEnclave_records enc hpart
  cases existing with
  | none => exact hcreate none
  | some handle =>
    rw [provisionEnclave]
    split
    · rename_i hcomplete
      exact .reuse hcomplete
    · exact hcreate (some handle)

variable (d)

/-! ### Provisioning a partition -/

/-- The handle of a partition that is provisioned already. -/
def isPartitionHandle (h : Handle) : Bool :=
  (h.idx "driver").asStr = some "aws" && (h.idx "kind").asStr = some "partition"

/-- The error of a partition whose account is not known. -/
def noAccount (enclave : Enclave) : DriverError :=
  .provisionFailed (s!"provision_partition for enclave '{enclave.id.val}': cannot determine AWS " ++
    "account ID. Ensure provision_enclave has run first (account_id is injected via " ++
    "context_vars → nclav_account_id).")

/-- The IAM role of a partition, an administrator of its account. -/
def createPartition (enclave : Enclave) (partition : Partition) (accountId : String) :
    Cloud ProvisionResult := do
  let creds ← d.enclaveCreds accountId
  let roleName ← orAbort (d.partitionRoleName partition.id.val)
  let roleArn ← d.iamCreateRole creds roleName d.trustPolicy enclave.id.val
    (some partition.id.val)
  let _ ← ask (request (.queryApi d.base.iam "us-east-1" "iam" creds
    [("Action", "AttachRolePolicy"), ("Version", "2010-05-08"), ("RoleName", roleName),
     ("PolicyArn", "arn:aws:iam::aws:policy/AdministratorAccess")]))
  return {
    handle := .object
      [("driver", .str "aws"),
       ("kind", .str "partition"),
       ("type", .str "iac"),
       ("account_id", .str accountId),
       ("partition_role_arn", .str roleArn)]
    outputs := ∅ }

def provisionPartition (enclave : Enclave) (partition : Partition)
    (resolvedInputs : HashMap String String) (existing : Option Handle) :
    Cloud ProvisionResult :=
  match existing.filter isPartitionHandle with
  | some handle => return { handle, outputs := ∅ }
  | none =>
    let accountId := resolvedInputs["nclav_account_id"]?.getD ""
    if accountId.isEmpty then throw (noAccount enclave)
    else d.createPartition enclave partition accountId

/-! ### Tearing down a partition -/

/-- An IAM request about a role. -/
def iamRequest (creds : AwsCredentials) (action roleName : String)
    (params : List (String × String)) : CloudCall :=
  .queryApi d.base.iam "us-east-1" "iam" creds
    ([("Action", action), ("Version", "2010-05-08"), ("RoleName", roleName)] ++ params)

def iamDetachAllPolicies (creds : AwsCredentials) (roleName : String) : Cloud Unit := do
  let xml ← ask (request (d.iamRequest creds "ListAttachedRolePolicies" roleName []))
  (d.lib.xmlAllTexts xml "PolicyArn").forM fun arn => do
    let _ ← send (d.iamRequest creds "DetachRolePolicy" roleName [("PolicyArn", arn)])
    return

def iamDeleteInlinePolicies (creds : AwsCredentials) (roleName : String) : Cloud Unit := do
  let xml ← ask (request (d.iamRequest creds "ListRolePolicies" roleName []))
  (d.lib.xmlAllTexts xml "member").forM fun name => do
    let _ ← send (d.iamRequest creds "DeleteRolePolicy" roleName [("PolicyName", name)])
    return

def iamDeleteRole (creds : AwsCredentials) (roleName : String) : Cloud Unit := do
  let sent ← send (d.iamRequest creds "DeleteRole" roleName [])
  match sent with
  | .ok _ => return
  | .error e => if contains e "NoSuchEntity" then return else throw e

/-- Delete the role; without the account's credentials nothing is done. -/
def teardownPartition (_enclave : Enclave) (partition : Partition) (handle : Handle) :
    Cloud Unit :=
  let accountId := strOr handle "account_id" ""
  if accountId.isEmpty then return
  else do
    let encCreds ← tryCatch (do let creds ← d.enclaveCreds accountId; return some creds)
      fun _ => return none
    match encCreds with
    | none => return
    | some creds => do
      let roleName ← orAbort (d.partitionRoleName partition.id.val)
      d.iamDetachAllPolicies creds roleName
      d.iamDeleteInlinePolicies creds roleName
      d.iamDeleteRole creds roleName

/-! ### Exports and imports

Neither sends a request. -/

/-- A handle that the driver has returned before. -/
def isHandle (h : Handle) : Bool := (h.get? "driver").bind (·.asStr) = some "aws"

/-- The addresses among these, under their names. -/
def addressOutputs (endpointUrl queueUrl : Option String) : HashMap String String :=
  let outputs : HashMap String String := match endpointUrl with
    | some url => (∅ : HashMap String String).insert "endpoint_url" url
    | none => ∅
  match queueUrl with
  | some url => outputs.insert "queue_url" url
  | none => outputs

def createExport (ex : Export) (partitionOutputs : HashMap String String) : ProvisionResult where
  handle := match ex.exportType with
    | .http | .tcp => .object
        [("driver", .str "aws"),
         ("kind", .str "export"),
         ("type", .str (toString ex.exportType)),
         ("export_name", .str ex.name),
         ("endpoint_url", .str (partitionOutputs["endpoint_url"]?.getD "")),
         ("port", .num ((partitionOutputs["port"]?.bind parseU16).getD
           (if ex.exportType = .http then 443 else 0)))]
    | .queue => .object
        [("driver", .str "aws"),
         ("kind", .str "export"),
         ("type", .str "queue"),
         ("export_name", .str ex.name),
         ("queue_url", .str (partitionOutputs["queue_url"]?.getD ""))]
  outputs := addressOutputs partitionOutputs["endpoint_url"]? partitionOutputs["queue_url"]?

def provisionExport (_enclave : Enclave) (ex : Export) (partitionOutputs : HashMap String String)
    (existing : Option Handle) : Cloud ProvisionResult :=
  match existing.filter isHandle with
  | some handle => return { handle, outputs := ∅ }
  | none => return createExport ex partitionOutputs

/-- The handle of an import, by the type of the export, or nothing for a type that is unknown. -/
def importHandle (im : Import) (exportHandle : Handle) (exportType : String) : Option Handle :=
  let fields (rest : List (String × Value)) : Handle := .object
    ([("driver", .str "aws"), ("kind", .str "import"), ("alias", .str im.alias_)] ++ rest)
  if exportType = "http" ∨ exportType = "tcp" then some (fields
    [("endpoint_url", .str (strOr exportHandle "endpoint_url" "")),
     ("port", .num ((asU64 (exportHandle.idx "port")).getD 443 % 2 ^ 16 : Nat))])
  else if exportType = "queue" then some (fields
    [("queue_url", .str (strOr exportHandle "queue_url" ""))])
  else none

def provisionImport (_importer : Enclave) (im : Import) (exportHandle : Handle)
    (existing : Option Handle) : Cloud ProvisionResult :=
  match existing.filter isHandle with
  | some handle => return { handle, outputs := ∅ }
  | none => do
    let exportType := strOr exportHandle "type" "http"
    let handle ← orThrow (.provisionFailed
      s!"provision_import '{im.alias_}': unknown export type '{exportType}'")
      (importHandle im exportHandle exportType)
    return {
      handle
      outputs := addressOutputs (exportHandle.idx "endpoint_url").asStr
        (exportHandle.idx "queue_url").asStr }

end AwsDriver

end Nclav
