import Nclav.Driver.Cloud
import Nclav.Effect.Cache

/-!
# Tokens and credentials

Two of the providers of the Azure driver and one of the AWS driver keep what they have fetched: a
token until 60 seconds before the end of its life, credentials for 600 seconds. A provider is shared
by every request of its driver, and its lock is held for no longer than a look into the cache takes.
-/

namespace Nclav

open Effect Serde

/-- A request for a token. -/
structure TokenRequest : Type where
  method : String
  url : String
  headers : List (String × String)
  query : List (String × String)
  form : List (String × String)

/-- What is read of an answer. -/
inductive TokenCall : Type where
  | json (req : TokenRequest)
  | text (req : TokenRequest)

/-- A request that is not sent answers with a text, and so does a body that cannot be read. -/
@[reducible] def TokenResp : TokenCall → Type
  | .json _ => Except String (Except String Value)
  | .text _ => Except String (Except String String)

/-- Programs of a provider. -/
abbrev Provider (V : Type) : Type → Type := Cached V TokenResp DriverError

/-- Those who share a provider. -/
abbrev Holders (ι V : Type) : Type :=
  Pool ι (CacheCall V TokenCall) (CacheResp V TokenResp) (CacheWorld V TokenCall TokenResp)
    (Except DriverError V)

/-- Any interleaving of their calls. -/
abbrev Interleaved {ι V : Type} [DecidableEq ι] (s s' : Holders ι V) : Prop :=
  Pool.Runs cacheMachine (fun _ _ _ => True) s s'

/-- Instants are counted in nanoseconds. -/
def secs (n : Nat) : Nat := n * 1000000000

/-- Send a request and take the text of its answer. -/
abbrev textOf {V : Type} (req : TokenRequest) : Provider V (Except String (Except String String)) :=
  Cached.call (.ask (TokenCall.text req))

/-- Send a request and take its answer as JSON, with their errors. -/
def jsonOf {V : Type} (label : String) (req : TokenRequest) : Provider V Value := do
  let sent : Except String (Except String Value) ← Cached.call (.ask (TokenCall.json req))
  match sent with
  | .error e => throw (.internal s!"{label} request: {e}")
  | .ok (.error e) => throw (.internal s!"{label} decode: {e}")
  | .ok (.ok resp) => return resp

/-- `str::parse::<u64>`: decimal digits, after a plus sign perhaps. -/
def parseU64 (s : String) : Option Nat :=
  let digits := match s.toList with
    | '+' :: ds => ds
    | ds => ds
  if !digits.isEmpty && digits.all Char.isDigit then
    let n := digits.foldl (fun n c => 10 * n + (c.toNat - '0'.toNat)) 0
    if n < 2 ^ 64 then some n else none
  else none

/-! ## Azure -/

/-- The providers that keep their token. -/
inductive AzureTokenProvider : Type where
  | servicePrincipal (tenantId clientId clientSecret loginBase : String)
  | managedIdentity

namespace AzureTokenProvider

def request : AzureTokenProvider → TokenRequest
  | servicePrincipal tenantId clientId clientSecret loginBase =>
    { method := "POST"
      url := s!"{loginBase}/{tenantId}/oauth2/v2.0/token"
      headers := []
      query := []
      form := [("grant_type", "client_credentials"), ("client_id", clientId),
        ("client_secret", clientSecret), ("scope", "https://management.azure.com/.default")] }
  | managedIdentity =>
    { method := "GET"
      url := "http://169.254.169.254/metadata/identity/oauth2/token"
      headers := [("Metadata", "true")]
      query := [("api-version", "2018-02-01"), ("resource", "https://management.azure.com/")]
      form := [] }

def label : AzureTokenProvider → String
  | servicePrincipal .. => "SP token"
  | managedIdentity => "IMDS token"

def missing : AzureTokenProvider → String
  | servicePrincipal .. => "SP token: no access_token in response"
  | managedIdentity => "IMDS token: no access_token"

/-- The life of a token in seconds: a number with the one, a text with the other. -/
def expiresIn : AzureTokenProvider → Value → Nat
  | servicePrincipal .., resp => (asU64 (resp.idx "expires_in")).getD 3600
  | managedIdentity, resp => (((resp.idx "expires_in").asStr).bind parseU64).getD 3600

/-- For how long a token is handed out. -/
def life (p : AzureTokenProvider) (resp : Value) : Nat := secs (p.expiresIn resp - 60)

variable (jsonText : Value → String) (farthest : Nat) (p : AzureTokenProvider)

def fetch : Provider String (String × Nat) := do
  let resp ← jsonOf p.label p.request
  match (resp.idx "access_token").asStr with
  | none => throw (.internal s!"{p.missing}: {jsonText resp}")
  | some tok => return (tok, p.life resp)

def token : Provider String String := cached (p.fetch jsonText) farthest

end AzureTokenProvider

/-! ## AWS -/

/-- With the path of the credentials of an ECS task, or those of the role of an EC2 instance. -/
structure ImdsCredentialsProvider : Type where
  ecsUri : Option String

namespace ImdsCredentialsProvider

def ecsRequest (uri : String) : TokenRequest :=
  { method := "GET", url := s!"http://169.254.170.2{uri}", headers := [], query := [], form := [] }

def tokenRequest : TokenRequest :=
  { method := "PUT"
    url := "http://169.254.169.254/latest/api/token"
    headers := [("X-aws-ec2-metadata-token-ttl-seconds", "21600")]
    query := []
    form := [] }

/-- The names of the roles, or the credentials of one. -/
def roleRequest (imdsToken roleName : String) : TokenRequest :=
  { method := "GET"
    url := s!"http://169.254.169.254/latest/meta-data/iam/security-credentials/{roleName}"
    headers := [("X-aws-ec2-metadata-token", imdsToken)]
    query := []
    form := [] }

def credentialsOf (resp : Value) : AwsCredentials :=
  { accessKeyId := strOr resp "AccessKeyId" ""
    secretAccessKey := strOr resp "SecretAccessKey" ""
    sessionToken := (resp.idx "Token").asStr }

/-- `lines().next().unwrap_or("")` -/
def firstLine (text : String) : String :=
  match text.toList.span (· ≠ '\n') with
  | (line, []) => String.ofList line
  | (line, _ :: _) => String.ofList (if line.getLast? = some '\r' then line.dropLast else line)

def ecsCredentials (uri : String) : Provider AwsCredentials AwsCredentials := do
  let resp ← jsonOf "ECS IMDS" (ecsRequest uri)
  return credentialsOf resp

def roleCredentials (imdsToken roleName : String) : Provider AwsCredentials AwsCredentials := do
  if roleName.isEmpty then throw (.internal "IMDS: no IAM role found")
  else
    let resp ← jsonOf "IMDS creds" (roleRequest imdsToken roleName)
    return credentialsOf resp

def ec2Credentials : Provider AwsCredentials AwsCredentials := do
  match ← textOf tokenRequest with
  | .error e => throw (.internal s!"IMDSv2 token request: {e}")
  | .ok (.error e) => throw (.internal s!"IMDSv2 token decode: {e}")
  | .ok (.ok imdsToken) =>
    match ← textOf (roleRequest imdsToken "") with
    | .error e => throw (.internal s!"IMDS roles request: {e}")
    | .ok roles =>
      let roleName := match roles with
        | .ok rolesText => firstLine rolesText
        | .error _ => ""
      roleCredentials imdsToken roleName

/-- Credentials are kept for 10 minutes, whatever their own life is. -/
def life : Nat := secs 600

variable (farthest : Nat) (p : ImdsCredentialsProvider)

def fetch : Provider AwsCredentials (AwsCredentials × Nat) := do
  let creds ← match p.ecsUri with
    | some uri => ecsCredentials uri
    | none => ec2Credentials
  return (creds, life)

def credentials : Provider AwsCredentials AwsCredentials := cached p.fetch farthest

end ImdsCredentialsProvider

end Nclav
