import Nclav.Driver.Driver
import Nclav.Effect.Record

/-!
# The requests of the cloud drivers

The drivers of the public clouds are programs over the requests they send. A request is one call,
answered with what the driver's HTTP helper makes of the response; the waiting for a long-running
operation is one call too. Nothing is assumed of the answers.
-/

namespace Nclav

open Effect Serde

/-- What the drivers take from libraries. -/
structure Lib : Type where
  /-- `char::is_alphanumeric` -/
  isAlphanumeric : Char → Bool
  /-- `char::is_whitespace` -/
  isWhitespace : Char → Bool
  /-- `str::to_lowercase` -/
  toLowercase : String → String
  /-- `DefaultHasher` of a string, as 16 hex digits -/
  defaultHash : String → String
  /-- SHA-256 of a string, as hex digits -/
  sha256 : String → String
  /-- the text of the first element with a tag, read by `quick_xml` -/
  xmlText : String → String → Option String
  /-- the texts of all elements with a tag -/
  xmlAllTexts : String → String → List String
  /-- `serde_json::to_string` -/
  jsonText : Value → String

structure AwsCredentials : Type where
  accessKeyId : String
  secretAccessKey : String
  sessionToken : Option String

/-- The requests. -/
inductive CloudCall : Type where
  /-- a bearer token -/
  | bearer
  -- Google Cloud
  | get (url token : String)
  | patch (url token : String) (query : List (String × String)) (body : Value)
  | put (url token : String) (body : Value)
  | delete (url token : String)
  | postJson (url token : String) (body : Value)
  | post (url token : String) (body : Value)
  -- Azure Resource Manager
  | armPut (url : String) (body : Value)
  | armGet (url : String)
  | armDelete (url : String)
  -- both: the operation has ended
  | waitForOperation (opUrl : String)
  -- Amazon
  | credentials
  | queryApi (base region service : String) (creds : AwsCredentials)
      (params : List (String × String))
  | jsonApi (base region service target : String) (creds : AwsCredentials) (body : Value)
  | route53Post (path : String) (creds : AwsCredentials) (xml : String)
  -- `Utc::now().timestamp_millis()`, `Uuid::new_v4`
  | timestampMillis
  | newUuid
  /-- a slice that does not end at a character: the task dies -/
  | abort

/-- A response: its status and its body as JSON, or why that could not be decoded. -/
abbrev JsonResponse : Type := Nat × Except String Value

/-- The answers. A request that is not sent answers with a text. -/
@[reducible] def CloudResp : CloudCall → Type
  | .bearer => Except DriverError String
  | .get _ _ => Except String JsonResponse
  | .patch _ _ _ _ => Except String JsonResponse
  | .put _ _ _ => Except String JsonResponse
  | .delete _ _ => Except String JsonResponse
  | .postJson _ _ _ => Except DriverError Value
  | .post _ _ _ => Except String JsonResponse
  | .armPut _ _ => Except DriverError (Nat × Value × Option String)
  | .armGet _ => Except DriverError (Nat × Value)
  | .armDelete _ => Except DriverError Unit
  | .waitForOperation _ => Except DriverError Value
  | .credentials => Except DriverError AwsCredentials
  | .queryApi _ _ _ _ _ => Except DriverError String
  | .jsonApi _ _ _ _ _ _ => Except DriverError Value
  | .route53Post _ _ _ => Except DriverError String
  | .timestampMillis => Int
  | .newUuid => Uuid
  | .abort => Empty

/-- A request with its answer. -/
abbrev CloudEvent : Type := (c : CloudCall) × CloudResp c

/-- Programs of a driver. -/
abbrev Cloud : Type → Type := ExceptT DriverError (Prog CloudCall CloudResp)

/-- Send a request. -/
abbrev request (c : CloudCall) : Prog CloudCall CloudResp (CloudResp c) := Prog.perform c

/-- A request whose error is passed on. -/
abbrev ask {α : Type} (p : Prog CloudCall CloudResp (Except DriverError α)) : Cloud α := ExceptT.mk p

/-- Send a request and look at its answer. -/
abbrev send (c : CloudCall) : Cloud (CloudResp c) := monadLift (request c)

/-- `?`. -/
def orThrow {α : Type} (e : DriverError) : Option α → Cloud α
  | some a => return a
  | none => throw e

theorem returns_orThrow {α β : Type} {Q : β → Prop} {e : DriverError} {o : Option α}
    {f : α → Cloud β} (h : ∀ a, o = some a → Returns Q (f a)) : Returns Q (orThrow e o >>= f) := by
  cases o with
  | none => exact Returns.throw
  | some a => exact h a rfl

/-- A slice of a string, or the end of the task. -/
def orAbort {α : Type} : Option α → Cloud α
  | some a => return a
  | none => do
    let never ← send .abort
    nomatch never

/-- `json["key"].as_str()`, or the empty text. -/
def strOr (v : Value) (k dflt : String) : String := ((v.idx k).asStr).getD dflt

/-- `as_u64`. -/
def asU64 : Value → Option Nat
  | .num n => if 0 ≤ n ∧ n < 2 ^ 64 then some n.toNat else none
  | _ => none

/-- `str::parse::<u16>`: decimal digits, after a plus sign perhaps. -/
def parseU16 (s : String) : Option Nat :=
  let digits := match s.toList with
    | '+' :: ds => ds
    | ds => ds
  if !digits.isEmpty && digits.all Char.isDigit then
    let n := digits.foldl (fun n c => 10 * n + (c.toNat - '0'.toNat)) 0
    if n < 2 ^ 16 then some n else none
  else none

/-- The texts among the outputs that an export handle carries. -/
def exportedOutputs (exportHandle : Handle) : HashMap String String :=
  (((exportHandle.get? "outputs").bind (·.asObject)).getD []).foldl
    (fun m o => match o.2.asStr with
      | some s => m.insert o.1 s
      | none => m) ∅

/-- `&s[..n]`: the first `n` bytes, if they end at a character. -/
def bytePrefix (s : String) (n : Nat) : Option String :=
  (s.toList.inits.find? fun cs => (String.ofList cs).utf8ByteSize = n).map String.ofList

/-- The lowercased text of the error has this in it. -/
def Lib.mentions (lib : Lib) (e : DriverError) (text : String) : Bool :=
  (lib.toLowercase (toString e)).toList.tails.any text.toList.isPrefixOf

/-- A handle that is marked as complete. -/
def Handle.complete (h : Handle) : Bool := ((h.idx "provisioning_complete").asBool).getD false

/-- The project that a handle names. -/
def Handle.project (h : Handle) : Option String := (h.idx "project_id").asStr

/-! ## What an enclave asks for -/

/-- The parts of an enclave's boundary. -/
inductive Resource : Type where
  | subnet (cidr : String)
  | zone (name : String)
  | identity (name : String)
  deriving DecidableEq

def Enclave.subnets (enc : Enclave) : List String := (enc.network.map (·.subnets)).getD []

def Enclave.zone (enc : Enclave) : Option String := enc.dns.bind (·.zone)

/-- The parts that the definition of an enclave asks for. -/
def Enclave.resources (enc : Enclave) : List Resource :=
  enc.subnets.map .subnet ++ enc.zone.toList.map .zone ++ enc.identity.toList.map .identity

/-! ## What provisioning comes to -/

/-- Whenever the provisioning of an enclave succeeds its handle is complete, and it is the one
that was passed in or an accepted creation of every part of the definition is on record. -/
def Provides (creates : EnclaveId → Resource → CloudEvent → Prop) (enc : Enclave)
    (existing : Option Handle) (x : Cloud ProvisionResult) : Prop :=
  ∀ log, Prog.wpE recorder x (fun r log' => ∀ result, r = .ok result →
    Handle.complete result.handle = true ∧ (existing = some result.handle ∨
      ∀ part ∈ enc.resources, ∃ ev ∈ log', creates enc.id part ev)) log

section

variable {creates : EnclaveId → Resource → CloudEvent → Prop} {enc : Enclave}
  {existing : Option Handle} {handle : Handle} {x : Cloud ProvisionResult}

theorem Provides.reuse (h : Handle.complete handle = true) :
    Provides creates enc (some handle) (pure { handle, outputs := ∅ }) := by
  rintro log _ ⟨⟩
  exact ⟨h, .inl rfl⟩

theorem Provides.of_records (hcomplete : Returns (fun result => Handle.complete result.handle = true) x)
    (h : ∀ part ∈ enc.resources, Records (creates enc.id part) x) :
    Provides creates enc existing x := by
  intro log
  refine Prog.wp_iff.mpr fun r log' hrun result hr => ⟨?_, .inr fun part hpart => ?_⟩
  · exact Prog.wp_iff.mp (hcomplete log) r log' hrun result hr
  · exact Prog.wp_iff.mp (h part hpart log) r log' hrun result hr

theorem Provides.bind_right {α : Type} {y : Cloud α} {f : α → Cloud ProvisionResult}
    (h : ∀ a, Provides creates enc existing (f a)) : Provides creates enc existing (y >>= f) :=
  fun _ => Prog.wpE_bind_ok (Prog.wp_iff.mpr fun _ log' _ a _ => h a log')

theorem mem_resources {part : Resource} (h : part ∈ enc.resources) :
    (∃ cidr ∈ enc.subnets, part = .subnet cidr) ∨ (∃ name, enc.zone = some name ∧ part = .zone name) ∨
      ∃ name, enc.identity = some name ∧ part = .identity name := by
  simp only [Enclave.resources, List.mem_append, List.mem_map, Option.mem_toList] at h
  rcases h with (⟨cidr, hcidr, rfl⟩ | ⟨name, hname, rfl⟩) | ⟨name, hname, rfl⟩
  · exact .inl ⟨cidr, hcidr, rfl⟩
  · exact .inr (.inl ⟨name, hname, rfl⟩)
  · exact .inr (.inr ⟨name, hname, rfl⟩)

end

end Nclav
