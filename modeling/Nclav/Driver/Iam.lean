import Nclav.Driver.Aws
import Nclav.Effect.Server
import Nclav.Web.Xml

/-!
# IAM

An account is a map from the names of its roles to their policies. What is asked about a role that
is not there is answered with `NoSuchEntity`, a listing is answered with its first page, and a role
that has policies left is not deleted: `DeleteConflict`.

The driver is run against this server (`Service.server`). Both of its loops over policies are
`clearPolicies`, which takes the policies of the first page away.
-/

namespace Nclav

open Effect Xml

namespace Iam

/-- The name of a policy or its ARN: not empty, and without blanks. -/
abbrev PolicyName : Type := { s : String // s ≠ "" ∧ s.toList.all (!·.isWhitespace) = true }

inductive PolicyKind : Type where
  | attached
  | «inline»
  deriving DecidableEq

structure Role : Type where
  policies : PolicyKind → Finset PolicyName

/-- The roles of an account. -/
abbrev Roles : Type := String → Option Role

namespace Role

variable (role : Role) (kind : PolicyKind)

/-- The role without these of its policies. -/
def without (names : List String) : Role where
  policies := Function.update role.policies kind ((role.policies kind).filter (·.1 ∉ names))

/-- No policy is left. -/
def Bare : Prop := role.policies .attached = ∅ ∧ role.policies .inline = ∅

instance : Decidable role.Bare := inferInstanceAs (Decidable (_ ∧ _))

variable {role kind}

theorem without_nil : role.without kind [] = role := by
  rw [without, Finset.filter_true_of_mem fun _ _ => List.not_mem_nil, Function.update_eq_self]

theorem policies_without (names : List String) :
    (role.without kind names).policies kind = (role.policies kind).filter (·.1 ∉ names) :=
  Function.update_self ..

theorem without_without (names names' : List String) :
    (role.without kind names).without kind names' = role.without kind (names ++ names') := by
  have hboth : ((role.without kind names).policies kind).filter (·.1 ∉ names') =
      (role.policies kind).filter (·.1 ∉ names ++ names') := by
    rw [policies_without, Finset.filter_filter]
    simp only [List.mem_append, not_or]
  rw [without, hboth]
  exact congrArg Role.mk (Function.update_idem ..)

end Role

/-! ## Requests -/

/-- What can be asked about a role. -/
inductive Action : Type where
  | list (kind : PolicyKind)
  | delete (kind : PolicyKind) (name : String)
  | deleteRole
  deriving DecidableEq

namespace Action

def name : Action → String
  | list .attached => "ListAttachedRolePolicies"
  | list .inline => "ListRolePolicies"
  | delete .attached _ => "DetachRolePolicy"
  | delete .inline _ => "DeleteRolePolicy"
  | deleteRole => "DeleteRole"

/-- The parameters besides the role. -/
def params : Action → List (String × String)
  | delete .attached name => [("PolicyArn", name)]
  | delete .inline name => [("PolicyName", name)]
  | _ => []

/-- The action that the parameters of a request name. -/
def ofParams (params : List (String × String)) : Option Action :=
  match params.lookup "Action" with
  | some "ListAttachedRolePolicies" => some (list .attached)
  | some "ListRolePolicies" => some (list .inline)
  | some "DetachRolePolicy" => (params.lookup "PolicyArn").map (delete .attached)
  | some "DeleteRolePolicy" => (params.lookup "PolicyName").map (delete .inline)
  | some "DeleteRole" => some deleteRole
  | _ => none

/-- All the parameters of a request. -/
def request (action : Action) (roleName : String) : List (String × String) :=
  [("Action", action.name), ("Version", "2010-05-08"), ("RoleName", roleName)] ++ action.params

theorem ofParams_request (action : Action) (roleName : String) :
    ofParams (action.request roleName) = some action := by
  rcases action with (_ | _) | ⟨_ | _, name⟩ | _
  all_goals rfl

theorem roleName_request (action : Action) (roleName : String) :
    (action.request roleName).lookup "RoleName" = some roleName := rfl

end Action

/-! ## Answers -/

/-- The texts of a listing stand in elements with this tag. -/
def PolicyKind.tag : PolicyKind → String
  | .attached => "PolicyArn"
  | .inline => "member"

/-- The last part of an ARN. -/
def lastPart (arn : String) : String :=
  String.ofList (arn.toList.reverse.takeWhile (· ≠ '/')).reverse

/-- An element that holds a text. An empty text is none. -/
def field (tag value : String) (rest : Content) : Content :=
  .element tag (if value = "" then .nil else .text value .nil) rest

/-- A page of a listing. -/
def listing (kind : PolicyKind) (page : List PolicyName) (truncated : Bool) : Content :=
  let isTruncated := field "IsTruncated" (if truncated then "true" else "false") .nil
  match kind with
  | .attached =>
    let members := page.map fun arn =>
      field "PolicyName" (lastPart arn.1) (field "PolicyArn" arn.1 .nil)
    .element "ListAttachedRolePoliciesResponse"
      (.element "ListAttachedRolePoliciesResult"
        (.element "AttachedPolicies" (.elements "member" members) isTruncated) .nil) .nil
  | .inline =>
    let members := page.map fun name => .text name.1 .nil
    .element "ListRolePoliciesResponse"
      (.element "ListRolePoliciesResult"
        (.element "PolicyNames" (.elements "member" members) isTruncated) .nil) .nil

theorem textsOf_field_of_ne {name tag : String} (value : String) (rest : Content)
    (h : name ≠ tag) : (field name value rest).textsOf tag = rest.textsOf tag := by
  rw [field, Content.textsOf, if_neg h]
  split
  · rfl
  · rfl

theorem textsOf_field {tag value : String} (rest : Content) (h : value ≠ "") :
    (field tag value rest).textsOf tag = value :: rest.textsOf tag := by
  rw [field, Content.textsOf, if_pos rfl, if_neg h]
  rfl

theorem textsOf_listing (kind : PolicyKind) (page : List PolicyName) (truncated : Bool) :
    (listing kind page truncated).textsOf kind.tag = page.map (·.1) := by
  cases kind with
  | attached =>
    have hmembers : (Content.elements "member" (page.map fun arn =>
        field "PolicyName" (lastPart arn.1) (field "PolicyArn" arn.1 .nil))).textsOf "PolicyArn" =
          page.map (·.1) := by
      induction page with
      | nil => rfl
      | cons arn page ih =>
        have hmember : (field "PolicyName" (lastPart arn.1)
            (field "PolicyArn" arn.1 .nil)).textsOf "PolicyArn" = [arn.1] := by
          rw [textsOf_field_of_ne _ _ (by decide), textsOf_field _ arn.2.1, Content.textsOf]
        rw [List.map_cons, Content.elements, Content.textsOf, if_neg (by decide), hmember, ih]
        rfl
    -- around the members there is no other ARN
    refine Eq.trans ?_ hmembers
    simp [listing, PolicyKind.tag, Content.textsOf, textsOf_field_of_ne]
  | «inline» =>
    have hmembers : (Content.elements "member" (page.map fun name : PolicyName =>
        Content.text name.1 .nil)).textsOf "member" = page.map (·.1) := by
      induction page with
      | nil => rfl
      | cons name page ih => exact congrArg (name.1 :: ·) ih
    refine Eq.trans ?_ hmembers
    simp [listing, PolicyKind.tag, Content.textsOf, textsOf_field_of_ne]

inductive Fault : Type where
  | noSuchEntity
  | deleteConflict

def Fault.code : Fault → String
  | .noSuchEntity => "NoSuchEntity"
  | .deleteConflict => "DeleteConflict"

/-- What stands behind a driver: an account whose role can be assumed, and the reader of XML. -/
structure Service (d : AwsDriver) : Type where
  creds : AwsCredentials
  /-- the answer of `AssumeRole` -/
  assumed : String
  accessKeyId : (d.lib.xmlText assumed "AccessKeyId").isSome
  secretAccessKey : (d.lib.xmlText assumed "SecretAccessKey").isSome
  /-- the first page of a listing -/
  page : PolicyKind → Finset PolicyName → List PolicyName
  page_subset : ∀ kind names, ∀ p ∈ page kind names, p ∈ names
  text : Content → String
  read : String → List XmlEvent
  xmlAllTexts : ∀ xml tag, d.lib.xmlAllTexts xml tag = allTexts (read xml) tag
  read_listing : ∀ kind names truncated,
    truncated = decide ((page kind names).toFinset ≠ names) →
      read (text (listing kind (page kind names) truncated)) =
        (listing kind (page kind names) truncated).events
  message : Fault → String
  /-- the text of a conflict does not mention a missing entity -/
  conflict : AwsDriver.contains (.provisionFailed
    s!"{d.base.iam}: {Fault.deleteConflict.code} — {message .deleteConflict}") "NoSuchEntity" =
      false

namespace Service

variable {d : AwsDriver} (s : Service d)

/-- The error that the driver makes of an answer. -/
def error (fault : Fault) : DriverError :=
  .provisionFailed s!"{d.base.iam}: {fault.code} — {s.message fault}"

/-- The first page is all there is. -/
def Whole (role : Role) (kind : PolicyKind) : Prop :=
  (s.page kind (role.policies kind)).toFinset = role.policies kind

instance (role : Role) (kind : PolicyKind) : Decidable (s.Whole role kind) :=
  inferInstanceAs (Decidable (_ = _))

def answer (roles : Roles) (roleName : String) (action : Action) : Except DriverError String :=
  match roles roleName with
  | none => .error (s.error .noSuchEntity)
  | some role => match action with
    | .list kind =>
      .ok (s.text (listing kind (s.page kind (role.policies kind)) (decide (¬ s.Whole role kind))))
    | .delete kind name =>
      if ∃ p ∈ role.policies kind, p.1 = name then .ok (s.text .nil)
      else .error (s.error .noSuchEntity)
    | .deleteRole => if role.Bare then .ok (s.text .nil) else .error (s.error .deleteConflict)

section

variable {s} {roles : Roles} {roleName : String} {role : Role}

theorem answer_none {action : Action} (h : roles roleName = none) :
    s.answer roles roleName action = .error (s.error .noSuchEntity) := by
  rw [answer, h]

theorem answer_list (kind : PolicyKind) (h : roles roleName = some role) :
    s.answer roles roleName (.list kind) = .ok (s.text
      (listing kind (s.page kind (role.policies kind)) (decide (¬ s.Whole role kind)))) := by
  rw [answer, h]

theorem answer_deleteRole (h : roles roleName = some role) :
    s.answer roles roleName .deleteRole =
      if role.Bare then .ok (s.text .nil) else .error (s.error .deleteConflict) := by
  rw [answer, h]

end

/-- The roles after an action. -/
def after (roles : Roles) (roleName : String) : Action → Roles
  | .list _ => roles
  | .delete kind name =>
    Function.update roles roleName ((roles roleName).map (·.without kind [name]))
  | .deleteRole =>
    Function.update roles roleName ((roles roleName).filter fun role => ¬ role.Bare)

/-- STS and IAM. -/
def server : Server CloudCall CloudResp Roles where
  answer
    | _, .credentials => some (.ok s.creds)
    | roles, .queryApi _ _ service _ params =>
      if service = "sts" then some (.ok s.assumed)
      else do
        -- a request that names no role or no action of these is not answered
        let roleName ← params.lookup "RoleName"
        let action ← Action.ofParams params
        return s.answer roles roleName action
    | _, _ => none
  after
    | roles, .queryApi _ _ "iam" _ params =>
      match params.lookup "RoleName", Action.ofParams params with
      | some roleName, some action => after roles roleName action
      | _, _ => roles
    | roles, _ => roles

/-- The request of the driver for an action. -/
def call (d : AwsDriver) (creds : AwsCredentials) (roleName : String) (action : Action) :
    CloudCall :=
  d.iamRequest creds action.name roleName action.params

variable {s} {creds : AwsCredentials} {roles : Roles} {roleName : String} {role : Role}

theorem answer_call (action : Action) :
    s.server.answer roles (call d creds roleName action) =
      some (s.answer roles roleName action) := by
  show (do
    let roleName ← (action.request roleName).lookup "RoleName"
    let action ← Action.ofParams (action.request roleName)
    return s.answer roles roleName action) = _
  rw [Action.roleName_request]
  show (Action.ofParams (action.request roleName)).bind _ = _
  rw [Action.ofParams_request]
  rfl

theorem after_call (action : Action) :
    s.server.after roles (call d creds roleName action) = after roles roleName action := by
  show (match (action.request roleName).lookup "RoleName",
      Action.ofParams (action.request roleName) with
    | some roleName, some action => after roles roleName action
    | _, _ => roles) = _
  rw [Action.roleName_request, Action.ofParams_request]

/-! ## The driver against the server -/

theorem run_send {α : Type} (action : Action) (f : Except DriverError String → Cloud α) :
    s.server.run (send (call d creds roleName action) >>= f) roles =
      s.server.run (f (s.answer roles roleName action)) (after roles roleName action) := by
  have hafter : s.server.after roles (call d creds roleName action) = after roles roleName action :=
    after_call action
  rw [← hafter]
  exact Server.run_bind_ok (Server.run_send (answer_call action))

theorem run_ask (action : Action) :
    s.server.run (ask (request (call d creds roleName action)) : Cloud String) roles =
      some (s.answer roles roleName action, after roles roleName action) := by
  have hafter : s.server.after roles (call d creds roleName action) = after roles roleName action :=
    after_call action
  rw [← hafter]
  exact Prog.tryRun_call _ _ (answer_call action)

/-- Take the policies of one kind away from a role, as far as its listing names them. -/
def clearPolicies (d : AwsDriver) (creds : AwsCredentials) (roleName : String) (kind : PolicyKind) :
    Cloud Unit := do
  let xml ← ask (request (call d creds roleName (.list kind)))
  (d.lib.xmlAllTexts xml kind.tag).forM fun name => do
    let _ ← send (call d creds roleName (.delete kind name))
    return

theorem iamDetachAllPolicies_eq :
    d.iamDetachAllPolicies creds roleName = clearPolicies d creds roleName .attached := rfl

theorem iamDeleteInlinePolicies_eq :
    d.iamDeleteInlinePolicies creds roleName = clearPolicies d creds roleName .inline := rfl

/-- The driver reads the page that it is given. -/
theorem xmlAllTexts_listing (kind : PolicyKind) (role : Role) :
    d.lib.xmlAllTexts
        (s.text (listing kind (s.page kind (role.policies kind)) (decide (¬ s.Whole role kind))))
        kind.tag = (s.page kind (role.policies kind)).map (·.1) := by
  have hread := s.read_listing kind (role.policies kind) (decide (¬ s.Whole role kind)) rfl
  rw [s.xmlAllTexts, hread, allTexts_events, textsOf_listing]

theorem foldl_deletions (kind : PolicyKind) (names : List String) (h : roles roleName = some role) :
    names.foldl (fun roles name => after roles roleName (.delete kind name)) roles =
      Function.update roles roleName (some (role.without kind names)) := by
  induction names generalizing roles role with
  | nil =>
    rw [Role.without_nil, ← h, Function.update_eq_self]
    rfl
  | cons name names ih =>
    have hstep : after roles roleName (.delete kind name) =
        Function.update roles roleName (some (role.without kind [name])) := by
      rw [after, h, Option.map_some]
    rw [List.foldl_cons, hstep, ih (Function.update_self ..), Function.update_idem,
      Role.without_without]
    rfl

/-- Deletions one after the other, whatever each is answered. -/
theorem run_deletions (kind : PolicyKind) (names : List String) (h : roles roleName = some role) :
    s.server.run (names.forM fun name => do
      let _ ← send (call d creds roleName (.delete kind name))
      return : Cloud Unit) roles =
    some (.ok (), Function.update roles roleName (some (role.without kind names))) := by
  rw [← foldl_deletions kind names h]
  exact Server.run_forM (fun name _ => run_send (.delete kind name) fun _ => pure ()) names

theorem run_clearPolicies_none (kind : PolicyKind) (h : roles roleName = none) :
    s.server.run (clearPolicies d creds roleName kind) roles =
      some (.error (s.error .noSuchEntity), roles) :=
  Server.run_bind_error ((run_ask (.list kind)).trans (by rw [answer_none h, after]))

/-- What is on the first page goes. -/
theorem run_clearPolicies (kind : PolicyKind) (h : roles roleName = some role) :
    s.server.run (clearPolicies d creds roleName kind) roles =
      some (.ok (), Function.update roles roleName
        (some (role.without kind ((s.page kind (role.policies kind)).map (·.1))))) := by
  refine (Server.run_bind_ok ((run_ask (.list kind)).trans (by rw [answer_list kind h]))).trans ?_
  rw [xmlAllTexts_listing]
  exact run_deletions kind _ h

theorem run_iamDeleteRole (h : roles roleName = some role) :
    s.server.run (d.iamDeleteRole creds roleName) roles =
      if role.Bare then some (.ok (), Function.update roles roleName none)
      else some (.error (s.error .deleteConflict), roles) := by
  refine (run_send .deleteRole _).trans ?_
  rw [answer_deleteRole h, after, h]
  by_cases hbare : role.Bare
  · rw [if_pos hbare, if_pos hbare, Option.filter_some, if_neg (by simp [hbare])]
    rfl
  · have hcontains : AwsDriver.contains (s.error .deleteConflict) "NoSuchEntity" = false :=
      s.conflict
    rw [if_neg hbare, if_neg hbare, Option.filter_some, if_pos (by simp [hbare]), ← h,
      Function.update_eq_self]
    show s.server.run (if AwsDriver.contains (s.error .deleteConflict) "NoSuchEntity" then _ else _)
      roles = _
    rw [hcontains]
    rfl

end Service

end Iam

end Nclav
