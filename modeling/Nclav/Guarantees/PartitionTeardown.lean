import Nclav.Driver.Iam
import Nclav.Guarantees.AliasScope
import Nclav.Guarantees.Creation

/-!
# Tearing down an AWS partition

A partition is torn down in three steps: its role loses the attached policies, then the inline
policies, and is deleted then. The listings are read as far as the first page, and a role that is
missing is passed over in the last step only. So the role goes where it is there and each of its
listings is a single page (`partition_teardown_iff`), and a second teardown fails.
-/

namespace Nclav

open Effect

namespace Iam

variable {role : Role} {kind other : PolicyKind}

theorem Role.policies_without_of_ne (h : other ≠ kind) (names : List String) :
    (role.without kind names).policies other = role.policies other :=
  Function.update_of_ne h ..

namespace Service

variable {d : AwsDriver} {s : Service d} {roles : Roles} {roleName : String}

/-- The role without the policies of the first page. -/
def cleared (s : Service d) (kind : PolicyKind) (role : Role) : Role :=
  role.without kind ((s.page kind (role.policies kind)).map (·.1))

/-- A listing of one page leaves nothing behind. -/
theorem policies_cleared_eq_empty_iff :
    (s.cleared kind role).policies kind = ∅ ↔ s.Whole role kind := by
  have hmem (p : PolicyName) : p.1 ∈ (s.page kind (role.policies kind)).map (·.1) ↔
      p ∈ (s.page kind (role.policies kind)).toFinset := by
    rw [List.mem_toFinset]
    exact List.mem_map_of_injective Subtype.val_injective
  rw [cleared, Role.policies_without, Finset.filter_eq_empty_iff]
  constructor
  · intro h
    refine Finset.Subset.antisymm (fun p hp => ?_) fun p hp => ?_
    · exact s.page_subset kind _ p (List.mem_toFinset.mp hp)
    · exact (hmem p).mp (not_not.mp (h hp))
  · intro h p hp
    rw [not_not, hmem, h]
    exact hp

theorem bare_cleared_iff : (s.cleared .inline (s.cleared .attached role)).Bare ↔
    s.Whole role .attached ∧ s.Whole role .inline := by
  have hattached : (s.cleared .inline (s.cleared .attached role)).policies .attached =
      (s.cleared .attached role).policies .attached :=
    Role.policies_without_of_ne (by decide) _
  -- the second listing is of the role that the first step left
  have hinline : (s.cleared .attached role).policies .inline = role.policies .inline :=
    Role.policies_without_of_ne (by decide) _
  rw [Role.Bare, hattached, policies_cleared_eq_empty_iff, policies_cleared_eq_empty_iff, Whole,
    Whole, Whole, hinline]

theorem run_enclaveCreds (s : Service d) (roles : Roles) (accountId : String) :
    ∃ creds, s.server.run (d.enclaveCreds accountId) roles = some (.ok creds, roles) := by
  obtain ⟨key, hkey⟩ := Option.isSome_iff_exists.mp s.accessKeyId
  obtain ⟨secret, hsecret⟩ := Option.isSome_iff_exists.mp s.secretAccessKey
  refine ⟨⟨key, secret, d.lib.xmlText s.assumed "SessionToken"⟩, ?_⟩
  have hcreds : s.server.run (ask (request .credentials) : Cloud AwsCredentials) roles =
      some (.ok s.creds, roles) := rfl
  have hassume (params : List (String × String)) :
      s.server.run (ask (request (.queryApi d.base.sts "us-east-1" "sts" s.creds params)) :
        Cloud String) roles = some (.ok s.assumed, roles) := rfl
  refine (Server.run_bind_ok hcreds).trans ((Server.run_bind_ok (hassume _)).trans ?_)
  rw [hkey, hsecret]
  rfl

variable {part : Partition} {handle : Handle}

/-- With credentials it is the three steps. -/
theorem run_teardownPartition (s : Service d) (roles : Roles) (enc : Enclave) (part : Partition)
    (hacc : strOr handle "account_id" "" ≠ "") :
    ∃ creds, s.server.run (d.teardownPartition enc part handle) roles =
      s.server.run (do
        let roleName ← orAbort (d.partitionRoleName part.id.val)
        clearPolicies d creds roleName .attached
        clearPolicies d creds roleName .inline
        d.iamDeleteRole creds roleName) roles := by
  obtain ⟨creds, hcreds⟩ := run_enclaveCreds s roles (strOr handle "account_id" "")
  refine ⟨creds, ?_⟩
  have hassumed : s.server.run (tryCatch
      (do let creds ← d.enclaveCreds (strOr handle "account_id" ""); return some creds)
      fun _ => return none : Cloud (Option AwsCredentials)) roles =
        some (.ok (some creds), roles) :=
    Server.run_tryCatch_ok ((Server.run_bind_ok hcreds).trans (Server.run_pure _))
  rw [AwsDriver.teardownPartition, if_neg (by simpa using hacc)]
  simp only [iamDetachAllPolicies_eq, iamDeleteInlinePolicies_eq]
  exact Server.run_bind_ok hassumed

theorem run_teardownPartition_abort (enc : Enclave)
    (hacc : strOr handle "account_id" "" ≠ "")
    (hname : d.partitionRoleName part.id.val = none) :
    s.server.run (d.teardownPartition enc part handle) roles = none := by
  obtain ⟨creds, hrun⟩ := run_teardownPartition s roles enc part hacc
  rw [hrun, hname]
  rfl

theorem run_teardownPartition_missing (enc : Enclave)
    (hacc : strOr handle "account_id" "" ≠ "")
    (hname : d.partitionRoleName part.id.val = some roleName) (hrole : roles roleName = none) :
    s.server.run (d.teardownPartition enc part handle) roles =
      some (.error (s.error .noSuchEntity), roles) := by
  obtain ⟨creds, hrun⟩ := run_teardownPartition s roles enc part hacc
  rw [hrun, hname]
  refine (Server.run_bind_ok (Server.run_pure roleName)).trans ?_
  exact Server.run_bind_error (run_clearPolicies_none .attached hrole)

theorem run_teardownPartition_role (s : Service d) (enc : Enclave)
    (hacc : strOr handle "account_id" "" ≠ "")
    (hname : d.partitionRoleName part.id.val = some roleName) (hrole : roles roleName = some role) :
    s.server.run (d.teardownPartition enc part handle) roles =
      if s.Whole role .attached ∧ s.Whole role .inline then
        some (.ok (), Function.update roles roleName none)
      else some (.error (s.error .deleteConflict),
        Function.update roles roleName (some (s.cleared .inline (s.cleared .attached role)))) := by
  obtain ⟨creds, hrun⟩ := run_teardownPartition s roles enc part hacc
  rw [hrun, hname]
  refine (Server.run_bind_ok (Server.run_pure roleName)).trans ?_
  refine (Server.run_bind_ok (run_clearPolicies .attached hrole)).trans ?_
  refine (Server.run_bind_ok (run_clearPolicies .inline (Function.update_self ..))).trans ?_
  rw [Function.update_idem]
  refine (run_iamDeleteRole (Function.update_self ..)).trans ?_
  rw [Function.update_idem]
  exact if_congr bare_cleared_iff rfl rfl

/-- The teardown returns without an error, and the role of the partition does not exist. -/
def TornDown (s : Service d) (roles : Roles) (enc : Enclave) (part : Partition) (handle : Handle) :
    Prop :=
  ∃ roles', s.server.run (d.teardownPartition enc part handle) roles = some (.ok (), roles') ∧
    ∀ roleName, d.partitionRoleName part.id.val = some roleName → roles' roleName = none

end Service

end Iam

open Iam

/-- For every account: the teardown is complete exactly where the role is there, under a name that
can be derived, and each of its listings is whole on the first page. -/
theorem partition_teardown_iff {d : AwsDriver} (s : Service d) (roles : Roles) (enc : Enclave)
    (part : Partition) (handle : Handle) (hacc : strOr handle "account_id" "" ≠ "") :
    s.TornDown roles enc part handle ↔
      ∃ roleName role, d.partitionRoleName part.id.val = some roleName ∧
        roles roleName = some role ∧ s.Whole role .attached ∧ s.Whole role .inline := by
  cases hname : d.partitionRoleName part.id.val with
  | none =>
    constructor
    · rintro ⟨roles', hrun, -⟩
      cases (Service.run_teardownPartition_abort enc hacc hname).symm.trans hrun
    · rintro ⟨roleName, role, h, -⟩
      cases h
  | some roleName =>
    cases hrole : roles roleName with
    | none =>
      -- the first listing fails, and its error is passed on
      constructor
      · rintro ⟨roles', hrun, -⟩
        cases (Service.run_teardownPartition_missing enc hacc hname hrole).symm.trans hrun
      · rintro ⟨_, role, ⟨⟩, h, -⟩
        cases hrole.symm.trans h
    | some role =>
      have hend := Service.run_teardownPartition_role s enc hacc hname hrole
      constructor
      · rintro ⟨roles', hrun, -⟩
        by_cases hwhole : s.Whole role .attached ∧ s.Whole role .inline
        · exact ⟨roleName, role, rfl, hrole, hwhole⟩
        · rw [if_neg hwhole] at hend
          cases hend.symm.trans hrun
      · rintro ⟨_, role', ⟨⟩, h, hwhole⟩
        cases hrole.symm.trans h
        rw [if_pos hwhole] at hend
        refine ⟨_, hend, fun _ h => ?_⟩
        cases hname.symm.trans h
        exact Function.update_self ..

/-! ### An account -/

namespace Iam

open Xml (Content XmlEvent allTexts)

def administratorAccess : PolicyName :=
  ⟨"arn:aws:iam::aws:policy/AdministratorAccess", by decide +kernel⟩

/-- A page holds at most one policy, this one. -/
def onePage (names : Finset PolicyName) : List PolicyName :=
  if names = {administratorAccess} then [administratorAccess] else []

def render : Content → String
  | .nil => ""
  | .text s rest => s ++ render rest
  | .element tag children rest => s!"<{tag}>{render children}</{tag}>{render rest}"

def assumedXml : String :=
  "<Credentials><AccessKeyId>K</AccessKeyId><SecretAccessKey>S</SecretAccessKey></Credentials>"

/-- The listings that the account can answer with. -/
def listings : List Content :=
  [listing .attached [administratorAccess] false, listing .attached [] true,
   listing .attached [] false, listing .inline [administratorAccess] false,
   listing .inline [] true, listing .inline [] false]

def readListing (xml : String) : List XmlEvent :=
  ((listings.find? fun c => render c = xml).map (·.events)).getD []

def plainAws : AwsDriver where
  lib := { plainLib with
    xmlText := fun xml tag => if xml = assumedXml then
      (if tag = "AccessKeyId" then some "K" else if tag = "SecretAccessKey" then some "S" else none)
      else none
    xmlAllTexts := fun xml tag => allTexts (readListing xml) tag }
  config := ⟨"", "", "", none, "", none⟩
  base := ⟨"", "", "", "https://iam.amazonaws.com"⟩

theorem readListing_render {c : Content} (h : c ∈ listings) :
    readListing (render c) = c.events := by
  have hall : ∀ c ∈ listings, readListing (render c) = c.events := by
    decide +kernel
  exact hall c h

theorem onePage_subset (names : Finset PolicyName) : ∀ p ∈ onePage names, p ∈ names := by
  intro p hp
  rw [onePage] at hp
  split at hp
  · rename_i hnames
    rw [hnames, Finset.mem_singleton]
    exact List.mem_singleton.mp hp
  · cases hp

theorem listing_mem (kind : PolicyKind) (names : Finset PolicyName) (truncated : Bool)
    (h : truncated = decide ((onePage names).toFinset ≠ names)) :
    listing kind (onePage names) truncated ∈ listings := by
  rw [h, onePage]
  by_cases hnames : names = {administratorAccess}
  · subst hnames
    rw [if_pos rfl]
    cases kind with
    | attached => exact .head _
    | «inline» => exact .tail _ (.tail _ (.tail _ (.head _)))
  · rw [if_neg hnames]
    cases decide (([] : List PolicyName).toFinset ≠ names)
    · cases kind with
      | attached => exact .tail _ (.tail _ (.head _))
      | «inline» => exact .tail _ (.tail _ (.tail _ (.tail _ (.tail _ (.head _)))))
    · cases kind with
      | attached => exact .tail _ (.head _)
      | «inline» => exact .tail _ (.tail _ (.tail _ (.tail _ (.head _))))

theorem accessKeyId_assumedXml : (plainAws.lib.xmlText assumedXml "AccessKeyId").isSome := by
  decide +kernel

theorem secretAccessKey_assumedXml :
    (plainAws.lib.xmlText assumedXml "SecretAccessKey").isSome := by
  decide +kernel

theorem xmlAllTexts_plainAws (xml tag : String) :
    plainAws.lib.xmlAllTexts xml tag = allTexts (readListing xml) tag := rfl

/-- The texts of the faults. -/
def faultMessage : Fault → String
  | .noSuchEntity => "The role cannot be found."
  | .deleteConflict => "Cannot delete entity, must detach all policies first."

theorem conflict_faultMessage : AwsDriver.contains (.provisionFailed
    s!"{plainAws.base.iam}: {Fault.deleteConflict.code} — {faultMessage .deleteConflict}")
    "NoSuchEntity" = false := by
  decide +kernel

def plainAccount : Service plainAws where
  creds := ⟨"K", "S", none⟩
  assumed := assumedXml
  accessKeyId := accessKeyId_assumedXml
  secretAccessKey := secretAccessKey_assumedXml
  page _ := onePage
  page_subset _ := onePage_subset
  text := render
  read := readListing
  xmlAllTexts := xmlAllTexts_plainAws
  read_listing kind names truncated h := readListing_render (listing_mem kind names truncated h)
  message := faultMessage
  conflict := conflict_faultMessage

end Iam

/-- The role that provisioning makes goes. -/
theorem partition_teardown_iff_administrator :
    plainAccount.TornDown
      (fun roleName => if roleName = "nclav-partition-api" then
        some ⟨fun | .attached => {administratorAccess} | .inline => ∅⟩ else none)
      (plainEnclave "a" [] []) (plainPartition "api" []) (.object [("account_id", .str "1")]) := by
  refine (partition_teardown_iff plainAccount _ _ _ _ (by decide)).mpr
    ⟨"nclav-partition-api", _, by decide +kernel, if_pos rfl, ?_, ?_⟩
  · decide +kernel
  · decide +kernel

/-- A second teardown finds no role and fails. -/
theorem second_teardown_fails :
    ¬ plainAccount.TornDown (fun _ => none) (plainEnclave "a" [] []) (plainPartition "api" [])
      (.object [("account_id", .str "1")]) := by
  rintro ⟨roles', hrun, -⟩
  have hname : plainAws.partitionRoleName "api" = some "nclav-partition-api" := by decide +kernel
  have hfails : plainAccount.server.run (plainAws.teardownPartition (plainEnclave "a" [] [])
      (plainPartition "api" []) (.object [("account_id", .str "1")])) (fun _ => none) =
        some (.error (plainAccount.error .noSuchEntity), fun _ => none) :=
    Service.run_teardownPartition_missing _ (by decide) hname rfl
  cases hfails.symm.trans hrun

end Nclav
