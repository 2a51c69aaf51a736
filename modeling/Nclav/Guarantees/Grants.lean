import Nclav.Driver.Gcp
import Nclav.Effect.Pool

/-!
# Adding a grant

The GCP driver adds a grant to the policy of a resource by reading the policy and writing it back
with the grant, and an export that needs no authentication by writing a policy of its own. Whether
the other grants survive depends on what was read: a read that fails counts as a policy without
bindings, and nothing shows that the policy has changed since. `grants_kept_of_fresh` says that they
survive any interleaving in which each call that writes has read all that is then in force.
-/

namespace Nclav

open Effect Serde

/-- A member and the role given to it. -/
structure Grant : Type where
  role : String
  member : String
  deriving DecidableEq

/-- The binding gives the role to the member. -/
def Gives (g : Grant) (binding : Value) : Prop :=
  (binding.idx "role").asStr = some g.role ∧
    ∃ members, (binding.idx "members").asArray = some members ∧ .str g.member ∈ members

/-- A binding of the policy gives the role to the member. -/
def Grants (policy : Value) (g : Grant) : Prop :=
  ∃ binding ∈ GcpDriver.bindingsOf policy, Gives g binding

section

variable {member role : String} {bindings written members : List Value} {binding : Value}

theorem asStr_eq_some {v : Value} {s : String} : v.asStr = some s ↔ v = .str s := by
  cases v with
  | str t => simp [Value.asStr]
  | _ => simp [Value.asStr]

theorem gives_set (hrole : (binding.idx "role").asStr = some role)
    (hmembers : (binding.idx "members").asArray = some members) (g : Grant) :
    Gives g (binding.set "members" (.arr (members ++ [.str member]))) ↔
      Gives g binding ∨ g = ⟨role, member⟩ := by
  obtain ⟨fields, rfl⟩ : ∃ fields, binding = .obj fields := by
    cases binding with
    | obj fields => exact ⟨fields, rfl⟩
    | _ => cases hrole
  have hrole' : (((Value.obj fields).set "members" (.arr (members ++ [.str member]))).idx "role") =
      (Value.obj fields).idx "role" := by
    rw [Value.idx, Value.get?_set, if_neg (by decide), Value.idx]
  have hmembers' : (((Value.obj fields).set "members" (.arr (members ++ [.str member]))).idx
      "members").asArray = some (members ++ [.str member]) := by
    rw [Value.idx, Value.get?_set, if_pos rfl]
    rfl
  rw [Gives, hrole', hrole, hmembers', Gives, hrole, hmembers]
  obtain ⟨role', member'⟩ := g
  constructor
  · rintro ⟨hr, _, ⟨⟩, hm⟩
    rcases List.mem_append.mp hm with hm | hm
    · exact .inl ⟨hr, members, rfl, hm⟩
    · obtain rfl := Value.str.inj (List.mem_singleton.mp hm)
      exact .inr (by rw [Option.some.inj hr])
  · rintro (⟨hr, _, ⟨⟩, hm⟩ | heq)
    · exact ⟨hr, _, rfl, List.mem_append_left _ hm⟩
    · cases heq
      exact ⟨rfl, _, rfl, List.mem_append_right _ (List.mem_singleton.mpr rfl)⟩

/-- The bindings that are written give what those that were read give, and the new grant. -/
theorem gives_addMember (h : GcpDriver.addMember member role bindings = some (some written))
    (g : Grant) : (∃ binding ∈ written, Gives g binding) ↔
      (∃ binding ∈ bindings, Gives g binding) ∨ g = ⟨role, member⟩ := by
  induction bindings generalizing written with
  | nil =>
    obtain rfl := Option.some.inj (Option.some.inj h)
    have hnew : Gives g (.object [("role", .str role), ("members", .arr [.str member])]) ↔
        g = ⟨role, member⟩ := by
      obtain ⟨role', member'⟩ := g
      simp [Gives, Value.idx_object, Value.lookup_cons_eq_ite, Value.asStr, Value.asArray,
        eq_comm]
    simpa using hnew
  | cons binding bindings ih =>
    rw [GcpDriver.addMember] at h
    split at h
    · rename_i hrole
      obtain ⟨members, hmembers, hwritten⟩ := Option.map_eq_some_iff.mp h
      split at hwritten
      · cases hwritten
      obtain rfl := Option.some.inj hwritten
      rw [List.exists_mem_cons_iff, List.exists_mem_cons_iff, gives_set hrole hmembers]
      exact or_right_comm
    · obtain ⟨rest, hrest, hwritten⟩ := Option.map_eq_some_iff.mp h
      obtain ⟨bindings', rfl, rfl⟩ := Option.map_eq_some_iff.mp hwritten
      rw [List.exists_mem_cons_iff, List.exists_mem_cons_iff, ih hrest, or_assoc]

/-- Where nothing is written the grant was in what was read. -/
theorem gives_of_addMember (h : GcpDriver.addMember member role bindings = some none) :
    ∃ binding ∈ bindings, Gives ⟨role, member⟩ binding := by
  induction bindings with
  | nil => cases h
  | cons binding bindings ih =>
    rw [GcpDriver.addMember] at h
    split at h
    · rename_i hrole
      obtain ⟨members, hmembers, hnone⟩ := Option.map_eq_some_iff.mp h
      split at hnone
      · rename_i hany
        obtain ⟨m, hm, hmember⟩ := List.any_eq_true.mp hany
        obtain rfl := asStr_eq_some.mp (of_decide_eq_true hmember)
        exact ⟨binding, List.mem_cons_self .., hrole, members, hmembers, hm⟩
      · cases hnone
    · obtain ⟨rest, hrest, hnone⟩ := Option.map_eq_some_iff.mp h
      obtain rfl := Option.map_eq_none_iff.mp hnone
      obtain ⟨binding', hmem, hgives⟩ := ih hrest
      exact ⟨binding', List.mem_cons_of_mem _ hmem, hgives⟩

end

/-! ## The policy of one resource -/

/-- The policy in force, and what was sent so far, newest first. -/
structure PolicyWorld : Type where
  policy : Value
  log : List CloudEvent

def readUrl (resource : String) : String := s!"{resource}:getIamPolicy"

def writeUrl (resource : String) : String := s!"{resource}:setIamPolicy"

/-- The policy after a request: an accepted write replaces it by the one sent. A write whose answer
is an error may have taken effect all the same. -/
def PolicyWorld.nextPolicy (resource : String) (landed : List CloudEvent → Bool) (w : PolicyWorld)
    (c : CloudCall) (r : CloudResp c) : Value :=
  match c, r with
  | .postJson url _ body, r =>
    if url = writeUrl resource ∧ (r.isOk || landed w.log) = true then body.idx "policy"
    else w.policy
  | _, _ => w.policy

/-- What is assumed of the service: a read answers with the policy in force, or fails. -/
def policyMachine (resource : String) (landed : List CloudEvent → Bool) :
    Machine CloudCall CloudResp PolicyWorld where
  adm w c r :=
    match c, r with
    | .postJson url _ _, .ok answer => url = readUrl resource → answer = w.policy
    | _, _ => True
  next w c r := ⟨w.nextPolicy resource landed c r, ⟨c, r⟩ :: w.log⟩

/-- A call that adds a grant on the resource. -/
inductive GrantJob (resource : String) : Type where
  | binding (token member role : String)
  | httpExport (d : GcpDriver) (enclave : Enclave) (ex : Export)
    (partitionOutputs : HashMap String String) (existing : Option Handle)
    (hresource : s!"{d.base.run}/v2/{d.serviceName enclave ex}" = resource)
    (htype : ex.exportType = .http) (hauth : ex.auth = .none)

namespace GrantJob

variable {resource : String}

def program : GrantJob resource → Cloud Unit
  | .binding token member role => GcpDriver.ensureIamRoleBinding token resource member role
  | .httpExport d enclave ex partitionOutputs existing _ _ _ => do
    let _ ← d.provisionExport enclave ex partitionOutputs existing
    return

/-- The grant that the call adds. -/
def asked : GrantJob resource → Grant
  | .binding _ member role => ⟨role, member⟩
  | .httpExport _ _ _ _ _ _ _ _ => ⟨"roles/run.invoker", "allUsers"⟩

end GrantJob

/-- Calls on one resource, each with what is left of it. -/
abbrev GrantPool (ι : Type) : Type :=
  Pool ι CloudCall CloudResp PolicyWorld (Except DriverError Unit)

/-- The pool before any of the calls has begun. -/
def GrantPool.start {ι : Type} {resource : String} (jobs : ι → GrantJob resource) (policy : Value) :
    GrantPool ι :=
  ⟨fun i => (jobs i).program.run, ⟨policy, []⟩⟩

/-- What the call knows of the policy when it writes: a binding is added to what it has read, a
failed read being an empty policy, and an export has read nothing. -/
def GrantJob.Knows {resource : String} (job : GrantJob resource)
    (rest : Prog CloudCall CloudResp (Except DriverError Unit)) (g : Grant) : Prop :=
  match job with
  | .binding token member role => ∃ read, Grants (GcpDriver.currentPolicy read) g ∧
      rest = (GcpDriver.writeIamRoleBinding token resource member role read).run
  | .httpExport .. => False

/-- The condition on a step: who writes knows of all grants in force, but for the one it adds. -/
def Fresh {ι : Type} {resource : String} (jobs : ι → GrantJob resource) (s : GrantPool ι) (i : ι)
    (c : CloudCall) : Prop :=
  (∃ token body, c = .postJson (writeUrl resource) token body) →
    ∀ g, Grants s.world.policy g → g = (jobs i).asked ∨ (jobs i).Knows (s.threads i) g

/-! ## What one request does -/

theorem readUrl_ne_writeUrl (resource : String) : readUrl resource ≠ writeUrl resource := by
  intro h
  have hsuffix : toString ":getIamPolicy" = toString ":setIamPolicy" := String.append_right_inj _ |>.mp h
  exact absurd hsuffix (by decide)

theorem ensureIamRoleBinding_run (token resource member role : String) :
    (GcpDriver.ensureIamRoleBinding token resource member role).run =
      .call (.postJson (readUrl resource) token (.object [])) fun read =>
        (GcpDriver.writeIamRoleBinding token resource member role read).run := rfl

/-- What is left after the write. -/
def afterWrite (answer : Except DriverError Value) :
    Prog CloudCall CloudResp (Except DriverError Unit) := .ret (answer.map fun _ => ())

theorem grants_of_add {member role : String} {policy policy' : Value}
    (hadd : GcpDriver.addMember member role (GcpDriver.bindingsOf policy) =
      some (some (GcpDriver.bindingsOf policy'))) (g : Grant) :
    Grants policy' g ↔ Grants policy g ∨ g = ⟨role, member⟩ := gives_addMember hadd g

theorem writeIamRoleBinding_of_add {token resource member role : String}
    {read : Except DriverError Value} {written : List Value}
    (hadd : GcpDriver.addMember member role
      (GcpDriver.bindingsOf (GcpDriver.currentPolicy read)) = some (some written)) :
    ∃ body, (GcpDriver.writeIamRoleBinding token resource member role read).run =
        .call (.postJson (writeUrl resource) token body) afterWrite ∧
      GcpDriver.bindingsOf (body.idx "policy") = written := by
  rw [GcpDriver.writeIamRoleBinding, hadd]
  refine ⟨.object [("policy", .object [("version", .num 1), ("bindings", .arr written)])], ?_, ?_⟩
  · show Prog.call _ _ = Prog.call _ _
    refine congrArg _ (funext fun r => ?_)
    cases r with
    | error e => rfl
    | ok _ => rfl
  · simp [GcpDriver.bindingsOf, Value.idx_object, Value.lookup_cons_eq_ite, Value.asArray]

/-- After its read a call dies, has found the grant, or writes what it has read with the grant. -/
theorem writeIamRoleBinding_cases (token resource member role : String)
    (read : Except DriverError Value) :
    (∃ k, (GcpDriver.writeIamRoleBinding token resource member role read).run = .call .abort k) ∨
    ((GcpDriver.writeIamRoleBinding token resource member role read).run = .ret (.ok ()) ∧
      Grants (GcpDriver.currentPolicy read) ⟨role, member⟩) ∨
    ∃ body, (GcpDriver.writeIamRoleBinding token resource member role read).run =
        .call (.postJson (writeUrl resource) token body) afterWrite ∧
      ∀ g, Grants (body.idx "policy") g ↔
        Grants (GcpDriver.currentPolicy read) g ∨ g = ⟨role, member⟩ := by
  rcases hadd : GcpDriver.addMember member role
    (GcpDriver.bindingsOf (GcpDriver.currentPolicy read)) with _ | _ | written
  · rw [GcpDriver.writeIamRoleBinding, hadd]
    exact .inl ⟨_, rfl⟩
  · rw [GcpDriver.writeIamRoleBinding, hadd]
    exact .inr (.inl ⟨rfl, gives_of_addMember hadd⟩)
  · obtain ⟨body, hrun, rfl⟩ := writeIamRoleBinding_of_add hadd
    exact .inr (.inr ⟨body, hrun, grants_of_add hadd⟩)

/-- What an export without authentication sends. -/
def allUsersBody : Value :=
  .object [("policy", .object [("bindings", .arr [.object
    [("role", .str "roles/run.invoker"), ("members", .arr [.str "allUsers"])]])])]

theorem grants_allUsersBody {g : Grant} :
    Grants (allUsersBody.idx "policy") g ↔ g = ⟨"roles/run.invoker", "allUsers"⟩ := by
  obtain ⟨role, member⟩ := g
  simp [Grants, Gives, allUsersBody, GcpDriver.bindingsOf, Value.idx_object,
    Value.lookup_cons_eq_ite, Value.asArray, Value.asStr, eq_comm]

theorem httpExport_run {resource : String} {d : GcpDriver} {enclave : Enclave} {ex : Export}
    {partitionOutputs : HashMap String String} {existing : Option Handle}
    (hresource : s!"{d.base.run}/v2/{d.serviceName enclave ex}" = resource)
    (htype : ex.exportType = .http) (hauth : ex.auth = .none) :
    (GrantJob.httpExport d enclave ex partitionOutputs existing hresource htype hauth).program.run =
      .call .bearer fun
        | .error e => .ret (.error e)
        | .ok token => .call (.postJson (writeUrl resource) token allUsersBody) afterWrite := by
  subst hresource
  show Prog.call _ _ = Prog.call _ _
  refine congrArg _ (funext fun token => ?_)
  rcases token with e | token
  · rfl
  simp only [htype, hauth, if_true]
  show Prog.call _ _ = Prog.call _ _
  refine congrArg _ (funext fun r => ?_)
  cases r with
  | error e => rfl
  | ok _ => rfl

/-- Where a call stands, the policy in force being `policy`. -/
inductive GrantJob.Stage {resource : String} (job : GrantJob resource) (policy : Value) :
    Prog CloudCall CloudResp (Except DriverError Unit) → Prop
  | waiting : Stage job policy job.program.run
  | dying (k : Empty → Prog CloudCall CloudResp (Except DriverError Unit)) :
    Stage job policy (.call .abort k)
  | sending (token : String) (body : Value) (h : Grants (body.idx "policy") job.asked) :
    Stage job policy (.call (.postJson (writeUrl resource) token body) afterWrite)
  | returned (h : Grants policy job.asked) : Stage job policy (.ret (.ok ()))
  | failed (e : DriverError) : Stage job policy (.ret (.error e))

section

variable {resource : String} {landed : List CloudEvent → Bool} {job : GrantJob resource}
  {policy policy' : Value} {rest : Prog CloudCall CloudResp (Except DriverError Unit)}

theorem GrantJob.Stage.mono (h : job.Stage policy rest)
    (hkept : ∀ g, Grants policy g → Grants policy' g) : job.Stage policy' rest := by
  cases h with
  | waiting => exact .waiting
  | dying k => exact .dying k
  | sending token body h => exact .sending token body h
  | returned h => exact .returned (hkept _ h)
  | failed e => exact .failed e

theorem GrantJob.Stage.asked_of_returned (h : job.Stage policy (.ret (.ok ()))) :
    Grants policy job.asked := by
  generalize hrest : (Prog.ret (Except.ok ()) :
    Prog CloudCall CloudResp (Except DriverError Unit)) = rest at h
  cases h with
  | waiting =>
    cases job with
    | binding token member role => cases hrest
    | httpExport d enclave ex outputs existing hresource htype hauth => cases hrest
  | returned h => exact h
  | dying k => cases hrest
  | sending token body h => cases hrest
  | failed e => cases hrest

/-- A call that has read stands somewhere, if its read was in force. -/
theorem stage_of_read {token member role : String} {read : Except DriverError Value}
    (h : ∀ answer, read = .ok answer → answer = policy) :
    (GrantJob.binding token member role : GrantJob resource).Stage policy
      (GcpDriver.writeIamRoleBinding token resource member role read).run := by
  rcases writeIamRoleBinding_cases token resource member role read with
    ⟨k, hrun⟩ | ⟨hrun, hgrant⟩ | ⟨body, hrun, hbody⟩
  · rw [hrun]
    exact .dying k
  · rw [hrun]
    cases read with
    | error e =>
      obtain ⟨binding, hmem, -⟩ := hgrant
      cases hmem
    | ok answer =>
      rw [← h answer rfl]
      exact .returned hgrant
  · rw [hrun]
    exact .sending token body ((hbody _).mpr (.inr rfl))

/-- What a call writes gives all that it knows of. -/
theorem grants_of_knows {token : String} {body : Value} {g : Grant}
    (h : job.Knows (.call (.postJson (writeUrl resource) token body) afterWrite) g) :
    Grants (body.idx "policy") g := by
  cases job with
  | httpExport => exact h.elim
  | binding token' member role =>
    obtain ⟨read, hread, hrest⟩ := h
    rcases writeIamRoleBinding_cases token' resource member role read with
      ⟨k, hrun⟩ | ⟨hrun, -⟩ | ⟨body', hrun, hbody'⟩
    · rw [hrun] at hrest
      cases hrest
    · rw [hrun] at hrest
      cases hrest
    · rw [hrun] at hrest
      cases hrest
      exact (hbody' g).mpr (.inl hread)

/-- **One request** of a call that knows of all grants in force takes none away. -/
theorem GrantJob.Stage.step {w : PolicyWorld} {c : CloudCall}
    {k : CloudResp c → Prog CloudCall CloudResp (Except DriverError Unit)} {r : CloudResp c}
    (h : job.Stage w.policy (.call c k)) (hadm : (policyMachine resource landed).adm w c r)
    (hfresh : (∃ token body, c = .postJson (writeUrl resource) token body) →
      ∀ g, Grants w.policy g → g = job.asked ∨ job.Knows (.call c k) g) :
    (∀ g, Grants w.policy g → Grants (w.nextPolicy resource landed c r) g) ∧
      job.Stage (w.nextPolicy resource landed c r) (k r) := by
  generalize hrest : Prog.call c k = rest at h hfresh
  cases h with
  | waiting =>
    cases job with
    | binding token member role =>
      rw [GrantJob.program, ensureIamRoleBinding_run] at hrest
      cases hrest
      have hpolicy : w.nextPolicy resource landed
          (.postJson (readUrl resource) token (.object [])) r = w.policy :=
        if_neg fun hurl => readUrl_ne_writeUrl resource hurl.1
      rw [hpolicy]
      refine ⟨fun _ hg => hg, stage_of_read ?_⟩
      rintro answer rfl
      exact hadm rfl
    | httpExport d enclave ex outputs existing hresource htype hauth =>
      rw [httpExport_run] at hrest
      cases hrest
      refine ⟨fun _ hg => hg, ?_⟩
      cases r with
      | error e => exact .failed e
      | ok token => exact .sending token _ (grants_allUsersBody.mpr rfl)
  | dying k =>
    cases hrest
    exact r.elim
  | sending token body h =>
    cases hrest
    have hbody : ∀ g, Grants w.policy g → Grants (body.idx "policy") g := by
      intro g hg
      rcases hfresh ⟨token, body, rfl⟩ g hg with rfl | hknows
      · exact h
      · exact grants_of_knows hknows
    cases r with
    | ok answer =>
      have hpolicy : w.nextPolicy resource landed (.postJson (writeUrl resource) token body)
        (.ok answer) = body.idx "policy" := if_pos ⟨rfl, rfl⟩
      rw [hpolicy]
      exact ⟨hbody, .returned h⟩
    | error e =>
      refine ⟨fun g hg => ?_, .failed e⟩
      rw [PolicyWorld.nextPolicy]
      split
      · exact hbody g hg
      · exact hg
  | returned h => cases hrest
  | failed e => cases hrest

end

/-! ## Interleavings -/

section

variable {ι : Type} [DecidableEq ι] {resource : String} {landed : List CloudEvent → Bool}
  {jobs : ι → GrantJob resource} {policy : Value} {s : GrantPool ι}

/-- What holds in every pool that is reached. -/
structure GrantsKept (jobs : ι → GrantJob resource) (policy : Value) (s : GrantPool ι) : Prop where
  kept : ∀ g, Grants policy g → Grants s.world.policy g
  stages : ∀ i, (jobs i).Stage s.world.policy (s.threads i)

theorem grantsKept_of_runs
    (h : Pool.Runs (policyMachine resource landed) (Fresh jobs) (GrantPool.start jobs policy) s) :
    GrantsKept jobs policy s := by
  refine h.invariant (fun s i c k r hcall hadm hfresh hs => ?_) ⟨fun _ hg => hg, fun _ => .waiting⟩
  have hstage := hs.stages i
  rw [hcall] at hstage
  obtain ⟨hkept, hstage'⟩ := hstage.step hadm fun hwrite g hg => by
    rw [← hcall]
    exact hfresh hwrite g hg
  refine ⟨fun g hg => hkept g (hs.kept g hg), fun j => ?_⟩
  by_cases hj : j = i
  · rw [hj, Pool.after_threads_self]
    exact hstage'
  · rw [Pool.after_threads_of_ne _ hj]
    exact (hs.stages j).mono hkept

/-- **Adding a grant removes none.** In every interleaving of calls on a resource, in which each
call that writes knows of all grants in force but for its own, the grants that were in force at the
start are in force, and so are those of the calls that have returned without an error. -/
theorem grants_kept_of_fresh
    (h : Pool.Runs (policyMachine resource landed) (Fresh jobs) (GrantPool.start jobs policy) s) :
    (∀ g, Grants policy g → Grants s.world.policy g) ∧
      ∀ i, s.threads i = .ret (.ok ()) → Grants s.world.policy (jobs i).asked := by
  have hkept := grantsKept_of_runs h
  refine ⟨hkept.kept, fun i hi => ?_⟩
  have hstage := hkept.stages i
  rw [hi] at hstage
  exact hstage.asked_of_returned

/-! ### Runs request by request -/

variable {C : GrantPool ι → ι → CloudCall → Prop} {s₀ : GrantPool ι} {i : ι}
  {token member role : String} {read : Except DriverError Value}

/-- The next request of a call: what it is left with, and what the policy is then. -/
theorem exists_step {c : CloudCall}
    {k : CloudResp c → Prog CloudCall CloudResp (Except DriverError Unit)} (r : CloudResp c)
    (h : Pool.Runs (policyMachine resource landed) C s₀ s) (hcall : s.threads i = .call c k)
    (hadm : (policyMachine resource landed).adm s.world c r) (hC : C s i c) :
    ∃ s', Pool.Runs (policyMachine resource landed) C s₀ s' ∧ s'.threads i = k r ∧
      s'.world.policy = s.world.nextPolicy resource landed c r ∧
      ∀ j, j ≠ i → s'.threads j = s.threads j :=
  ⟨_, .step i c k r h hcall hadm hC, Pool.after_threads_self .., rfl,
    fun _ hj => Pool.after_threads_of_ne _ hj ..⟩

theorem exists_read (read : Except DriverError Value)
    (h : Pool.Runs (policyMachine resource landed) C s₀ s)
    (hthread : s.threads i =
      (GcpDriver.ensureIamRoleBinding token resource member role).run)
    (hread : ∀ answer, read = .ok answer → answer = s.world.policy)
    (hC : C s i (.postJson (readUrl resource) token (.object []))) :
    ∃ s', Pool.Runs (policyMachine resource landed) C s₀ s' ∧
      s'.threads i = (GcpDriver.writeIamRoleBinding token resource member role read).run ∧
      s'.world.policy = s.world.policy ∧ ∀ j, j ≠ i → s'.threads j = s.threads j := by
  rw [ensureIamRoleBinding_run] at hthread
  have hadm : (policyMachine resource landed).adm s.world
      (.postJson (readUrl resource) token (.object [])) read := by
    cases read with
    | error e => trivial
    | ok answer => exact fun _ => hread answer rfl
  obtain ⟨s', hruns, hrest, hpolicy, hothers⟩ := exists_step read h hthread hadm hC
  refine ⟨s', hruns, hrest, hpolicy.trans (if_neg fun hurl => ?_), hothers⟩
  exact readUrl_ne_writeUrl resource hurl.1

theorem exists_write (h : Pool.Runs (policyMachine resource landed) C s₀ s)
    (hthread : s.threads i =
      (GcpDriver.writeIamRoleBinding token resource member role read).run)
    {written : List Value} (hadd : GcpDriver.addMember member role
      (GcpDriver.bindingsOf (GcpDriver.currentPolicy read)) = some (some written))
    (hC : ∀ body, C s i (.postJson (writeUrl resource) token body)) :
    ∃ s', Pool.Runs (policyMachine resource landed) C s₀ s' ∧ s'.threads i = .ret (.ok ()) ∧
      GcpDriver.bindingsOf s'.world.policy = written ∧
      ∀ j, j ≠ i → s'.threads j = s.threads j := by
  obtain ⟨body, hrun, hbody⟩ := writeIamRoleBinding_of_add hadd
  rw [hrun] at hthread
  have hadm : (policyMachine resource landed).adm s.world
      (.postJson (writeUrl resource) token body) (.ok .null) :=
    fun hurl => absurd hurl (readUrl_ne_writeUrl resource).symm
  obtain ⟨s', hruns, hrest, hpolicy, hothers⟩ := exists_step _ h hthread hadm (hC body)
  refine ⟨s', hruns, hrest, ?_, hothers⟩
  rw [hpolicy, show s.world.nextPolicy resource landed (.postJson (writeUrl resource) token body)
    (.ok .null) = body.idx "policy" from if_pos ⟨rfl, rfl⟩]
  exact hbody

end

/-- The policy that makes `user:a` an editor. -/
def editorPolicy : Value :=
  .object [("bindings", .arr [.object
    [("role", .str "roles/editor"), ("members", .arr [.str "user:a"])]])]

theorem editorPolicy_grants {g : Grant} :
    Grants editorPolicy g ↔ g = ⟨"roles/editor", "user:a"⟩ := by
  obtain ⟨role, member⟩ := g
  simp [Grants, Gives, editorPolicy, GcpDriver.bindingsOf, Value.idx_object,
    Value.lookup_cons_eq_ite, Value.asArray, Value.asStr, eq_comm]

/-- A call that makes the member a viewer. -/
def viewerJob (member : String) : GrantJob "r" := .binding "t" member "roles/viewer"

/-- **A failed read**: the call returns without an error, and `user:a` is an editor no more. -/
theorem grants_lost_on_failed_read : ∃ s : GrantPool Unit,
    Pool.Runs (policyMachine "r" fun _ => false) (fun _ _ _ => True)
      (GrantPool.start (fun _ => viewerJob "user:b") editorPolicy) s ∧
    s.threads () = .ret (.ok ()) ∧ Grants editorPolicy ⟨"roles/editor", "user:a"⟩ ∧
    ¬ Grants s.world.policy ⟨"roles/editor", "user:a"⟩ := by
  obtain ⟨s₁, hruns₁, hread, -, -⟩ := exists_read (.error (.provisionFailed "timeout"))
    (C := fun _ _ _ => True)
    (s := GrantPool.start (fun _ : Unit => viewerJob "user:b") editorPolicy) .refl (i := ()) rfl
    (fun _ h => by cases h) trivial
  obtain ⟨s₂, hruns₂, hreturned, hbindings, -⟩ := exists_write hruns₁ hread rfl fun _ => trivial
  refine ⟨s₂, hruns₂, hreturned, editorPolicy_grants.mpr rfl, fun hg => ?_⟩
  have hadd : GcpDriver.addMember "user:b" "roles/viewer" (GcpDriver.bindingsOf
      (GcpDriver.currentPolicy (.error (.provisionFailed "timeout")))) =
        some (some (GcpDriver.bindingsOf s₂.world.policy)) := by
    rw [hbindings]
    rfl
  rcases (grants_of_add hadd _).mp hg with ⟨binding, hmem, -⟩ | hg
  · cases hmem
  · exact absurd hg (by decide)

/-- **Two calls that overlap**: no request fails, and the first one's grant is lost. -/
theorem grants_lost_on_overlap : ∃ s : GrantPool Bool,
    Pool.Runs (policyMachine "r" fun _ => false) (fun _ _ _ => True)
      (GrantPool.start (fun i => viewerJob (if i then "user:b" else "user:c")) editorPolicy) s ∧
    s.threads true = .ret (.ok ()) ∧ ¬ Grants s.world.policy ⟨"roles/viewer", "user:b"⟩ := by
  obtain ⟨s₁, hruns₁, hread₁, hpolicy₁, hothers₁⟩ := exists_read (.ok editorPolicy)
    (C := fun _ _ _ => True)
    (s := GrantPool.start (fun i => viewerJob (if i then "user:b" else "user:c")) editorPolicy)
    .refl (i := true) rfl (by rintro _ ⟨⟩; rfl) trivial
  obtain ⟨s₂, hruns₂, hread₂, hpolicy₂, hothers₂⟩ := exists_read (.ok editorPolicy)
    hruns₁ (i := false) ((hothers₁ false (by decide)).trans rfl)
    (by rintro _ ⟨⟩; exact hpolicy₁.symm) trivial
  obtain ⟨s₃, hruns₃, hreturned, -, hothers₃⟩ := exists_write hruns₂
    ((hothers₂ true (by decide)).trans hread₁) rfl fun _ => trivial
  obtain ⟨s₄, hruns₄, -, hbindings, hothers₄⟩ := exists_write hruns₃
    ((hothers₃ false (by decide)).trans hread₂) rfl fun _ => trivial
  refine ⟨s₄, hruns₄, (hothers₄ true (by decide)).trans hreturned, fun hg => ?_⟩
  have hadd : GcpDriver.addMember "user:c" "roles/viewer" (GcpDriver.bindingsOf editorPolicy) =
      some (some (GcpDriver.bindingsOf s₄.world.policy)) := by
    rw [hbindings]
    rfl
  rcases (grants_of_add hadd _).mp hg with hg | hg
  · exact absurd (editorPolicy_grants.mp hg) (by decide)
  · exact absurd hg (by decide)

/-- **An export without authentication** replaces the policy, whatever it was. -/
theorem policy_replaced_by_export {resource : String} {d : GcpDriver} {enclave : Enclave}
    {ex : Export} {partitionOutputs : HashMap String String} {existing : Option Handle}
    (hresource : s!"{d.base.run}/v2/{d.serviceName enclave ex}" = resource)
    (htype : ex.exportType = .http) (hauth : ex.auth = .none) (policy : Value) :
    ∃ s : GrantPool Unit, Pool.Runs (policyMachine resource fun _ => false) (fun _ _ _ => True)
        (GrantPool.start (fun _ => .httpExport d enclave ex partitionOutputs existing hresource
          htype hauth) policy) s ∧
      s.threads () = .ret (.ok ()) ∧
      ∀ g, Grants s.world.policy g ↔ g = ⟨"roles/run.invoker", "allUsers"⟩ := by
  have hstart : Pool.Runs (policyMachine resource fun _ => false) (fun _ _ _ => True)
    (GrantPool.start (fun _ : Unit => .httpExport d enclave ex partitionOutputs existing hresource
      htype hauth) policy) _ := .refl
  obtain ⟨s₁, hruns₁, hrest₁, -, -⟩ := exists_step (Except.ok "t" : CloudResp .bearer) hstart
    (i := ()) (httpExport_run hresource htype hauth) trivial trivial
  have hadm : (policyMachine resource fun _ => false).adm s₁.world
      (.postJson (writeUrl resource) "t" allUsersBody) (.ok .null) :=
    fun hurl => absurd hurl (readUrl_ne_writeUrl resource).symm
  obtain ⟨s₂, hruns₂, hrest₂, hpolicy₂, -⟩ := exists_step _ hruns₁ hrest₁ hadm trivial
  refine ⟨s₂, hruns₂, hrest₂, fun g => ?_⟩
  rw [hpolicy₂, show s₁.world.nextPolicy resource _ (.postJson (writeUrl resource) "t"
    allUsersBody) (.ok .null) = allUsersBody.idx "policy" from if_pos ⟨rfl, rfl⟩]
  exact grants_allUsersBody

/-- Two calls one after the other: all three grants are in force. -/
theorem viewers_added : ∃ s : GrantPool Bool,
    Pool.Runs (policyMachine "r" fun _ => false)
      (Fresh fun i => viewerJob (if i then "user:b" else "user:c"))
      (GrantPool.start (fun i => viewerJob (if i then "user:b" else "user:c")) editorPolicy) s ∧
    s.threads true = .ret (.ok ()) ∧ s.threads false = .ret (.ok ()) ∧
    Grants s.world.policy ⟨"roles/editor", "user:a"⟩ ∧
    Grants s.world.policy ⟨"roles/viewer", "user:b"⟩ ∧
    Grants s.world.policy ⟨"roles/viewer", "user:c"⟩ := by
  let jobs (i : Bool) : GrantJob "r" := viewerJob (if i then "user:b" else "user:c")
  have hnoWrite : ∀ (s : GrantPool Bool) i,
      Fresh jobs s i (.postJson (readUrl "r") "t" (.object [])) := by
    rintro s i ⟨token, body, hurl⟩
    exact absurd (CloudCall.postJson.inj hurl).1 (readUrl_ne_writeUrl "r")
  have hstart : Pool.Runs (policyMachine "r" fun _ => false) (Fresh jobs)
    (GrantPool.start jobs editorPolicy) (GrantPool.start jobs editorPolicy) := .refl
  obtain ⟨s₁, hruns₁, hread₁, hpolicy₁, hothers₁⟩ := exists_read (.ok editorPolicy) hstart
    (i := true) rfl (by rintro _ ⟨⟩; rfl) (hnoWrite _ _)
  have hfresh₁ : ∀ body, Fresh jobs s₁ true (.postJson (writeUrl "r") "t" body) := by
    intro body _ g hg
    rw [hpolicy₁] at hg
    exact .inr ⟨.ok editorPolicy, hg, hread₁⟩
  obtain ⟨s₂, hruns₂, hreturned₂, hbindings₂, hothers₂⟩ := exists_write hruns₁ hread₁ rfl hfresh₁
  obtain ⟨s₃, hruns₃, hread₃, hpolicy₃, hothers₃⟩ := exists_read (.ok s₂.world.policy)
    hruns₂ (i := false) (((hothers₂ false (by decide)).trans (hothers₁ false (by decide))).trans rfl)
    (by rintro _ ⟨⟩; rfl) (hnoWrite _ _)
  have hadd : ∃ written, GcpDriver.addMember "user:c" "roles/viewer"
      (GcpDriver.bindingsOf s₂.world.policy) = some (some written) := by
    rw [hbindings₂]
    exact ⟨_, rfl⟩
  obtain ⟨written, hadd⟩ := hadd
  have hfresh₃ : ∀ body, Fresh jobs s₃ false (.postJson (writeUrl "r") "t" body) := by
    intro body _ g hg
    rw [hpolicy₃] at hg
    exact .inr ⟨.ok s₂.world.policy, hg, hread₃⟩
  obtain ⟨s₄, hruns₄, hreturned₄, -, hothers₄⟩ := exists_write hruns₃ hread₃ hadd hfresh₃
  have hreturned : s₄.threads true = .ret (.ok ()) :=
    (hothers₄ true (by decide)).trans ((hothers₃ true (by decide)).trans hreturned₂)
  obtain ⟨hkept, hadded⟩ := grants_kept_of_fresh hruns₄
  exact ⟨s₄, hruns₄, hreturned, hreturned₄, hkept _ (editorPolicy_grants.mpr rfl),
    hadded true hreturned, hadded false hreturned₄⟩

end Nclav
