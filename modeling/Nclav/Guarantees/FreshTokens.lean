import Nclav.Driver.Tokens

/-!
# Fresh tokens

However many requests share a provider and however their calls interleave, a token that is handed
out was given by the endpoint of the provider, and has not reached the end of its time in the cache
when it is looked at.
-/

namespace Nclav

open Effect Effect.Prog Serde

/-! ## Replied -/

/-- Between the two worlds the request was answered so. -/
def Replied {V : Type} (w : CacheWorld V TokenCall TokenResp) (c : TokenCall) (r : TokenResp c)
    (w' : CacheWorld V TokenCall TokenResp) : Prop :=
  ∃ w₁, CacheLe w w₁ ∧ CacheLe (w₁.answered c r) w'

section

variable {V : Type} {S : Source V TokenCall TokenResp} {w w' : CacheWorld V TokenCall TokenResp}
  {c : TokenCall} {r : TokenResp c}

/-- What was on record before stands before the answer. -/
theorem Replied.sublist {entries : List (Answered TokenCall TokenResp)} (h : Replied w c r w')
    (hentries : entries.Sublist w.record) :
    ∃ time ≤ w'.clock, List.Sublist (entries ++ [⟨time, c, r⟩]) w'.record := by
  obtain ⟨w₁, hle, hle'⟩ := h
  have hbefore : entries.Sublist w₁.record := hentries.trans hle.record.sublist
  exact ⟨w₁.clock, hle'.clock,
    (hbefore.append (List.Sublist.refl _)).trans hle'.record.sublist⟩

theorem jsonOf_among (label : String) (req : TokenRequest) :
    AmongE (cacheContract S) (fun resp => Replied w (.json req) (.ok (.ok resp)))
      (jsonOf label req) w := by
  refine AmongE.call fun w₁ hle _ => ⟨trivial, fun sent _ _ => ?_⟩
  rcases sent with e | e | resp
  · exact AmongE.throw
  · exact AmongE.throw
  · exact AmongE.pure fun w₂ hle' _ => ⟨w₁, hle, hle'⟩

theorem textOf_among (req : TokenRequest) :
    AmongE (cacheContract S) (fun sent => Replied w (.text req) sent) (textOf req) w := by
  refine AmongE.monadLift ?_
  exact Among.perform (fun _ _ _ => trivial) fun w₁ _ hle _ _ w₂ hle' _ => ⟨w₁, hle, hle'⟩

end

/-! ## Two holders -/

/-- Two who share a provider, before either begins. -/
def twoHolders {V : Type} (p : Provider V V) : Holders Bool V := ⟨fun _ => p.run, ⟨0, none, []⟩⟩

/-- The first of them fetches a value, the second finds it in the cache. -/
theorem twoHolders_run {V : Type} {fetch : Provider V (V × Nat)} {life : Nat} {value : V}
    (farthest : Nat) {w : CacheWorld V TokenCall TokenResp}
    (hfetch : Exec cacheMachine fetch.run ⟨0, none, []⟩ (.ok (value, life)) w)
    (hlife : 0 < life) (hlimit : w.clock + life ≤ farthest) :
    ∃ s' s'' : Holders Bool V, Interleaved (twoHolders (cached fetch farthest)) s' ∧
      Interleaved s' s'' ∧ s'.threads true = (cached fetch farthest).run ∧
      s''.threads true = .ret (.ok value) := by
  obtain ⟨s', hruns, -, hworld, hothers⟩ := Pool.Runs.of_exec (i := false)
    (s := twoHolders (cached fetch farthest)) (exec_miss rfl hfetch (Nat.le_refl _) hlimit) rfl rfl
  have htrue : s'.threads true = (cached fetch farthest).run := hothers true (by decide)
  have hkept : s'.world.kept = some (value, w.clock + life) := by rw [hworld]
  have hclock : s'.world.clock ≤ w.clock := by rw [hworld]
  obtain ⟨s'', hruns', hended, -, -⟩ :=
    Pool.Runs.of_exec (exec_hit hkept hclock (Nat.lt_add_of_pos_right hlife)) htrue rfl
  exact ⟨s', s'', hruns, hruns', htrue, hended⟩

/-! ## Azure -/

namespace AzureTokenProvider

variable (p : AzureTokenProvider)

/-- The endpoint has answered the request of the provider with a token. -/
def source : Source String TokenCall TokenResp where
  gave record tok life time := ∃ resp, ⟨time, .json p.request, .ok (.ok resp)⟩ ∈ record ∧
    (resp.idx "access_token").asStr = some tok ∧ life = p.life resp
  later := by
    rintro record record' tok life time hprefix ⟨resp, hresp, htok, hlife⟩
    exact ⟨resp, hprefix.subset hresp, htok, hlife⟩

variable {p}

theorem fetch_among (jsonText : Value → String) {w : CacheWorld String TokenCall TokenResp}
    (hw : Sound p.source w) :
    AmongE (cacheContract p.source) (fun r => Fetched p.source r.1 r.2) (p.fetch jsonText) w := by
  refine AmongE.bind (jsonOf_among p.label p.request) hw fun resp w' _ _ hresp => ?_
  obtain ⟨time, htime, hsublist⟩ := hresp.sublist (List.nil_sublist _)
  split
  · exact AmongE.throw
  · rename_i tok htok
    refine AmongE.pure fun w'' hle _ => ⟨time, htime.trans hle.clock, resp, ?_, htok, rfl⟩
    exact hle.record.subset (hsublist.subset (List.mem_singleton_self _))

end AzureTokenProvider

/-- **No token is handed out past its time**, in any interleaving of the calls of those who share
the provider. The endpoint has answered with it, and when it was looked at it was just stored or its
life, short of 60 seconds, was not over yet. -/
theorem azure_token_fresh {ι : Type} [DecidableEq ι] (p : AzureTokenProvider)
    (jsonText : Value → String) (farthest : Nat) {s s' s'' : Holders ι String}
    (hempty : s.world.kept = none) (hall : ∀ j, s.threads j = (p.token jsonText farthest).run)
    (h : Interleaved s s') (h' : Interleaved s' s'') {i : ι} {tok : String}
    (hbegins : s'.threads i = (p.token jsonText farthest).run)
    (hends : s''.threads i = .ret (.ok tok)) :
    ∃ resp received stored checked,
      ⟨received, .json p.request, .ok (.ok resp)⟩ ∈ s''.world.record ∧
      (resp.idx "access_token").asStr = some tok ∧
      received ≤ stored ∧ stored ≤ checked ∧
      s'.world.clock ≤ checked ∧ checked ≤ s''.world.clock ∧
      (checked = stored ∨ checked < stored + secs (p.expiresIn resp - 60)) := by
  have hsound : Sound p.source s.world := by
    intro value expiry hkept
    rw [hempty] at hkept
    cases hkept
  obtain ⟨life, received, stored, checked, ⟨resp, hresp, htok, rfl⟩, hreceived, hstored, hsince,
    hchecked, hfresh⟩ :=
      Pool.Runs.handed (fun _ hw => AzureTokenProvider.fetch_among jsonText hw) hsound hall h h'
        hbegins hends
  exact ⟨resp, received, stored, checked, hresp, htok, hreceived, hstored, hsince, hchecked, hfresh⟩

/-- The answer with a token for an hour. -/
def hourToken : Value := .object [("access_token", .str "t"), ("expires_in", .str "3600")]

theorem azure_second_holder : ∃ s s'' : Holders Bool String,
    s''.threads true = .ret (.ok "t") ∧
    ∃ resp received stored checked,
      ⟨received, .json AzureTokenProvider.managedIdentity.request, .ok (.ok resp)⟩ ∈
        s''.world.record ∧
      (resp.idx "access_token").asStr = some "t" ∧ received ≤ stored ∧ stored ≤ checked ∧
      s.world.clock ≤ checked ∧ checked ≤ s''.world.clock ∧ (checked = stored ∨
        checked < stored + secs (AzureTokenProvider.managedIdentity.expiresIn resp - 60)) := by
  have hfetch : Exec cacheMachine (AzureTokenProvider.managedIdentity.fetch (fun _ => "")).run
      ⟨0, none, []⟩ (.ok ("t", secs 3540)) _ :=
    .call (.ok (.ok hourToken)) trivial (.ret _ _)
  obtain ⟨s', s'', h, h', hbegins, hends⟩ :=
    twoHolders_run (secs 10000) hfetch (by decide) (by decide)
  exact ⟨s', s'', hends, azure_token_fresh .managedIdentity _ _ rfl (fun _ => rfl) h h' hbegins
    hends⟩

/-! ## AWS -/

namespace ImdsCredentialsProvider

/-- Answered one after the other: the session of the metadata service, the roles and the credentials
of the first of them. -/
def RoleGave (record : List (Answered TokenCall TokenResp)) (creds : AwsCredentials) (time : Nat) :
    Prop :=
  ∃ time₁ time₂ imdsToken roles resp, firstLine roles ≠ "" ∧ creds = credentialsOf resp ∧
    [⟨time₁, .text tokenRequest, .ok (.ok imdsToken)⟩,
      ⟨time₂, .text (roleRequest imdsToken ""), .ok (.ok roles)⟩,
      ⟨time, .json (roleRequest imdsToken (firstLine roles)), .ok (.ok resp)⟩].Sublist record

/-- Answered by the metadata service of the task. -/
def TaskGave (uri : String) (record : List (Answered TokenCall TokenResp)) (creds : AwsCredentials)
    (time : Nat) : Prop :=
  ∃ resp, creds = credentialsOf resp ∧ ⟨time, .json (ecsRequest uri), .ok (.ok resp)⟩ ∈ record

variable (p : ImdsCredentialsProvider)

/-- The metadata service has answered with credentials. -/
def source : Source AwsCredentials TokenCall TokenResp where
  gave record creds life' time := life' = life ∧ match p.ecsUri with
    | some uri => TaskGave uri record creds time
    | none => RoleGave record creds time
  later := by
    rintro record record' creds life' time hprefix ⟨hlife, hgave⟩
    refine ⟨hlife, ?_⟩
    split at hgave
    · obtain ⟨resp, hcreds, hresp⟩ := hgave
      exact ⟨resp, hcreds, hprefix.subset hresp⟩
    · obtain ⟨time₁, time₂, imdsToken, roles, resp, hrole, hcreds, hanswers⟩ := hgave
      exact ⟨time₁, time₂, imdsToken, roles, resp, hrole, hcreds, hanswers.trans hprefix.sublist⟩

variable {p} {S : Source AwsCredentials TokenCall TokenResp}

theorem ecsCredentials_among {uri : String} {w : CacheWorld AwsCredentials TokenCall TokenResp}
    (hw : Sound S w) :
    AmongE (cacheContract S) (fun creds w' => ∃ time ≤ w'.clock, TaskGave uri w'.record creds time)
      (ecsCredentials uri) w := by
  refine AmongE.bind (jsonOf_among _ _) hw fun resp w' _ _ hresp => ?_
  obtain ⟨time, htime, hsublist⟩ := hresp.sublist (List.nil_sublist _)
  refine AmongE.pure fun w'' hle _ => ⟨time, htime.trans hle.clock, resp, rfl, ?_⟩
  exact hle.record.subset (hsublist.subset (List.mem_singleton_self _))

theorem ec2Credentials_among {w : CacheWorld AwsCredentials TokenCall TokenResp}
    (hw : Sound S w) :
    AmongE (cacheContract S) (fun creds w' => ∃ time ≤ w'.clock, RoleGave w'.record creds time)
      ec2Credentials w := by
  refine AmongE.bind (textOf_among _) hw fun session w₁ _ hw₁ hsession => ?_
  rcases session with e | e | imdsToken
  · exact AmongE.throw
  · exact AmongE.throw
  obtain ⟨time₁, -, hsublist₁⟩ := hsession.sublist (List.nil_sublist _)
  refine AmongE.bind (textOf_among _) hw₁ fun roles w₂ _ hw₂ hroles => ?_
  rcases roles with e | e | roles
  · exact AmongE.throw
  · exact AmongE.throw
  obtain ⟨time₂, -, hsublist₂⟩ := hroles.sublist hsublist₁
  show AmongE _ _ (roleCredentials imdsToken (firstLine roles)) w₂
  rw [roleCredentials]
  split
  · exact AmongE.throw
  rename_i hrole
  refine AmongE.bind (jsonOf_among _ _) hw₂ fun resp w₃ _ _ hresp => ?_
  obtain ⟨time, htime, hsublist⟩ := hresp.sublist hsublist₂
  refine AmongE.pure fun w₄ hle _ => ⟨time, htime.trans hle.clock, time₁, time₂, imdsToken, roles,
    resp, ?_, rfl, hsublist.trans hle.record.sublist⟩
  simpa using hrole

theorem fetch_among {w : CacheWorld AwsCredentials TokenCall TokenResp} (hw : Sound p.source w) :
    AmongE (cacheContract p.source) (fun r => Fetched p.source r.1 r.2) p.fetch w := by
  rcases p with ⟨_ | uri⟩
  · refine AmongE.bind (ec2Credentials_among hw) hw ?_
    rintro creds w' - - ⟨time, htime, hgave⟩
    refine AmongE.pure fun w'' hle _ => ⟨time, htime.trans hle.clock, ?_⟩
    exact (source ⟨none⟩).later hle.record ⟨rfl, hgave⟩
  · refine AmongE.bind (ecsCredentials_among hw) hw ?_
    rintro creds w' - - ⟨time, htime, hgave⟩
    refine AmongE.pure fun w'' hle _ => ⟨time, htime.trans hle.clock, ?_⟩
    exact (source ⟨some uri⟩).later hle.record ⟨rfl, hgave⟩

end ImdsCredentialsProvider

/-- **No credentials are handed out past their time**, in any interleaving of the calls of those who
share the provider. The metadata service has answered with them, and when they were looked at they
were just stored or there for less than 600 seconds. -/
theorem aws_credentials_fresh {ι : Type} [DecidableEq ι] (p : ImdsCredentialsProvider)
    (farthest : Nat) {s s' s'' : Holders ι AwsCredentials}
    (hempty : s.world.kept = none) (hall : ∀ j, s.threads j = (p.credentials farthest).run)
    (h : Interleaved s s') (h' : Interleaved s' s'') {i : ι} {creds : AwsCredentials}
    (hbegins : s'.threads i = (p.credentials farthest).run)
    (hends : s''.threads i = .ret (.ok creds)) :
    ∃ received stored checked,
      (match p.ecsUri with
        | some uri => ImdsCredentialsProvider.TaskGave uri s''.world.record creds received
        | none => ImdsCredentialsProvider.RoleGave s''.world.record creds received) ∧
      received ≤ stored ∧ stored ≤ checked ∧
      s'.world.clock ≤ checked ∧ checked ≤ s''.world.clock ∧
      (checked = stored ∨ checked < stored + secs 600) := by
  have hsound : Sound p.source s.world := by
    intro value expiry hkept
    rw [hempty] at hkept
    cases hkept
  obtain ⟨life, received, stored, checked, ⟨rfl, hgave⟩, hreceived, hstored, hsince, hchecked,
    hfresh⟩ :=
      Pool.Runs.handed (fun _ hw => ImdsCredentialsProvider.fetch_among hw) hsound hall h h' hbegins
        hends
  exact ⟨received, stored, checked, hgave, hreceived, hstored, hsince, hchecked, hfresh⟩

/-- The answer with the credentials of a role. -/
def adminCredentials : Value := .object [("AccessKeyId", .str "k"), ("SecretAccessKey", .str "s")]

theorem aws_second_holder : ∃ s s'' : Holders Bool AwsCredentials,
    s''.threads true = .ret (.ok ⟨"k", "s", none⟩) ∧
    ∃ received stored checked,
      ImdsCredentialsProvider.RoleGave s''.world.record ⟨"k", "s", none⟩ received ∧
      received ≤ stored ∧ stored ≤ checked ∧
      s.world.clock ≤ checked ∧ checked ≤ s''.world.clock ∧
      (checked = stored ∨ checked < stored + secs 600) := by
  let session : Except String (Except String String) := .ok (.ok "session")
  let roles : Except String (Except String String) := .ok (.ok "admin\n")
  let resp : Except String (Except String Value) := .ok (.ok adminCredentials)
  let record : List (Answered TokenCall TokenResp) :=
    [⟨0, .text ImdsCredentialsProvider.tokenRequest, session⟩,
      ⟨0, .text (ImdsCredentialsProvider.roleRequest "session" ""), roles⟩,
      ⟨0, .json (ImdsCredentialsProvider.roleRequest "session" "admin"), resp⟩]
  have hfetch : Exec cacheMachine (ImdsCredentialsProvider.fetch ⟨none⟩).run ⟨0, none, []⟩
      (.ok (⟨"k", "s", none⟩, secs 600)) ⟨0, none, record⟩ := by
    refine .call session trivial (.call roles trivial ?_)
    have hrole : ¬(ImdsCredentialsProvider.firstLine "admin\n").isEmpty = true := by decide
    refine Exec.bind (a := .ok ⟨"k", "s", none⟩) ?_ (.ret _ _)
    show Exec cacheMachine
      (ImdsCredentialsProvider.roleCredentials "session" (ImdsCredentialsProvider.firstLine "admin\n")).run
      _ _ _
    rw [ImdsCredentialsProvider.roleCredentials, if_neg hrole]
    exact .call resp trivial (.ret _ _)
  obtain ⟨s', s'', h, h', hbegins, hends⟩ :=
    twoHolders_run (secs 10000) hfetch (by decide) (by decide)
  exact ⟨s', s'', hends, aws_credentials_fresh ⟨none⟩ _ rfl (fun _ => rfl) h h' hbegins hends⟩

end Nclav
