import Nclav.Driver.AwsRequests
import Nclav.Guarantees.Creation

/-!
# What AWS is sent

A form body is read back as the parameters that it was made of. The signature covers every request
but those of the JSON protocol, whose target is sent twice and is not signed.
-/

namespace Nclav

open Sigv4 (Hashing Scheme hex bytes)

/-! ## Form bodies -/

namespace Urlencoding

/-- A byte is written as itself, as a plus sign or as an escape. -/
theorem escapes_encodeByte (b : UInt8) {cs : List Char} {bs : List UInt8} (h : Form.Escapes cs bs) :
    Form.Escapes (encodeByte b ++ cs) (b :: bs) := by
  rw [encodeByte]
  split
  · rename_i hb
    have hchar : ∀ n < 256, ((0x41 ≤ UInt8.ofNat n ∧ UInt8.ofNat n ≤ 0x5A) ∨
        (0x61 ≤ UInt8.ofNat n ∧ UInt8.ofNat n ≤ 0x7A) ∨
        (0x30 ≤ UInt8.ofNat n ∧ UInt8.ofNat n ≤ 0x39) ∨ UInt8.ofNat n = 0x2D ∨
        UInt8.ofNat n = 0x5F ∨ UInt8.ofNat n = 0x2E ∨ UInt8.ofNat n = 0x7E) →
        Form.isUnreserved (Char.ofNat n) = true ∧ UInt8.ofNat (Char.ofNat n).toNat = UInt8.ofNat n := by
      decide +kernel
    have hbyte := hchar b.toNat b.toNat_lt
    rw [UInt8.ofNat_toNat] at hbyte
    obtain ⟨hunreserved, heq⟩ := hbyte hb
    have hescapes := Form.Escapes.unreserved hunreserved h
    rwa [heq] at hescapes
  · split
    · rename_i hspace
      rw [hspace]
      exact .space h
    · exact .escape b h

theorem escapes_encode (s : String) : Form.Escapes (encode s).toList (bytes s) := by
  rw [encode, String.toList_ofList]
  induction bytes s with
  | nil => exact .nil
  | cons b bs ih => exact escapes_encodeByte b ih

end Urlencoding

/-- **The form body decodes to the parameters**, and a value is encoded to unreserved characters,
plus signs and escapes, in a way that loses nothing. -/
theorem form_body_decodes {params : List (String × String)}
    (hkeys : ∀ kv ∈ params, kv.1 ≠ "" ∧ Form.PlainKey kv.1) :
    Form.decode (formBody params) = some params ∧
      (∀ value, Form.Escapes (Urlencoding.encode value).toList (bytes value)) ∧
      Function.Injective Urlencoding.encode := by
  refine ⟨?_, Urlencoding.escapes_encode, fun value value' h => ?_⟩
  · refine Form.decode_intercalate (fun kv hkv => (hkeys kv hkv).2) Urlencoding.escapes_encode ?_
    rw [formBody, String.toList_intercalate, List.map_map]
    refine congrArg (['&'].intercalate ·) (List.map_congr_left fun kv _ => ?_)
    simp
    rfl
  · have hbytes := (Urlencoding.escapes_encode value).unescape
    rw [h, (Urlencoding.escapes_encode value').unescape] at hbytes
    exact Form.utf8_injective hbytes.symm

/-- A trust policy as a parameter. -/
theorem form_body_decodes_policy :
    Form.decode (formBody [("Action", "CreateRole"),
      ("AssumeRolePolicyDocument", "\x7b\"Effect\": \"Allow & é=100%+\"\x7d")]) =
      some [("Action", "CreateRole"),
        ("AssumeRolePolicyDocument", "\x7b\"Effect\": \"Allow & é=100%+\"\x7d")] := by
  refine (form_body_decodes (List.forall_mem_cons.mpr ⟨?_, List.forall_mem_cons.mpr ⟨?_, ?_⟩⟩)).1
  · exact ⟨by decide, by decide +kernel, by decide +kernel, by decide +kernel, by decide +kernel⟩
  · exact ⟨by decide, by decide +kernel, by decide +kernel, by decide +kernel, by decide +kernel⟩
  · exact List.forall_mem_nil _

/-! ## Where a request goes -/

/-- A scheme and a host. -/
structure BaseUrl : Type where
  secure : Bool
  host : String
  nonempty : host.toList ≠ []
  plain : ∀ c ∈ host.toList, c ≠ '/' ∧ c ≠ '?' ∧ c ≠ '#' ∧ c ≠ '@'

/-- The path of a request. -/
structure UrlPath : Type where
  text : String
  rooted : ∃ cs, text.toList = '/' :: cs
  plain : ∀ c ∈ text.toList, c ≠ '?' ∧ c ≠ '#'

namespace BaseUrl

variable (base : BaseUrl)

def scheme : String := if base.secure then "https://" else "http://"

def text : String := base.scheme ++ base.host

variable {base}

theorem trimStartMatches_of_not {pat cs : List Char} (h : ¬ pat <+: cs) (n : Nat) :
    trimStartMatches pat n cs = cs := by
  cases n with
  | zero => rfl
  | succ n => rw [trimStartMatches, if_neg h]

theorem trimStartMatches_append {pat cs : List Char} (h : ¬ pat <+: cs) {n : Nat} (hn : 0 < n) :
    trimStartMatches pat n (pat ++ cs) = cs := by
  obtain ⟨n, rfl⟩ := Nat.exists_eq_succ_of_ne_zero (Nat.ne_of_gt hn)
  rw [trimStartMatches, if_pos (List.prefix_append ..), List.drop_left]
  exact trimStartMatches_of_not h n

/-- A host begins with no scheme. -/
theorem not_scheme {pat : List Char} (hpat : '/' ∈ pat) : ¬ pat <+: base.host.toList :=
  fun h => (base.plain _ (h.subset hpat)).1 rfl

theorem urlHost_text : urlHost base.text = base.host := by
  have hkept : base.host.toList.takeWhile (· ≠ '/') = base.host.toList :=
    List.takeWhile_eq_self_iff.mpr fun c hc => decide_eq_true (base.plain c hc).1
  have hlength : 0 < base.text.length := by
    have hhost := List.length_pos_iff.mpr base.nonempty
    rw [← String.length_toList, text, String.toList_append, List.length_append]
    omega
  rw [urlHost]
  cases hsecure : base.secure with
  | true =>
    have htext : base.text.toList = "https://".toList ++ base.host.toList := by
      rw [text, scheme, if_pos hsecure, String.toList_append]
    rw [htext, trimStartMatches_append (not_scheme (by decide)) hlength,
      trimStartMatches_of_not (not_scheme (by decide)), hkept, String.ofList_toList]
  | false =>
    have hother : ¬ "https://".toList <+: "http://".toList ++ base.host.toList := by
      rintro ⟨rest, h⟩
      have hfifth := congrArg (·[4]?) h
      simp at hfifth
    have htext : base.text.toList = "http://".toList ++ base.host.toList := by
      rw [text, scheme, if_neg (by rw [hsecure]; decide), String.toList_append]
    rw [htext, trimStartMatches_of_not hother, trimStartMatches_append (not_scheme (by decide)) hlength,
      hkept, String.ofList_toList]

theorem trimEndSlashes_text : trimEndSlashes base.text = base.text := by
  obtain ⟨c, cs, hcs⟩ := List.exists_cons_of_ne_nil (List.reverse_ne_nil_iff.mpr base.nonempty)
  have hc : c ≠ '/' := by
    have hmem : c ∈ base.host.toList := by
      rw [← List.mem_reverse, hcs]
      exact List.mem_cons_self
    exact (base.plain c hmem).1
  rw [trimEndSlashes, text, String.toList_append, List.reverse_append, hcs, List.cons_append,
    List.dropWhile_cons_of_neg (by simpa using hc), ← List.cons_append, ← hcs,
    ← List.reverse_append, List.reverse_reverse, ← String.toList_append, String.ofList_toList]

theorem afterScheme_text (path : String) :
    afterScheme (base.text ++ path) = base.host.toList ++ path.toList := by
  rw [afterScheme, text, scheme, String.toList_append, String.toList_append]
  split <;> simp [List.dropWhile]

end BaseUrl

theorem UrlPath.takeWhile_text (path : UrlPath) : path.text.toList.takeWhile (· ≠ '/') = [] := by
  obtain ⟨cs, hcs⟩ := path.rooted
  rw [hcs]
  rfl

/-- The client sends the request to the host and the path that it was built for. -/
theorem sent_eq (base : BaseUrl) (path : UrlPath) (headers : List (String × String))
    (body : List UInt8) :
    HttpPost.sent ⟨base.text ++ path.text, headers, body⟩ =
      ⟨"POST", path.text, "", ("Host", base.host) :: headers, body⟩ := by
  have hhost : ∀ c ∈ base.host.toList, decide (c ≠ '/') = true :=
    fun c hc => decide_eq_true (base.plain c hc).1
  have hquery : ∀ c ∈ path.text.toList, decide (c ≠ '?') = true :=
    fun c hc => decide_eq_true (path.plain c hc).1
  have htarget : path.text.toList.dropWhile (· ≠ '/') = path.text.toList := by
    obtain ⟨cs, hcs⟩ := path.rooted
    rw [hcs]
    rfl
  simp only [HttpPost.sent, BaseUrl.afterScheme_text]
  rw [List.takeWhile_append_of_pos hhost, List.dropWhile_append_of_pos hhost, htarget,
    path.takeWhile_text, List.append_nil, List.takeWhile_eq_self_iff.mpr hquery,
    List.dropWhile_eq_nil_iff.mpr hquery, String.ofList_toList, String.ofList_toList]
  rfl

/-! ## Headers -/

/-- The entries of a map that was filled with different keys, in the order of the keys. -/
theorem BTreeMap.toList_ofList {l l' : List (String × String)}
    (hsorted : l.Pairwise fun a b => compare a.1 b.1 = .lt) (hperm : l'.Perm l) :
    (Std.ExtTreeMap.ofList l' : BTreeMap).toList = l := by
  have hdistinct : l'.Pairwise fun a b => ¬ compare a.1 b.1 = .eq := by
    refine hperm.symm.pairwise (hsorted.imp fun {a b} hlt heq => ?_) fun {a b} h heq => h ?_
    · rw [hlt] at heq
      cases heq
    · have hswap : compare a.1 b.1 = (compare b.1 a.1).swap := Std.OrientedCmp.eq_swap
      rw [hswap, heq]
      rfl
  refine HashMap.toList_eq_of_sorted hsorted fun k v => ⟨fun h => ?_, fun h => ?_⟩
  · have hcontains : (l'.map (·.1)).contains k = true := by
      by_contra hnot
      rw [Std.ExtTreeMap.getElem?_ofList_of_contains_eq_false (Bool.eq_false_iff.mpr hnot)] at h
      cases h
    obtain ⟨kv, hmem, rfl⟩ := List.mem_map.mp (List.contains_iff_mem.mp hcontains)
    have hget := Std.ExtTreeMap.getElem?_ofList_of_mem Std.ReflCmp.compare_self hdistinct hmem
    rw [hget, Option.some.injEq] at h
    rw [← h]
    exact hperm.mem_iff.mp hmem
  · exact Std.ExtTreeMap.getElem?_ofList_of_mem Std.ReflCmp.compare_self hdistinct
      (hperm.mem_iff.mpr h)

/-- Entries whose keys are in order are in order. -/
theorem sorted_of_keys {l : List (String × String)} (keys : List String)
    (h : keys.Pairwise fun a b => compare a b = .lt) (hkeys : l.map (·.1) = keys) :
    l.Pairwise fun a b => compare a.1 b.1 = .lt := by
  rw [← hkeys, List.pairwise_map] at h
  exact h

section

variable (hashing : Hashing) (body : List UInt8) (creds : AwsCredentials) (now : Stamp)

/-- The header of the session token, if there is one. -/
def tokenHeader : List (String × String) :=
  creds.sessionToken.toList.map ("x-amz-security-token", ·)

/-- The headers that are signed, by name. -/
def signedEntries (contentType host : String) : List (String × String) :=
  ("content-type", contentType) :: ("host", host) ::
    ("x-amz-content-sha256", sha256Hex hashing body) :: ("x-amz-date", now.timestamp) ::
      tokenHeader creds

theorem signedEntries_sorted (contentType host : String) :
    (signedEntries hashing body creds now contentType host).Pairwise fun a b =>
      compare a.1 b.1 = .lt := by
  rw [signedEntries, tokenHeader]
  cases creds.sessionToken with
  | none =>
    exact sorted_of_keys ["content-type", "host", "x-amz-content-sha256", "x-amz-date"]
      (by decide +kernel) rfl
  | some token =>
    exact sorted_of_keys ["content-type", "host", "x-amz-content-sha256", "x-amz-date",
      "x-amz-security-token"] (by decide +kernel) rfl

theorem canonHdrs_toList (contentType host : String) :
    (canonHdrs hashing contentType body creds host now).toList =
      signedEntries hashing body creds now contentType host := by
  refine (congrArg _ ?_).trans (BTreeMap.toList_ofList
    (signedEntries_sorted hashing body creds now contentType host) (.refl _))
  rw [canonHdrs, signedEntries, tokenHeader]
  cases creds.sessionToken <;> rfl

/-- What the `Authorization` header says. -/
def authorization (method uriPath queryString contentType region service host : String) :
    Sigv4.Authorization :=
  let entries := signedEntries hashing body creds now contentType host
  let names := entries.map (·.1)
  let lines := entries.map fun kv => s!"{kv.1}:{trimmed kv.2}\n"
  let signedHeaders := ";".intercalate names
  let canonicalHeaders := String.join lines
  let payloadHash := sha256Hex hashing body
  let canonicalRequest :=
    s!"{method}\n{uriPath}\n{queryString}\n{canonicalHeaders}\n{signedHeaders}\n{payloadHash}"
  let scope := s!"{now.date}/{region}/{service}/aws4_request"
  let hash := sha256Hex hashing (bytes canonicalRequest)
  let stringToSign := s!"AWS4-HMAC-SHA256\n{now.timestamp}\n{scope}\n{hash}"
  let signingKey := deriveSigningKey hashing creds.secretAccessKey now.date region service
  { accessKeyId := creds.accessKeyId
    date := now.date
    region
    service
    signedHeaders := names
    signature := hex (hashing.hmac signingKey (bytes stringToSign)) }

theorem sigv4Headers_eq (method uriPath queryString contentType region service host : String) :
    sigv4Headers hashing method uriPath queryString contentType body creds region service host now =
      .ofList (("Authorization", (authorization hashing body creds now method uriPath queryString
        contentType region service host).text) :: ("x-amz-date", now.timestamp) ::
          ("x-amz-content-sha256", sha256Hex hashing body) :: tokenHeader creds) := by
  have hkeys : (canonHdrs hashing contentType body creds host now).keys =
      (signedEntries hashing body creds now contentType host).map (·.1) := by
    rw [← canonHdrs_toList, Std.ExtTreeMap.map_fst_toList_eq_keys]
  rw [sigv4Headers, hkeys, canonHdrs_toList, tokenHeader]
  cases creds.sessionToken <;> rfl

theorem sigv4Headers_toList (method uriPath queryString contentType region service host : String) :
    (sigv4Headers hashing method uriPath queryString contentType body creds region service host
      now).toList =
      ("Authorization", (authorization hashing body creds now method uriPath queryString
        contentType region service host).text) ::
          ("x-amz-content-sha256", sha256Hex hashing body) :: ("x-amz-date", now.timestamp) ::
            tokenHeader creds := by
  rw [sigv4Headers_eq]
  refine BTreeMap.toList_ofList ?_ (.cons _ (.swap ..))
  rw [tokenHeader]
  cases creds.sessionToken with
  | none =>
    exact sorted_of_keys ["Authorization", "x-amz-content-sha256", "x-amz-date"]
      (by decide +kernel) rfl
  | some token =>
    exact sorted_of_keys ["Authorization", "x-amz-content-sha256", "x-amz-date",
      "x-amz-security-token"] (by decide +kernel) rfl

/-- The signature as AWS recomputes it. -/
def awsScheme : Scheme := { hashing with trim := trimmed }

/-- A request with the headers of `sigv4_headers`, the host and the content type is covered. -/
theorem signed_covers (method uriPath queryString contentType region service host : String) :
    Sigv4.Covers (awsScheme hashing) creds.secretAccessKey
      ⟨method, uriPath, queryString, ("Host", host) :: ("Content-Type", contentType) ::
        (sigv4Headers hashing method uriPath queryString contentType body creds region service host
          now).toList, body⟩
      (authorization hashing body creds now method uriPath queryString contentType region service
        host) := by
  have hlower : ∀ entry ∈ tokenHeader creds, Prod.map String.toLower id entry = entry := by
    intro entry hentry
    obtain ⟨token, -, rfl⟩ := List.mem_map.mp hentry
    have hname : "x-amz-security-token".toLower = "x-amz-security-token" := by decide +kernel
    exact Prod.ext hname rfl
  have hsends : Sigv4.Request.Sends
      ⟨method, uriPath, queryString, ("Host", host) :: ("Content-Type", contentType) ::
        (sigv4Headers hashing method uriPath queryString contentType body creds region service host
          now).toList, body⟩
      (("authorization", (authorization hashing body creds now method uriPath queryString
        contentType region service host).text) ::
          signedEntries hashing body creds now contentType host) := by
    rw [Sigv4.Request.Sends, sigv4Headers_toList]
    simp only [List.map_cons, List.map_congr_left hlower, List.map_id', Prod.map, id_eq]
    rw [(by decide +kernel : "Host".toLower = "host"),
      (by decide +kernel : "Content-Type".toLower = "content-type"),
      (by decide +kernel : "Authorization".toLower = "authorization"),
      (by decide +kernel : "x-amz-content-sha256".toLower = "x-amz-content-sha256"),
      (by decide +kernel : "x-amz-date".toLower = "x-amz-date")]
    exact ((List.Perm.swap ..).cons _).trans ((List.Perm.swap ..).trans ((List.Perm.swap ..).cons _))
  have hsorted : ((signedEntries hashing body creds now contentType host).map (·.1)).Pairwise
      (· < ·) := by
    refine List.pairwise_map.mpr ?_
    exact (signedEntries_sorted hashing body creds now contentType host).imp
      fun h => compareOfLessAndEq_eq_lt.mp h
  have hnot : "authorization" ∉ (signedEntries hashing body creds now contentType host).map (·.1) := by
    rw [signedEntries, tokenHeader]
    cases creds.sessionToken <;> simp
  have hdate : ("x-amz-date", now.timestamp) ∈
      signedEntries hashing body creds now contentType host := by
    simp [signedEntries]
  exact Sigv4.covers_of_sends hsends hnot hsorted rfl (by simp [authorization, signedEntries])
    (by simp [authorization, signedEntries]) hdate rfl

end

/-! ## Requests -/

/-- A request of one of the three protocols that the driver speaks. -/
inductive AwsRequest
  | query (params : List (String × String))
  | json (target : String) (body : Serde.Value)
  | route53 (path : UrlPath) (xml : String)

namespace AwsRequest

variable (d : AwsDriver) (hashing : Hashing) (base : BaseUrl) (region service : String)
  (creds : AwsCredentials) (now : Stamp)

def post : AwsRequest → HttpPost
  | query params => AwsDriver.queryPost hashing base.text region service creds params now
  | json target body => d.jsonPost hashing base.text region service target creds body now
  | route53 path xml => AwsDriver.route53Post hashing base.text path.text creds xml now

/-- The request has no header that is added after signing. -/
def SignedLast : AwsRequest → Prop
  | json .. => False
  | _ => True

/-- The path that query and JSON requests are sent to. -/
def rootPath : UrlPath where
  text := "/"
  rooted := ⟨[], rfl⟩
  plain := fun c hc => of_decide_eq_true (List.all_eq_true.mp (by decide +kernel :
    "/".toList.all (fun c => decide (c ≠ '?' ∧ c ≠ '#')) = true) c hc)

variable {d hashing base region service creds now}

theorem covers_post (path : UrlPath) (contentType : String) (body : List UInt8) :
    Sigv4.Covers (awsScheme hashing) creds.secretAccessKey
      (HttpPost.sent ⟨base.text ++ path.text, ("Content-Type", contentType) ::
        (sigv4Headers hashing "POST" path.text "" contentType body creds region service base.host
          now).toList, body⟩)
      (authorization hashing body creds now "POST" path.text "" contentType region service
        base.host) := by
  rw [sent_eq]
  exact signed_covers ..

theorem covers_query (params : List (String × String)) :
    ∃ a, Sigv4.Covers (awsScheme hashing) creds.secretAccessKey
      ((query params).post d hashing base region service creds now).sent a := by
  simp only [post, AwsDriver.queryPost, BaseUrl.trimEndSlashes_text, BaseUrl.urlHost_text]
  exact ⟨_, covers_post rootPath ..⟩

theorem covers_route53 (path : UrlPath) (xml : String) :
    ∃ a, Sigv4.Covers (awsScheme hashing) creds.secretAccessKey
      ((route53 path xml).post d hashing base region service creds now).sent a := by
  simp only [post, AwsDriver.route53Post, BaseUrl.trimEndSlashes_text, BaseUrl.urlHost_text]
  exact ⟨_, covers_post path ..⟩

/-- The target of a JSON request is sent twice. -/
theorem target_twice (target : String) (body : Serde.Value) :
    2 ≤ (((json target body).post d hashing base region service creds now).sent.named
      "x-amz-target").length := by
  have hlower : "X-Amz-Target".toLower = "x-amz-target" := by decide +kernel
  have hinserted : ∀ headers : BTreeMap,
      ("X-Amz-Target", target) ∈ (headers.insert "X-Amz-Target" target).toList := fun headers => by
    rw [Std.ExtTreeMap.mem_toList_iff_getElem?_eq_some, Std.ExtTreeMap.getElem?_insert_self]
  have htwice : ∀ (first second : String × String) (headers : BTreeMap),
      2 ≤ ((first :: second :: ("X-Amz-Target", target) ::
        (headers.insert "X-Amz-Target" target).toList).filter
          (·.1.toLower = "x-amz-target")).length := by
    intro first second headers
    have hrest : 0 < ((headers.insert "X-Amz-Target" target).toList.filter
        (·.1.toLower = "x-amz-target")).length :=
      List.length_pos_of_mem (List.mem_filter.mpr ⟨hinserted headers, decide_eq_true hlower⟩)
    have hsublist := List.Sublist.filter (fun header : String × String =>
      decide (header.1.toLower = "x-amz-target")) ((List.sublist_cons_self second
        (("X-Amz-Target", target) :: (headers.insert "X-Amz-Target" target).toList)).trans
          (List.sublist_cons_self first _))
    refine le_trans ?_ hsublist.length_le
    have hfirst : (("X-Amz-Target", target) ::
        (headers.insert "X-Amz-Target" target).toList).filter (·.1.toLower = "x-amz-target") =
        ("X-Amz-Target", target) :: (headers.insert "X-Amz-Target" target).toList.filter
          (·.1.toLower = "x-amz-target") :=
      List.filter_cons_of_pos (decide_eq_true hlower)
    rw [hfirst, List.length_cons]
    omega
  rw [Sigv4.Request.named, List.length_map]
  exact htwice ..

end AwsRequest

/-- **The signature covers a request unless it is of the JSON protocol**. -/
theorem signature_covers_iff (d : AwsDriver) (hashing : Hashing) (base : BaseUrl)
    (region service : String) (creds : AwsCredentials) (now : Stamp) (request : AwsRequest) :
    (∃ a, Sigv4.Covers (awsScheme hashing) creds.secretAccessKey
      (request.post d hashing base region service creds now).sent a) ↔ request.SignedLast := by
  refine ⟨fun ⟨a, h⟩ => ?_, fun h => ?_⟩
  · cases request with
    | query => trivial
    | json target body => exact h.not_twice (by decide) (AwsRequest.target_twice target body)
    | route53 => trivial
  · cases request with
    | query params => exact AwsRequest.covers_query params
    | json target body => exact absurd h id
    | route53 path xml => exact AwsRequest.covers_route53 path xml

def organizationsUrl : BaseUrl where
  secure := true
  host := "organizations.us-east-1.amazonaws.com"
  nonempty := by decide
  plain := fun c hc => of_decide_eq_true (List.all_eq_true.mp (by decide +kernel :
    "organizations.us-east-1.amazonaws.com".toList.all
      (fun c => decide (c ≠ '/' ∧ c ≠ '?' ∧ c ≠ '#' ∧ c ≠ '@')) = true) c hc)

/-- The request for the status of a new account. -/
theorem account_status_not_covered :
    ¬ ∃ a, Sigv4.Covers (awsScheme ⟨id, (· ++ ·)⟩) "secret"
      ((AwsRequest.json "AWSOrganizationsV20161128.DescribeCreateAccountStatus"
        (.object [("CreateAccountRequestId", .str "car-1")])).post plainClouds.aws
          ⟨id, (· ++ ·)⟩ organizationsUrl "us-east-1" "organizations" ⟨"AKIA", "secret", none⟩
          ⟨"20250101T000000Z", "20250101"⟩).sent a :=
  fun ⟨_, h⟩ => h.not_twice (by decide) (AwsRequest.target_twice ..)

end Nclav
