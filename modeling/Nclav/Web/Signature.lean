import Nclav.Web.Form

/-!
# Signed requests

AWS Signature Version 4, as a server recomputes it: from the request as it was sent and from what
its `Authorization` header says was signed. A request is covered when the signature is the one in
that header, and everything that has to be signed is, and is there once.
-/

namespace Sigv4

structure Hashing : Type where
  sha256 : List UInt8 → List UInt8
  hmac : List UInt8 → List UInt8 → List UInt8

/-- What the signature is made with. -/
structure Scheme : Type extends Hashing where
  /-- the value of a header without the white space around it -/
  trim : String → String

/-- A request as it is sent. -/
structure Request : Type where
  method : String
  path : String
  query : String
  headers : List (String × String)
  body : List UInt8

/-- The values under a name, whatever the case of its letters. -/
def Request.named (r : Request) (name : String) : List String :=
  (r.headers.filter fun h => h.1.toLower = name).map (·.2)

/-- What the `Authorization` header says. -/
structure Authorization : Type where
  accessKeyId : String
  date : String
  region : String
  service : String
  signedHeaders : List String
  signature : String

def bytes (s : String) : List UInt8 := Form.utf8 s.toList

/-- The digit of a half byte. -/
def hexDigit (n : Nat) : Char := Char.ofNat (if n < 10 then 0x30 + n else 0x61 + (n - 10))

def hex (bs : List UInt8) : String :=
  String.ofList (bs.flatMap fun b => [hexDigit (b.toNat / 16), hexDigit (b.toNat % 16)])

namespace Authorization

variable (a : Authorization)

def scope : String := s!"{a.date}/{a.region}/{a.service}/aws4_request"

def names : String := ";".intercalate a.signedHeaders

def text : String :=
  s!"AWS4-HMAC-SHA256 Credential={a.accessKeyId}/{a.scope}," ++
    s!"SignedHeaders={a.names},Signature={a.signature}"

end Authorization

variable (scheme : Scheme)

/-- The line of a header that was sent once. -/
def Request.line (r : Request) (name : String) : Option String :=
  match r.named name with
  | [value] => some s!"{name}:{scheme.trim value}\n"
  | _ => none

/-- The canonical request, from the lines of its headers. -/
def canonicalText (a : Authorization) (r : Request) (lines : List String) : String :=
  let payloadHash := hex (scheme.sha256 r.body)
  s!"{r.method}\n{r.path}\n{r.query}\n{String.join lines}\n{a.names}\n{payloadHash}"

def canonicalRequest (a : Authorization) (r : Request) : Option String :=
  (a.signedHeaders.mapM (r.line scheme)).map (canonicalText scheme a r)

def signingKey (secret : String) (a : Authorization) : List UInt8 :=
  [a.date, a.region, a.service, "aws4_request"].foldl
    (fun key text => scheme.hmac key (bytes text)) (bytes s!"AWS4{secret}")

/-- The signature of a canonical request. -/
def signatureText (secret : String) (a : Authorization) (timestamp canonical : String) : String :=
  let hash := hex (scheme.sha256 (bytes canonical))
  hex (scheme.hmac (signingKey scheme secret a)
    (bytes s!"AWS4-HMAC-SHA256\n{timestamp}\n{a.scope}\n{hash}"))

/-- The signature of a request with this secret. -/
def signature (secret : String) (a : Authorization) (r : Request) : Option String := do
  let canonical ← canonicalRequest scheme a r
  let timestamp ← (r.named "x-amz-date").head?
  return signatureText scheme secret a timestamp canonical

/-- The signature covers the request. -/
structure Covers (secret : String) (r : Request) (a : Authorization) : Prop where
  header : r.named "authorization" = [a.text]
  sorted : a.signedHeaders.Pairwise (· < ·)
  signature : signature scheme secret a r = some a.signature
  host : "host" ∈ a.signedHeaders
  contentType : "content-type" ∈ a.signedHeaders
  amz : ∀ h ∈ r.headers, "x-amz-".toList <+: h.1.toLower.toList → h.1.toLower ∈ a.signedHeaders
  once : ∀ name ∈ a.signedHeaders, ∃ value, r.named name = [value]

/-! ## Headers by their lower-case names -/

/-- The headers of the request, in some order. -/
def Request.Sends (r : Request) (entries : List (String × String)) : Prop :=
  (r.headers.map (Prod.map String.toLower id)).Perm entries

namespace Request.Sends

variable {r : Request} {entries : List (String × String)}

theorem named (h : r.Sends entries) (hnodup : (entries.map (·.1)).Nodup) {name value : String}
    (hmem : (name, value) ∈ entries) : r.named name = [value] := by
  have hlower : r.named name =
      ((r.headers.map (Prod.map String.toLower id)).filter (·.1 = name)).map (·.2) := by
    rw [List.filter_map, List.map_map]
    rfl
  have honly : ∀ entries : List (String × String), (entries.map (·.1)).Nodup →
      (name, value) ∈ entries → (entries.filter (·.1 = name)).map (·.2) = [value] := by
    intro entries hnodup hmem
    obtain ⟨before, after, rfl⟩ := List.append_of_mem hmem
    rw [List.map_append, List.map_cons, List.nodup_middle, List.nodup_cons, List.mem_append,
      not_or] at hnodup
    have hnone : ∀ part : List (String × String), name ∉ part.map (·.1) →
        part.filter (·.1 = name) = [] := fun part hnot =>
      List.filter_eq_nil_iff.mpr fun kv hkv heq =>
        hnot (List.mem_map.mpr ⟨kv, hkv, of_decide_eq_true heq⟩)
    have hsome : ((name, value) :: after).filter (·.1 = name) =
        (name, value) :: after.filter (·.1 = name) :=
      List.filter_cons_of_pos (decide_eq_true rfl)
    rw [List.filter_append, hsome, hnone _ hnodup.1.1, hnone _ hnodup.1.2]
    rfl
  have hperm := (h.filter (·.1 = name)).map (·.2)
  rw [honly entries hnodup hmem] at hperm
  rw [hlower]
  exact List.perm_singleton.mp hperm

/-- The lines of some of the headers. -/
theorem lines (scheme : Scheme) (h : r.Sends entries) (hnodup : (entries.map (·.1)).Nodup) :
    ∀ part ⊆ entries, (part.map (·.1)).mapM (r.line scheme) =
      some (part.map fun kv => s!"{kv.1}:{scheme.trim kv.2}\n")
  | [], _ => rfl
  | kv :: part, hsub => by
    have hnamed := h.named hnodup (hsub List.mem_cons_self)
    have hline : r.line scheme kv.1 = some s!"{kv.1}:{scheme.trim kv.2}\n" := by
      rw [Request.line, hnamed]
    rw [List.map_cons, List.mapM_cons, hline,
      lines scheme h hnodup part (List.subset_of_cons_subset hsub)]
    rfl

end Request.Sends

/-- A request is covered when it sends the headers that are signed and the authorization. -/
theorem covers_of_sends {scheme : Scheme} {secret timestamp : String} {r : Request}
    {a : Authorization} {entries : List (String × String)}
    (hsends : r.Sends (("authorization", a.text) :: entries))
    (hnot : "authorization" ∉ entries.map (·.1))
    (hsorted : (entries.map (·.1)).Pairwise (· < ·)) (hnames : a.signedHeaders = entries.map (·.1))
    (hhost : "host" ∈ a.signedHeaders) (htype : "content-type" ∈ a.signedHeaders)
    (hdate : ("x-amz-date", timestamp) ∈ entries)
    (hsignature : a.signature = signatureText scheme secret a timestamp
      (canonicalText scheme a r (entries.map fun kv => s!"{kv.1}:{scheme.trim kv.2}\n"))) :
    Covers scheme secret r a := by
  have hdistinct : (entries.map (·.1)).Pairwise (· ≠ ·) :=
    hsorted.imp fun {name name'} (hlt : name < name') (heq : name = name') =>
      String.lt_irrefl name' (heq ▸ hlt)
  have hnodup : ((("authorization", a.text) :: entries).map (·.1)).Nodup :=
    List.nodup_cons.mpr ⟨hnot, hdistinct⟩
  refine ⟨hsends.named hnodup List.mem_cons_self, hnames ▸ hsorted, ?_, hhost, htype,
    fun h hmem hamz => ?_, fun name hname => ?_⟩
  · rw [signature, canonicalRequest, hnames, hsends.lines scheme hnodup entries
      (List.subset_cons_self ..), hsends.named hnodup (List.mem_cons_of_mem _ hdate), hsignature]
    rfl
  · rw [hnames]
    have hlower := hsends.mem_iff.mp (List.mem_map_of_mem hmem)
    obtain heq | hentry := List.mem_cons.mp hlower
    · have hname : h.1.toLower = "authorization" := congrArg Prod.fst heq
      rw [hname] at hamz
      exact absurd hamz (by decide)
    · exact List.mem_map_of_mem hentry
  · rw [hnames] at hname
    obtain ⟨kv, hkv, rfl⟩ := List.mem_map.mp hname
    exact ⟨kv.2, hsends.named hnodup (List.mem_cons_of_mem _ hkv)⟩

/-- A header of Amazon's that is sent twice is not covered. -/
theorem Covers.not_twice {scheme : Scheme} {secret : String} {r : Request} {a : Authorization}
    (h : Covers scheme secret r a) {name : String} (hamz : "x-amz-".toList <+: name.toList)
    (htwice : 2 ≤ (r.named name).length) : False := by
  obtain ⟨v, hv⟩ := List.exists_mem_of_length_pos (Nat.lt_of_lt_of_le Nat.zero_lt_two htwice)
  obtain ⟨header, hfilter, -⟩ := List.mem_map.mp hv
  obtain ⟨hmem, hname⟩ := List.mem_filter.mp hfilter
  obtain rfl := of_decide_eq_true hname
  obtain ⟨value', honce⟩ := h.once _ (h.amz _ hmem hamz)
  rw [honce, List.length_singleton] at htwice
  exact absurd htwice (by decide)

end Sigv4
