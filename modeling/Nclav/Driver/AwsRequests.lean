import Nclav.Driver.Aws
import Nclav.Reconciler.Template
import Nclav.Web.Signature

/-!
# The requests of the AWS driver

How a request to AWS is made up: its form body, the headers of its signature, and what is given to
the HTTP client. The client adds the host of the URL, and every header that it is given.
-/

namespace Nclav

open Serde
open Sigv4 (Hashing hex bytes)

/-! ## Form bodies -/

namespace Urlencoding

def encodeByte (b : UInt8) : List Char :=
  if (0x41 ≤ b ∧ b ≤ 0x5A) ∨ (0x61 ≤ b ∧ b ≤ 0x7A) ∨ (0x30 ≤ b ∧ b ≤ 0x39) ∨
      b = 0x2D ∨ b = 0x5F ∨ b = 0x2E ∨ b = 0x7E then
    [Char.ofNat b.toNat]
  else if b = 0x20 then ['+']
  else ['%', Form.hexDigit (b.toNat / 16), Form.hexDigit (b.toNat % 16)]

def encode (s : String) : String := String.ofList ((bytes s).flatMap encodeByte)

end Urlencoding

/-- The body of a request of the query protocol. -/
def formBody (params : List (String × String)) : String :=
  "&".intercalate (params.map fun kv => s!"{kv.1}={Urlencoding.encode kv.2}")

/-! ## Signatures -/

/-- `trim_start_matches`: take the pattern away as often as it is there, `n` times at most. -/
def trimStartMatches (pat : List Char) : (n : Nat) → List Char → List Char
  | 0, cs => cs
  | n + 1, cs => if pat <+: cs then trimStartMatches pat n (cs.drop pat.length) else cs

def urlHost (url : String) : String :=
  let withoutScheme := trimStartMatches "https://".toList url.length url.toList
  let withoutScheme := trimStartMatches "http://".toList url.length withoutScheme
  String.ofList (withoutScheme.takeWhile (· ≠ '/'))

/-- The time of a request, in its two formats. -/
structure Stamp : Type where
  /-- `%Y%m%dT%H%M%SZ` -/
  timestamp : String
  /-- `%Y%m%d` -/
  date : String

abbrev BTreeMap : Type := Std.ExtTreeMap String String compare

/-- `str::trim` -/
def trimmed (value : String) : String := String.ofList (trim value.toList)

section

variable (hashing : Hashing)

def sha256Hex (data : List UInt8) : String := hex (hashing.sha256 data)

def deriveSigningKey (secret date region service : String) : List UInt8 :=
  let kDate := hashing.hmac (bytes s!"AWS4{secret}") (bytes date)
  let kRegion := hashing.hmac kDate (bytes region)
  let kService := hashing.hmac kRegion (bytes service)
  hashing.hmac kService (bytes "aws4_request")

/-- The headers that are signed. -/
def canonHdrs (contentType : String) (body : List UInt8) (creds : AwsCredentials) (host : String)
    (now : Stamp) : BTreeMap :=
  let hdrs := (((∅ : BTreeMap).insert "content-type" contentType).insert "host" host).insert
    "x-amz-content-sha256" (sha256Hex hashing body)
  let hdrs := hdrs.insert "x-amz-date" now.timestamp
  match creds.sessionToken with
  | some token => hdrs.insert "x-amz-security-token" token
  | none => hdrs

/-- The headers to add to a request. -/
def sigv4Headers (method uriPath queryString contentType : String) (body : List UInt8)
    (creds : AwsCredentials) (region service host : String) (now : Stamp) : BTreeMap :=
  let payloadHash := sha256Hex hashing body
  let hdrs := canonHdrs hashing contentType body creds host now
  let signedHeaders := ";".intercalate hdrs.keys
  let canonicalHeaders := String.join (hdrs.toList.map fun kv => s!"{kv.1}:{trimmed kv.2}\n")
  let canonicalRequest :=
    s!"{method}\n{uriPath}\n{queryString}\n{canonicalHeaders}\n{signedHeaders}\n{payloadHash}"
  let scope := s!"{now.date}/{region}/{service}/aws4_request"
  let hash := sha256Hex hashing (bytes canonicalRequest)
  let stringToSign := s!"AWS4-HMAC-SHA256\n{now.timestamp}\n{scope}\n{hash}"
  let signingKey := deriveSigningKey hashing creds.secretAccessKey now.date region service
  let signature := hex (hashing.hmac signingKey (bytes stringToSign))
  let auth := s!"AWS4-HMAC-SHA256 Credential={creds.accessKeyId}/{scope}," ++
    s!"SignedHeaders={signedHeaders},Signature={signature}"
  let out := ((∅ : BTreeMap).insert "Authorization" auth).insert "x-amz-date" now.timestamp
  let out := out.insert "x-amz-content-sha256" payloadHash
  match creds.sessionToken with
  | some token => out.insert "x-amz-security-token" token
  | none => out

end

/-! ## Requests -/

/-- What is given to the HTTP client: a POST with headers and a body. -/
structure HttpPost : Type where
  url : String
  headers : List (String × String)
  body : List UInt8

/-- What comes behind the scheme of a URL. -/
def afterScheme (url : String) : List Char := (url.toList.dropWhile (· ≠ ':')).drop 3

/-- The request as the client sends it. -/
def HttpPost.sent (post : HttpPost) : Sigv4.Request :=
  let rest := afterScheme post.url
  let target := rest.dropWhile (· ≠ '/')
  { method := "POST"
    path := String.ofList (target.takeWhile (· ≠ '?'))
    query := String.ofList ((target.dropWhile (· ≠ '?')).drop 1)
    headers := ("Host", String.ofList (rest.takeWhile (· ≠ '/'))) :: post.headers
    body := post.body }

/-- `trim_end_matches('/')` -/
def trimEndSlashes (url : String) : String :=
  String.ofList (url.toList.reverse.dropWhile (· = '/')).reverse

namespace AwsDriver

variable (d : AwsDriver) (hashing : Hashing)

/-- The request of `query_api`. -/
def queryPost (baseUrl region service : String) (creds : AwsCredentials)
    (params : List (String × String)) (now : Stamp) : HttpPost :=
  let ct := "application/x-www-form-urlencoded; charset=utf-8"
  let body := bytes (formBody params)
  { url := s!"{trimEndSlashes baseUrl}/"
    headers := ("Content-Type", ct) ::
      (sigv4Headers hashing "POST" "/" "" ct body creds region service (urlHost baseUrl) now).toList
    body }

/-- The request of `json_api`. -/
def jsonPost (baseUrl region service target : String) (creds : AwsCredentials) (body : Value)
    (now : Stamp) : HttpPost :=
  let ct := "application/x-amz-json-1.1"
  let body := bytes (d.lib.jsonText body)
  let sigHeaders :=
    (sigv4Headers hashing "POST" "/" "" ct body creds region service (urlHost baseUrl) now).insert
      "X-Amz-Target" target
  { url := s!"{trimEndSlashes baseUrl}/"
    headers := ("Content-Type", ct) :: ("X-Amz-Target", target) :: sigHeaders.toList
    body }

/-- The request of `route53_post`, to the base URL of Route 53. -/
def route53Post (base path : String) (creds : AwsCredentials) (xml : String) (now : Stamp) :
    HttpPost :=
  let ct := "text/xml; charset=utf-8"
  let body := bytes xml
  { url := s!"{trimEndSlashes base}{path}"
    headers := ("Content-Type", ct) ::
      (sigv4Headers hashing "POST" path "" ct body creds "us-east-1" "route53" (urlHost base)
        now).toList
    body }

end AwsDriver

end Nclav
