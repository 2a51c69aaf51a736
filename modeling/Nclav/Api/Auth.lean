import Nclav.Reconciler.Template
import Nclav.Web.Base64
import Nclav.Web.Signature

/-!
# Authorization

Every route wants the server's token, as a bearer token or as the password of basic credentials, in
a header that is a text of visible ASCII. The token comes from the environment or from a file, which
the CLI reads as well; Terraform is given it as a password in its environment.
-/

namespace Nclav

open Form (utf8 fromUtf8)
open Sigv4 (hexDigit)

/-! ## Requests -/

/-- The header values of the `http` crate. -/
structure HeaderValues : Type where
  /-- `HeaderValue::from_str` -/
  fromStr : String → Option (List UInt8)
  /-- `HeaderValue::to_str` -/
  toStr : List UInt8 → Option String

/-- Visible ASCII, and the tab. -/
def HeaderChar (c : Char) : Prop := 32 ≤ c.toNat ∧ c.toNat < 127 ∨ c = '\t'

instance (c : Char) : Decidable (HeaderChar c) := inferInstanceAs (Decidable (_ ∨ _))

/-- The characters of the text are of this kind. -/
def HeaderText (s : String) : Prop := ∀ c ∈ s.toList, HeaderChar c

instance (s : String) : Decidable (HeaderText s) := List.decidableBAll _ _

/-- A value made of a text has the bytes of the text, and there is one if the characters are these.
A value is given as a text just if it has nothing else. -/
structure HeaderValues.Lawful (values : HeaderValues) : Prop where
  bytes : ∀ s bs, values.fromStr s = some bs → bs = utf8 s.toList
  accepts : ∀ s, HeaderText s → values.fromStr s = some (utf8 s.toList)
  text : ∀ bs s, values.toStr bs = some s ↔ HeaderText s ∧ bs = utf8 s.toList

/-- The standard engine of the `base64` crate. -/
structure Base64Engine : Type where
  encode : List UInt8 → String
  decode : String → Option (List UInt8)

/-- Nothing but what is encoded is decoded, as the standard engine is strict about padding and about
the bits that are left over; and what is encoded is letters, digits and signs. -/
structure Base64Engine.Lawful (engine : Base64Engine) : Prop where
  decodes : ∀ s bs, engine.decode s = some bs ↔ s = engine.encode bs
  visible : ∀ bs, HeaderText (engine.encode bs)

/-- `str::strip_prefix` -/
def stripPrefix (pre s : String) : Option String :=
  if pre.toList <+: s.toList then some (String.ofList (s.toList.drop pre.length)) else none

/-- `str::split_once` -/
def splitOnce (s : String) (c : Char) : Option (String × String) :=
  if c ∈ s.toList then
    some (String.ofList (s.toList.takeWhile (· ≠ c)),
      String.ofList ((s.toList.dropWhile (· ≠ c)).drop 1))
  else none

/-- The token in the text of a header. -/
def textToken (engine : Base64Engine) (s : String) : Option String :=
  match stripPrefix "Bearer " s with
  | some t => some t
  | none =>
    match stripPrefix "Basic " s with
    | none => none
    | some encoded =>
      match engine.decode encoded with
      | none => none
      | some decoded =>
        match fromUtf8 decoded with
        | none => none
        | some creds => (splitOnce creds ':').map (·.2)

/-- The token of a request, from the bytes of its `Authorization` header. -/
def requestToken (engine : Base64Engine) (values : HeaderValues) (header : Option (List UInt8)) :
    Option String := (header.bind values.toStr).bind (textToken engine)

/-- `require_bearer_token` lets the request through, and else answers it with 401. -/
def authorized (engine : Base64Engine) (values : HeaderValues) (authToken : String)
    (header : Option (List UInt8)) : Bool :=
  match requestToken engine values header with
  | some t => t = authToken
  | none => false

/-! ### What is let through -/

section

variable {engine : Base64Engine} {values : HeaderValues}

theorem stripPrefix_eq_some {pre s t : String} : stripPrefix pre s = some t ↔ s = pre ++ t := by
  rw [stripPrefix]
  constructor
  · intro h
    split at h
    · rename_i hpre
      rw [← Option.some.inj h]
      refine String.toList_inj.mp ?_
      rw [String.toList_append, String.toList_ofList, ← String.length_toList]
      exact (List.prefix_append_drop hpre)
    · cases h
  · rintro rfl
    rw [String.toList_append, if_pos (List.prefix_append _ _), ← String.length_toList,
      List.drop_left, String.ofList_toList]

theorem splitOnce_eq_some {s user rest : String} {c : Char} : splitOnce s c = some (user, rest) ↔
    c ∉ user.toList ∧ s.toList = user.toList ++ c :: rest.toList := by
  rw [splitOnce]
  constructor
  · intro h
    split at h
    · rename_i hc
      obtain ⟨huser, hrest⟩ := Prod.mk.inj (Option.some.inj h)
      rw [← huser, ← hrest, String.toList_ofList, String.toList_ofList]
      refine ⟨fun hmem => ?_, ?_⟩
      · simpa using List.mem_takeWhile_imp hmem
      · have hdrop : s.toList.dropWhile (· ≠ c) = c :: (s.toList.dropWhile (· ≠ c)).drop 1 := by
          rcases hd : s.toList.dropWhile (· ≠ c) with _ | ⟨d, ds⟩
          · exact absurd (List.dropWhile_eq_nil_iff.mp hd c hc) (by simp)
          · have hnil : s.toList.dropWhile (· ≠ c) ≠ [] := by
              rw [hd]
              exact List.cons_ne_nil _ _
            have hhead := List.head_dropWhile_not _ hnil
            simp only [hd, List.head_cons] at hhead
            rw [show d = c by simpa using hhead]
            rfl
        rw [← hdrop, List.takeWhile_append_dropWhile]
    · cases h
  · rintro ⟨huser, hs⟩
    have hall : ∀ d ∈ user.toList, decide (d ≠ c) = true := fun d hd =>
      decide_eq_true fun heq => huser (heq ▸ hd)
    rw [hs, if_pos (by simp), List.takeWhile_append_of_pos hall, List.dropWhile_append_of_pos hall]
    simp

theorem fromUtf8_eq_some {bs : List UInt8} {s : String} :
    fromUtf8 bs = some s ↔ bs = utf8 s.toList := by
  refine ⟨fun h => ?_, fun h => h ▸ Form.fromUtf8_utf8 s⟩
  rw [fromUtf8, String.fromUTF8?] at h
  split at h
  · have hbytes : (utf8 s.toList).toByteArray = s.toByteArray := String.utf8Encode_toList
    refine List.toByteArray_inj.mp ?_
    rw [hbytes, ← Option.some.inj h]
    rfl
  · cases h

/-- The credentials of basic authorization. -/
def Base64Engine.basic (engine : Base64Engine) (user password : String) : String :=
  "Basic " ++ engine.encode (utf8 (user ++ ":" ++ password).toList)

theorem stripPrefix_bearer_basic (engine : Base64Engine) (user password : String) :
    stripPrefix "Bearer " (engine.basic user password) = none := by
  refine Option.eq_none_iff_forall_ne_some.mpr fun t ht => ?_
  have hlists := congrArg String.toList (stripPrefix_eq_some.mp ht)
  rw [Base64Engine.basic, String.toList_append, String.toList_append] at hlists
  have hsecond := congrArg (·[1]?) hlists
  simp at hsecond

/-- The token that a text carries. -/
theorem textToken_eq_some (hengine : engine.Lawful) {s t : String} :
    textToken engine s = some t ↔ s = "Bearer " ++ t ∨
      ∃ user : String, ':' ∉ user.toList ∧ s = engine.basic user t := by
  rw [textToken]
  constructor
  · intro h
    split at h
    · rename_i t' ht
      obtain rfl := Option.some.inj h
      exact .inl (stripPrefix_eq_some.mp ht)
    split at h
    · cases h
    rename_i encoded hencoded
    split at h
    · cases h
    rename_i decoded hdecoded
    split at h
    · cases h
    rename_i creds hcreds
    obtain ⟨⟨user, password⟩, hsplit, rfl⟩ := Option.map_eq_some_iff.mp h
    obtain ⟨huser, hlist⟩ := splitOnce_eq_some.mp hsplit
    refine .inr ⟨user, huser, ?_⟩
    rw [stripPrefix_eq_some.mp hencoded, (hengine.decodes _ _).mp hdecoded,
      fromUtf8_eq_some.mp hcreds, hlist, Base64Engine.basic]
    simp
  · rintro (rfl | ⟨user, huser, rfl⟩)
    · rw [stripPrefix_eq_some.mpr rfl]
    · have hencoded : stripPrefix "Basic " (engine.basic user t) =
          some (engine.encode (utf8 (user ++ ":" ++ t).toList)) := stripPrefix_eq_some.mpr rfl
      have hsplit : splitOnce (user ++ ":" ++ t) ':' = some (user, t) :=
        splitOnce_eq_some.mpr ⟨huser, by simp⟩
      simp only [stripPrefix_bearer_basic, hencoded, (hengine.decodes _ _).mpr rfl,
        Form.fromUtf8_utf8, hsplit, Option.map_some]

theorem headerText_append {s t : String} : HeaderText (s ++ t) ↔ HeaderText s ∧ HeaderText t := by
  simp only [HeaderText, String.toList_append, List.forall_mem_append]

theorem headerText_basic (hengine : engine.Lawful) (user password : String) :
    HeaderText (engine.basic user password) :=
  headerText_append.mpr ⟨by decide, hengine.visible _⟩

theorem headerText_bearer {token : String} : HeaderText ("Bearer " ++ token) ↔ HeaderText token :=
  headerText_append.trans (and_iff_right (by decide))

/-- The token that a header carries: its bytes are those of a text that does. -/
theorem requestToken_eq_some (hvalues : values.Lawful) {header : Option (List UInt8)} {t : String} :
    requestToken engine values header = some t ↔ ∃ s, HeaderText s ∧
      header = some (utf8 s.toList) ∧ textToken engine s = some t := by
  rw [requestToken, Option.bind_eq_some_iff]
  constructor
  · rintro ⟨s, hs, ht⟩
    obtain ⟨bs, rfl, hbs⟩ := Option.bind_eq_some_iff.mp hs
    obtain ⟨htext, rfl⟩ := (hvalues.text bs s).mp hbs
    exact ⟨s, htext, rfl, ht⟩
  · rintro ⟨s, htext, rfl, ht⟩
    exact ⟨s, (hvalues.text _ s).mpr ⟨htext, rfl⟩, ht⟩

theorem authorized_eq_true {authToken : String} {header : Option (List UInt8)} :
    authorized engine values authToken header = true ↔
      requestToken engine values header = some authToken := by
  rw [authorized]
  cases requestToken engine values header with
  | none => exact iff_of_false (by rintro ⟨⟩) (by rintro ⟨⟩)
  | some t => rw [decide_eq_true_eq, Option.some.injEq]

/-- **What is let through**: the token as a bearer token, if a header has it as a text, or as the
password of basic credentials, whoever the user is. -/
theorem authorized_iff (hengine : engine.Lawful) (hvalues : values.Lawful) {authToken : String}
    {header : Option (List UInt8)} :
    authorized engine values authToken header = true ↔
      HeaderText authToken ∧ header = some (utf8 ("Bearer " ++ authToken).toList) ∨
      ∃ user : String, ':' ∉ user.toList ∧
        header = some (utf8 (engine.basic user authToken).toList) := by
  rw [authorized_eq_true, requestToken_eq_some hvalues]
  constructor
  · rintro ⟨s, htext, hheader, ht⟩
    rcases (textToken_eq_some hengine).mp ht with rfl | ⟨user, huser, rfl⟩
    · exact .inl ⟨headerText_bearer.mp htext, hheader⟩
    · exact .inr ⟨user, huser, hheader⟩
  · rintro (⟨htext, hheader⟩ | ⟨user, huser, hheader⟩)
    · exact ⟨_, headerText_bearer.mpr htext, hheader, (textToken_eq_some hengine).mpr (.inl rfl)⟩
    · exact ⟨_, headerText_basic hengine user authToken, hheader,
        (textToken_eq_some hengine).mpr (.inr ⟨user, huser, rfl⟩)⟩

end

/-! ## Tokens -/

/-- `Uuid::to_string` without its dashes. -/
def uuidHex (u : Uuid) : List Char := (List.range 32).map fun i => hexDigit (u / 16 ^ (31 - i) % 16)

def generateToken (a b : Uuid) : String := String.ofList (uuidHex a ++ uuidHex b)

/-- What `serve` takes as its token, and what it writes into the token file on the way. `a` and `b`
are new UUIDs, `file` is what can be read from the file and `written` what comes of the write. -/
def serveToken (env : Option String) (rotateToken : Bool) (file : Option String) (a b : Uuid)
    (written : Except String Unit) : Except String (String × Option String) :=
  let generated := written.map fun _ => (generateToken a b, some (generateToken a b))
  match env with
  | some envToken =>
    if envToken ≠ "" then .ok (envToken, none) else .error "NCLAV_TOKEN is set but empty"
  | none =>
    if !rotateToken then
      match file.map fun s => String.ofList (trim s.toList) with
      | some existing => if existing ≠ "" then .ok (existing, none) else generated
      | none => generated
    else generated

/-- The token of a CLI command, `file` being what can be read from the file at `path`. -/
def resolveToken (path : String) (explicit file : Option String) : Except String String :=
  match explicit with
  | some t => .ok t
  | none =>
    match file with
    | some s => .ok (String.ofList (trim s.toList))
    | none => .error (s!"No token provided and could not read token file at {path}. " ++
        "Use --token, NCLAV_TOKEN, or run `nclav serve` first.")

/-- The header of an `authed_client`, which panics where there is no such value. -/
def authedClient (values : HeaderValues) (token : String) : Option (List UInt8) :=
  values.fromStr ("Bearer " ++ token)

section

variable {engine : Base64Engine} {values : HeaderValues}

theorem hexDigit_plain {n : Nat} (h : n < 16) :
    isWhitespace (hexDigit n) = false ∧ 32 ≤ (hexDigit n).toNat ∧ (hexDigit n).toNat < 127 := by
  revert n
  decide

theorem generateToken_plain (a b : Uuid) : ∀ c ∈ (generateToken a b).toList,
    isWhitespace c = false ∧ 32 ≤ c.toNat ∧ c.toNat < 127 := by
  have huuid : ∀ u, ∀ c ∈ uuidHex u, isWhitespace c = false ∧ 32 ≤ c.toNat ∧ c.toNat < 127 := by
    intro u c hc
    obtain ⟨i, -, rfl⟩ := List.mem_map.mp hc
    exact hexDigit_plain (Nat.mod_lt _ (by decide))
  intro c hc
  rw [generateToken, String.toList_ofList] at hc
  rcases List.mem_append.mp hc with hc | hc
  · exact huuid a c hc
  · exact huuid b c hc

/-- A generated token is read back as it is. -/
theorem trim_generateToken (a b : Uuid) :
    String.ofList (trim (generateToken a b).toList) = generateToken a b := by
  rw [trim_of_ends (fun c hc => ?_) fun c hc => ?_, String.ofList_toList]
  · exact (generateToken_plain a b c (List.mem_of_mem_head? hc)).1
  · exact (generateToken_plain a b c (List.mem_of_mem_getLast? hc)).1

theorem generateToken_ne_empty (a b : Uuid) : generateToken a b ≠ "" := by
  intro h
  have hlist := congrArg (·.toList.length) h
  simp [generateToken, uuidHex] at hlist

theorem headerText_generateToken (a b : Uuid) : HeaderText (generateToken a b) := fun c hc =>
  .inl (generateToken_plain a b c hc).2

/-- A client is let in with a token that a header has as a text, and with no other. -/
theorem authedClient_authorized (hengine : engine.Lawful) (hvalues : values.Lawful) {token : String}
    {header : List UInt8} (h : authedClient values token = some header) :
    authorized engine values token (some header) = true ↔ HeaderText token := by
  rw [authorized_iff hengine hvalues, hvalues.bytes _ _ h]
  constructor
  · rintro (⟨htext, -⟩ | ⟨user, -, hbytes⟩)
    · exact htext
    · have htexts := congrArg fromUtf8 (Option.some.inj hbytes)
      rw [Form.fromUtf8_utf8, Form.fromUtf8_utf8] at htexts
      have hbasic := stripPrefix_bearer_basic engine user token
      rw [← Option.some.inj htexts, stripPrefix_eq_some.mpr rfl] at hbasic
      cases hbasic
  · exact fun htext => .inl ⟨htext, rfl⟩

/-- **Clients that go by the token file are let in.** Where the server takes its token from the file
or generates it, the file holds the token afterwards: the CLI finds it there, and so does the next
start unless it is to rotate it. What the CLI sends is let in just if a header has the token as a
text, and so it is with a token that is generated. -/
theorem fileToken_authorized (hengine : engine.Lawful) (hvalues : values.Lawful)
    {rotateToken : Bool} {file wrote : Option String} {path : String} {a b : Uuid}
    {written : Except String Unit} {token : String}
    (h : serveToken none rotateToken file a b written = .ok (token, wrote)) :
    resolveToken path none (wrote.or file) = .ok token ∧
    (∀ header, authedClient values token = some header →
      (authorized engine values token (some header) = true ↔ HeaderText token)) ∧
    (∀ a' b' written', serveToken none false (wrote.or file) a' b' written' = .ok (token, none)) ∧
    (wrote.isSome = true → HeaderText token ∧
      authedClient values token = some (utf8 ("Bearer " ++ token).toList)) := by
  have hread : ∀ s, wrote.or file = some s → String.ofList (trim s.toList) = token → token ≠ "" →
      resolveToken path none (wrote.or file) = .ok token ∧ ∀ a' b' written',
        serveToken none false (wrote.or file) a' b' written' = .ok (token, none) := by
    intro s hs htrim hne
    refine ⟨?_, fun a' b' written' => ?_⟩
    · simp only [resolveToken, hs, htrim]
    · rw [serveToken, hs, Option.map_some, htrim]
      simp [hne]
  have hcase : (wrote = none ∧ ∃ s, file = some s ∧ String.ofList (trim s.toList) = token ∧
      token ≠ "") ∨ token = generateToken a b ∧ wrote = some (generateToken a b) := by
    have hgenerated : (written.map fun _ => (generateToken a b, some (generateToken a b))) =
        .ok (token, wrote) → token = generateToken a b ∧ wrote = some (generateToken a b) := by
      intro hgen
      cases written with
      | error e => cases hgen
      | ok _ =>
        obtain ⟨htoken, hwrote⟩ := Prod.mk.inj (Except.ok.inj hgen)
        exact ⟨htoken.symm, hwrote.symm⟩
    rw [serveToken] at h
    split at h
    · cases hf : file with
      | none =>
        rw [hf] at h
        exact .inr (hgenerated h)
      | some s =>
        rw [hf] at h
        simp only [Option.map_some] at h
        split at h
        · rename_i hne
          obtain ⟨htoken, hwrote⟩ := Prod.mk.inj (Except.ok.inj h)
          exact .inl ⟨hwrote.symm, s, rfl, htoken, htoken ▸ hne⟩
        · exact .inr (hgenerated h)
    · exact .inr (hgenerated h)
  have hsent := fun header (hheader : authedClient values token = some header) =>
    authedClient_authorized hengine hvalues hheader
  rcases hcase with ⟨rfl, s, rfl, htrim, hne⟩ | ⟨rfl, rfl⟩
  · obtain ⟨hresolve, hreuse⟩ := hread s rfl htrim hne
    exact ⟨hresolve, hsent, hreuse, by rintro ⟨⟩⟩
  · obtain ⟨hresolve, hreuse⟩ := hread _ rfl (trim_generateToken a b) (generateToken_ne_empty a b)
    have htext := headerText_generateToken a b
    exact ⟨hresolve, hsent, hreuse, fun _ =>
      ⟨htext, hvalues.accepts _ (headerText_bearer.mpr htext)⟩⟩

end

/-! ### The engine -/

/-- What the standard engine does. -/
def standardEngine : Base64Engine where
  encode bs := String.ofList (Base64.encode bs)
  decode s := Base64.decode s.toList

theorem standardEngine_lawful : standardEngine.Lawful where
  decodes s bs := by
    refine Base64.decode_eq_some.trans ⟨fun h => ?_, fun h => ?_⟩
    · show s = String.ofList (Base64.encode bs)
      rw [← h, String.ofList_toList]
    · rw [h]
      exact String.toList_ofList
  visible bs c hc := by
    rw [standardEngine, String.toList_ofList] at hc
    exact List.forall_iff_forall_mem.mp
      (show List.Forall HeaderChar ('=' :: Base64.alphabet) by decide) c (Base64.mem_of_mem_encode hc)

/-- What `HeaderValue` does: a value has no control character but the tab. -/
def standardValues : HeaderValues where
  fromStr s :=
    if ∀ c ∈ s.toList, 32 ≤ c.toNat ∧ c.toNat ≠ 127 ∨ c = '\t' then some (utf8 s.toList) else none
  toStr bs := (fromUtf8 bs).filter fun s => decide (HeaderText s)

theorem standardValues_lawful : standardValues.Lawful where
  bytes s bs h := by
    simp only [standardValues] at h
    split at h
    · exact (Option.some.inj h).symm
    · cases h
  accepts s htext := by
    simp only [standardValues]
    exact if_pos fun c hc => (htext c hc).imp (fun h => ⟨h.1, h.2.ne⟩) id
  text bs s := by
    simp only [standardValues, Option.filter_eq_some_iff, fromUtf8_eq_some, decide_eq_true_eq]
    exact and_comm

/-- What Terraform sends for the token `é`, which no client can send as a bearer token. -/
theorem terraform_authorized :
    authorized standardEngine standardValues "é"
      (some (utf8 (standardEngine.basic "nclav" "é").toList)) = true :=
  (authorized_iff standardEngine_lawful standardValues_lawful).mpr (.inr ⟨"nclav", by decide, rfl⟩)

theorem serveToken_first : serveToken none false none 1 2 (.ok ()) =
    .ok (generateToken 1 2, some (generateToken 1 2)) := rfl

/-- After a first start, which generates the token, a command that is given none is let in. -/
theorem firstToken_authorized : ∃ token,
    resolveToken "/root/.nclav/token" none (some token) = .ok token ∧
    authorized standardEngine standardValues token (some (utf8 ("Bearer " ++ token).toList)) =
      true := by
  obtain ⟨hresolve, hsent, -, hheader⟩ :=
    fileToken_authorized standardEngine_lawful standardValues_lawful serveToken_first
  obtain ⟨htext, hvalue⟩ := hheader rfl
  exact ⟨_, hresolve, (hsent _ hvalue).mpr htext⟩

end Nclav
