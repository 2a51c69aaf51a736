import Nclav.Guarantees.ContextVars
import Nclav.Reconciler.Substitution

/-!
# The documented tokens

Four tokens are documented for the inputs of a partition. A driver knows two of them or, if it is
the local one, none; a token that it does not know is handed on as it is written. So is every
token behind a text that ends with a brace: the braces are taken one character too early.
-/

namespace Nclav

open Serde

/-! ## Inputs with documented tokens -/

/-- A documented token. -/
inductive DocToken : Type where
  | enclaveId | partitionId | projectId | region
  deriving DecidableEq

def DocToken.name : DocToken → String
  | .enclaveId => "nclav_enclave_id"
  | .partitionId => "nclav_partition_id"
  | .projectId => "nclav_project_id"
  | .region => "nclav_region"

/-- A text without braces that open a token, and a documented token behind it. -/
structure Slot : Type where
  before : List Char
  left : List Char
  token : DocToken
  right : List Char
  plain : ¬ ['{', '{'] <:+: before
  blank : ∀ c ∈ left ++ right, isWhitespace c = true

/-- An input value that is built of such texts and documented tokens. -/
structure DocInput : Type where
  slots : List Slot
  tail : List Char
  plain : ¬ ['{', '{'] <:+: tail

/-- The text between the braces. -/
def Slot.inner (slot : Slot) : List Char := slot.left ++ slot.token.name.toList ++ slot.right

def Slot.source (slot : Slot) : List Char :=
  slot.before ++ '{' :: '{' :: (slot.inner ++ ['}', '}'])

/-- The input value as it is written in the configuration. -/
def DocInput.source (input : DocInput) : List Char :=
  input.slots.flatMap Slot.source ++ input.tail

/-- The input value with these values for its tokens. -/
def DocInput.filled (input : DocInput) (value : DocToken → String) : List Char :=
  input.slots.flatMap (fun slot => slot.before ++ (value slot.token).toList) ++ input.tail

/-! ## The documented values -/

namespace CloudDrivers

variable (ds : CloudDrivers)

/-- The cloud project of a handle: the project, the subscription or the account. -/
def cloudProject (cloud : CloudTarget) (enc : Enclave) (handle : Handle) : String :=
  match cloud with
  | .local => ""
  | .gcp => strOr handle "project_id" (ds.gcp.gcpProjectId enc.id.val)
  | .azure => strOr handle "subscription_id" ""
  | .aws => strOr handle "account_id" ""

/-- The region of a handle, or the configured one. -/
def cloudRegion (cloud : CloudTarget) (enc : Enclave) (handle : Handle) : String :=
  match cloud with
  | .local => ""
  | .gcp => strOr handle "region" enc.region
  | .azure => strOr handle "location" ds.azure.config.defaultLocation
  | .aws => strOr handle "region" ds.aws.config.defaultRegion

/-- What the documentation says that a token stands for. -/
def documented (cloud : CloudTarget) (enc : Enclave) (part : Partition) (handle : Handle) :
    DocToken → String
  | .enclaveId => enc.id.val
  | .partitionId => part.id.val
  | .projectId => ds.cloudProject cloud enc handle
  | .region => ds.cloudRegion cloud enc handle

/-- The driver's table has the documented value of a token that it knows. -/
theorem get?_contextVars_token (cloud : CloudTarget) (enc : Enclave) (part : Partition)
    (handle : Handle) (token : DocToken) :
    ((ds.driver cloud).contextVars enc handle)[token.name]? =
      if token.name ∈ cloud.contextKeys then some (ds.documented cloud enc part handle token)
      else none := by
  split
  · rename_i hkey
    cases cloud with
    | «local» => cases hkey
    | gcp =>
      cases token with
      | enclaveId | partitionId => exact absurd hkey (by decide)
      | projectId =>
        show (((∅ : HashMap String String).insert "nclav_project_id" _).insert
          "nclav_region" _)["nclav_project_id"]? = _
        rw [HashMap.get?_insert, if_neg (by decide), HashMap.get?_insert, if_pos rfl]
        rfl
      | region =>
        show (((∅ : HashMap String String).insert "nclav_project_id" _).insert
          "nclav_region" _)["nclav_region"]? = _
        rw [HashMap.get?_insert, if_pos rfl]
        rfl
    | azure =>
      cases token with
      | enclaveId | partitionId => exact absurd hkey (by decide)
      | projectId | region =>
        simp only [driver, AzureDriver.driver, AzureDriver.contextVars, DocToken.name, List.foldl,
          HashMap.get?_insert]
        rfl
    | aws =>
      cases token with
      | enclaveId | partitionId => exact absurd hkey (by decide)
      | projectId | region =>
        simp only [driver, AwsDriver.driver, AwsDriver.contextVars, DocToken.name, List.foldl,
          HashMap.get?_insert]
        rfl
  · rename_i hkey
    exact Std.ExtTreeMap.getElem?_eq_none fun hmem => hkey (mem_contextVars.mp hmem)

/-- No variable has a name that begins with a brace. -/
theorem get?_contextVars_brace (cloud : CloudTarget) (enc : Enclave) (handle : Handle)
    (cs : List Char) : ((ds.driver cloud).contextVars enc handle)[String.ofList ('{' :: cs)]? = none := by
  refine Std.ExtTreeMap.getElem?_eq_none fun hmem => ?_
  have hkey := mem_contextVars.mp hmem
  have hbrace : ∀ key ∈ cloud.contextKeys, key.toList.head? ≠ some '{' := by
    cases cloud <;> decide
  exact hbrace _ hkey (by simp)

end CloudDrivers

/-! ## The pieces of such an input -/

theorem DocToken.name_ne_dot (token : DocToken) : '.' ∉ token.name.toList := by
  cases token <;> decide

theorem DocToken.name_ne_nil (token : DocToken) : token.name.toList ≠ [] := by
  cases token <;> decide

theorem DocToken.getLast_name (token : DocToken) :
    isWhitespace (token.name.toList.getLast token.name_ne_nil) = false := by
  cases token <;> decide

/-- White space around a text that begins and ends with none is trimmed. -/
theorem trim_append {left cs right : List Char} (hleft : ∀ c ∈ left, isWhitespace c = true)
    (hright : ∀ c ∈ right, isWhitespace c = true) (hcs : cs ≠ [])
    (hhead : isWhitespace (cs.head hcs) = false) (hlast : isWhitespace (cs.getLast hcs) = false) :
    trim (left ++ cs ++ right) = cs := by
  rw [List.append_assoc, trim_blanks hleft hright]
  refine trim_of_ends (fun c hc => ?_) fun c hc => ?_
  · rw [List.head?_eq_some_head hcs] at hc
    rwa [← Option.some.inj hc]
  · rw [List.getLast?_eq_some_getLast hcs] at hc
    rwa [← Option.some.inj hc]

namespace Slot

variable (slot : Slot)

theorem blank_left : ∀ c ∈ slot.left, isWhitespace c = true :=
  fun c hc => slot.blank c (List.mem_append_left _ hc)

theorem blank_right : ∀ c ∈ slot.right, isWhitespace c = true :=
  fun c hc => slot.blank c (List.mem_append_right _ hc)

theorem mem_inner {c : Char} (hc : c ∈ slot.inner) :
    isWhitespace c = true ∨ c ∈ slot.token.name.toList := by
  rcases List.mem_append.mp hc with hc | hc
  · rcases List.mem_append.mp hc with hc | hc
    · exact .inl (slot.blank_left c hc)
    · exact .inr hc
  · exact .inl (slot.blank_right c hc)

/-- The text between the braces stands for the token. -/
theorem ofInner_inner : Token.ofInner slot.inner = .context slot.token.name := by
  have htrim : trim slot.inner = slot.token.name.toList := by
    refine trim_append slot.blank_left slot.blank_right slot.token.name_ne_nil ?_
      slot.token.getLast_name
    cases slot.token <;> decide
  have hdot : slot.token.name.toList.contains '.' = false := by
    simpa using slot.token.name_ne_dot
  simp only [Token.ofInner, htrim, hdot, Bool.false_eq_true, if_false, String.ofList_toList]

/-- One brace more, and it is a name with that brace. -/
theorem ofInner_brace :
    ∃ cs, Token.ofInner ('{' :: slot.inner) = .context (String.ofList ('{' :: cs)) := by
  have htrim : trim ('{' :: slot.inner) = '{' :: (slot.left ++ slot.token.name.toList) := by
    have hbrace : isWhitespace '{' = false := by decide
    have hne : slot.left ++ slot.token.name.toList ≠ [] := by simp [slot.token.name_ne_nil]
    refine trim_append (fun c hc => absurd hc List.not_mem_nil) slot.blank_right
      (List.cons_ne_nil _ _) hbrace ?_
    rw [List.getLast_cons hne, List.getLast_append_of_ne_nil hne slot.token.name_ne_nil]
    exact slot.token.getLast_name
  have hdot : ('{' :: (slot.left ++ slot.token.name.toList)).contains '.' = false := by
    rw [← Bool.not_eq_true, List.contains_iff_mem]
    rintro hmem
    rcases List.mem_cons.mp hmem with hc | hmem
    · exact absurd hc (by decide)
    · rcases List.mem_append.mp hmem with hc | hc
      · exact absurd (slot.blank_left _ hc) (by decide)
      · exact slot.token.name_ne_dot hc
  refine ⟨slot.left ++ slot.token.name.toList, ?_⟩
  simp only [Token.ofInner, htrim, hdot, Bool.false_eq_true, if_false]

/-- The braces that close the token are the first ones behind it. -/
theorem firstPair_inner (after : List Char) :
    FirstPair '}' (slot.inner ++ '}' :: '}' :: after) slot.inner after := by
  refine ⟨rfl, fun hinfix => ?_⟩
  have hnot : '}' ∉ slot.inner := by
    intro hmem
    rcases slot.mem_inner hmem with hc | hc
    · exact absurd hc (by decide)
    · revert hc
      cases slot.token <;> decide
  have hcount := hinfix.sublist.count_le '}'
  rw [List.count_append, List.count_eq_zero.mpr hnot] at hcount
  exact absurd hcount (by decide)

end Slot

section

variable {value : Token → Option String} {meaning : DocToken → String} {keys : List String}

/-- The token is known and no brace stands before it. -/
def Slot.Known (keys : List String) (slot : Slot) : Prop :=
  slot.token.name ∈ keys ∧ ¬ ['{'] <:+ slot.before

/-- What a table makes of the names: known ones have their meaning, none begins with a brace. -/
structure Tabled (value : Token → Option String) (meaning : DocToken → String)
    (keys : List String) : Prop where
  token : ∀ token : DocToken, value (.context token.name) =
    if token.name ∈ keys then some (meaning token) else none
  brace : ∀ cs, value (.context (String.ofList ('{' :: cs))) = none

/-- The pieces of an input: its texts and its tokens, filled in where they are known; where one is
not, braces are left. -/
theorem Tabled.exists_pieces (h : Tabled value meaning keys) {tail : List Char}
    (htail : ¬ ['{', '{'] <:+: tail) (slots : List Slot) :
    ∃ pieces, Pieces (slots.flatMap Slot.source ++ tail) pieces ∧
      ((∀ slot ∈ slots, slot.Known keys) → pieces.flatMap (Piece.resolved value) =
        slots.flatMap (fun slot => slot.before ++ (meaning slot.token).toList) ++ tail) ∧
      ((¬ ∀ slot ∈ slots, slot.Known keys) →
        ['{', '{'] <:+: pieces.flatMap (Piece.resolved value)) := by
  induction slots with
  | nil =>
    exact ⟨[.text tail], .unopened htail, fun _ => by simp [Piece.resolved],
      fun hnot => absurd (fun _ hslot => absurd hslot List.not_mem_nil) hnot⟩
  | cons slot slots ih =>
    obtain ⟨pieces, hpieces, hknown, hunknown⟩ := ih
    -- a token that is kept keeps its braces
    have hkept : ∀ before inner, value (Token.ofInner inner) = none → ['{', '{'] <:+:
        (Piece.text before :: .token inner :: pieces).flatMap (Piece.resolved value) := by
      intro before inner hnone
      refine ⟨before, inner ++ ['}', '}'] ++ pieces.flatMap (Piece.resolved value), ?_⟩
      simp [Piece.resolved, Piece.source, hnone]
    by_cases hbrace : ['{'] <:+ slot.before
    · obtain ⟨before, hbefore⟩ := hbrace
      have hopen : FirstPair '{' ((slot :: slots).flatMap Slot.source ++ tail) before
          ('{' :: (slot.inner ++ '}' :: '}' :: (slots.flatMap Slot.source ++ tail))) := by
        refine ⟨by simp [Slot.source, ← hbefore], ?_⟩
        rw [hbefore]
        exact slot.plain
      have hclose : FirstPair '}' ('{' :: (slot.inner ++ '}' :: '}' :: (slots.flatMap Slot.source ++
          tail))) ('{' :: slot.inner) (slots.flatMap Slot.source ++ tail) := by
        refine ⟨rfl, fun hinfix => ?_⟩
        rcases List.infix_cons_iff.mp hinfix with hpre | hinfix
        · exact absurd (List.cons_prefix_cons.mp hpre).1 (by decide)
        · exact (slot.firstPair_inner (slots.flatMap Slot.source ++ tail)).2 hinfix
      obtain ⟨cs, hcs⟩ := slot.ofInner_brace
      refine ⟨_, .token hopen hclose hpieces, fun hall => ?_, fun _ => hkept _ _ ?_⟩
      · exact absurd ⟨before, hbefore⟩ (hall slot (List.mem_cons_self ..)).2
      · rw [hcs]
        exact h.brace cs
    · have hopen : FirstPair '{' ((slot :: slots).flatMap Slot.source ++ tail) slot.before
          (slot.inner ++ '}' :: '}' :: (slots.flatMap Slot.source ++ tail)) := by
        refine ⟨by simp [Slot.source], fun hinfix => ?_⟩
        obtain ⟨front, back, hsplit⟩ := hinfix
        rcases List.eq_nil_or_concat back with rfl | ⟨back, c, rfl⟩
        · rw [List.append_nil, List.append_cons] at hsplit
          exact hbrace ⟨front, List.append_inj_left' hsplit rfl⟩
        · rw [List.concat_eq_append, ← List.append_assoc] at hsplit
          exact slot.plain ⟨front, back, List.append_inj_left' hsplit rfl⟩
      refine ⟨_, .token hopen (slot.firstPair_inner _) hpieces, fun hall => ?_, fun hnot => ?_⟩
      · obtain ⟨hslot, hslots⟩ := List.forall_mem_cons.mp hall
        simp only [List.flatMap_cons, Piece.resolved, slot.ofInner_inner, h.token,
          if_pos hslot.1, hknown hslots, List.append_assoc]
      · by_cases hkey : slot.token.name ∈ keys
        · have hrest := hunknown fun hslots => hnot (List.forall_mem_cons.mpr ⟨⟨hkey, hbrace⟩, hslots⟩)
          refine hrest.trans (List.IsSuffix.isInfix ?_)
          exact (List.suffix_append _ _).trans (List.suffix_append _ _)
        · refine hkept _ _ ?_
          rw [slot.ofInner_inner, h.token, if_neg hkey]

end

/-! ## When they resolve -/

/-- The value handed to Terraform is the text with the documented values, and no braces are left. -/
def DocInput.Resolves (input : DocInput) (ds : CloudDrivers) (cloud : CloudTarget) (enc : Enclave)
    (part : Partition) (handle : Handle) (s : EnclaveState) : Prop :=
  resolveTemplate (String.ofList input.source) s ((ds.driver cloud).contextVars enc handle) =
      String.ofList (input.filled (ds.documented cloud enc part handle)) ∧
    ¬ ['{', '{'] <:+: input.filled (ds.documented cloud enc part handle)

/-- **Documented tokens resolve** iff the driver knows each of them, no text before one ends with a
brace, and the text with the documented values has no two braces in a row. -/
theorem documented_resolves_iff (input : DocInput) (ds : CloudDrivers) (cloud : CloudTarget)
    (enc : Enclave) (part : Partition) (handle : Handle) (s : EnclaveState) :
    input.Resolves ds cloud enc part handle s ↔
      (∀ slot ∈ input.slots, slot.Known cloud.contextKeys) ∧
        ¬ ['{', '{'] <:+: input.filled (ds.documented cloud enc part handle) := by
  have htabled : Tabled (Token.value s.importHandles ((ds.driver cloud).contextVars enc handle))
      (ds.documented cloud enc part handle) cloud.contextKeys :=
    ⟨ds.get?_contextVars_token cloud enc part handle, ds.get?_contextVars_brace cloud enc handle⟩
  obtain ⟨pieces, hpieces, hknown, hunknown⟩ := htabled.exists_pieces input.plain input.slots
  have hresolved : resolveTemplate (String.ofList input.source) s
      ((ds.driver cloud).contextVars enc handle) = String.ofList (pieces.flatMap (Piece.resolved
        (Token.value s.importHandles ((ds.driver cloud).contextVars enc handle)))) := by
    obtain ⟨pieces', -, hunique, -, -, heq⟩ := resolveLoop_eq (String.ofList input.source) s
      ((ds.driver cloud).contextVars enc handle)
    rw [heq, hunique pieces (by rwa [String.toList_ofList])]
  refine and_congr_left fun hplain => ?_
  rw [hresolved]
  constructor
  · intro heq
    by_contra hnot
    have hbraces := hunknown hnot
    rw [String.ofList_injective heq] at hbraces
    exact hplain hbraces
  · intro hall
    exact congrArg String.ofList (hknown hall)

/-- An input that is the token for the region. -/
def regionInput : DocInput where
  slots := [⟨[], [' '], .region, [' '], by decide, List.all_eq_true.mp rfl⟩]
  tail := []
  plain := by decide

/-- **On the local driver a token stays as it is**, and its documented value is the empty text. -/
theorem region_kept_local :
    ∃ handle outputs, LocalDriver.provisionEnclave inputlessEnclave none = .ok ⟨handle, outputs⟩ ∧
      ∃ part ∈ inputlessEnclave.partitions,
        resolveTemplate (String.ofList regionInput.source) (.new inputlessEnclave)
          ((plainClouds.driver .local).contextVars inputlessEnclave handle) =
            "{{ nclav_region }}" ∧
        plainClouds.documented .local inputlessEnclave part handle .region = "" ∧
        ¬ regionInput.Resolves plainClouds .local inputlessEnclave part handle
          (.new inputlessEnclave) := by
  refine ⟨_, _, rfl, _, List.mem_cons_self .., by decide +kernel, rfl, fun hresolves => ?_⟩
  exact absurd hresolves.1 (by decide +kernel)

end Nclav
