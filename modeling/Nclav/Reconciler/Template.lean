import Nclav.Store.State

/-!
# Template substitution

An input value may hold tokens between double braces. `{{ alias.key }}` is replaced by an
output of the import handle under `alias`, `{{ token }}` by a context variable; a token
that resolves to nothing stays as it is. `resolve_template` is a loop over the text with a
search position that only moves right. It is written here on the text left of that position
and the text right of it, with a bound on the number of iterations that the length of the
text always meets (`resolveFrom_fuel`).
-/

namespace Nclav

open Serde (Value)

/-- `char::is_whitespace`: the Unicode property `White_Space`. -/
def isWhitespace (c : Char) : Bool :=
  let n := c.toNat
  (9 ≤ n && n ≤ 13) || n = 0x20 || n = 0x85 || n = 0xA0 || n = 0x1680 ||
    (0x2000 ≤ n && n ≤ 0x200A) || n = 0x2028 || n = 0x2029 || n = 0x202F || n = 0x205F ||
    n = 0x3000

/-- `str::trim`. -/
def trim (cs : List Char) : List Char :=
  ((cs.dropWhile isWhitespace).reverse.dropWhile isWhitespace).reverse

/-- White space around a text is trimmed. -/
theorem trim_blanks {left cs right : List Char} (hleft : ∀ c ∈ left, isWhitespace c = true)
    (hright : ∀ c ∈ right, isWhitespace c = true) : trim (left ++ (cs ++ right)) = trim cs := by
  have hblank : right.dropWhile isWhitespace = [] := List.dropWhile_eq_nil_iff.mpr hright
  rw [trim, trim, List.dropWhile_append_of_pos hleft, List.dropWhile_append]
  split
  · rename_i hempty
    rw [hblank, List.isEmpty_iff.mp hempty]
  · rw [List.reverse_append,
      List.dropWhile_append_of_pos fun c hc => hright c (List.mem_reverse.mp hc)]

/-- A text that begins and ends with no white space stays. -/
theorem trim_of_ends {cs : List Char} (hhead : ∀ c ∈ cs.head?, isWhitespace c = false)
    (hlast : ∀ c ∈ cs.getLast?, isWhitespace c = false) : trim cs = cs := by
  have hstop : ∀ xs : List Char, (∀ c ∈ xs.head?, isWhitespace c = false) →
      xs.dropWhile isWhitespace = xs := by
    intro xs hxs
    cases xs with
    | nil => rfl
    | cons x xs =>
      rw [List.dropWhile_cons_of_neg]
      rw [hxs x rfl]
      exact Bool.false_ne_true
  rw [trim, hstop cs hhead, hstop cs.reverse (by rwa [List.head?_reverse]), List.reverse_reverse]

/-- Split at the first `dd`: the text before it and the text after it. -/
def splitAtPair (d : Char) : List Char → Option (List Char × List Char)
  | a :: b :: rest =>
    if a = d ∧ b = d then some ([], rest)
    else (splitAtPair d (b :: rest)).map fun r => (a :: r.1, r.2)
  | _ => none

/-- What the text inside a pair of braces stands for. -/
inductive Token : Type where
  /-- `alias.key`: an output of an import -/
  | import_ (alias_ key : String)
  /-- no dot: a context variable -/
  | context (name : String)
  deriving DecidableEq

/-- `splitn(2, '.')` on the trimmed text. -/
def Token.ofInner (inner : List Char) : Token :=
  let inner := trim inner
  if inner.contains '.' then
    .import_ (String.ofList (inner.takeWhile (· ≠ '.')))
      (String.ofList ((inner.dropWhile (· ≠ '.')).drop 1))
  else .context (String.ofList inner)

/-- The output `key` of an import handle. -/
def handleOutput (h : Handle) (key : String) : Option String :=
  ((h.get? "outputs").bind (·.get? key)).bind (·.asStr)

/-- The value of a token. -/
def Token.value (importHandles : HashMap String Handle) (contextVars : HashMap String String) :
    Token → Option String
  | .import_ alias_ key => (importHandles[alias_]?).bind (handleOutput · key)
  | .context name => contextVars[name]?

/-- The loop of `resolve_template`: `done` is the text left of the search position, `rest`
the text right of it. -/
def resolveFrom (value : Token → Option String) : Nat → List Char → List Char → List Char
  | 0, done, rest => done ++ rest
  | fuel + 1, done, rest =>
    match splitAtPair '{' rest with
    | none => done ++ rest
    | some (before, opened) =>
      match splitAtPair '}' opened with
      | none => done ++ rest
      | some (inner, after) =>
        match value (Token.ofInner inner) with
        | some val => resolveFrom value fuel (done ++ before ++ val.toList) after
        | none =>
          resolveFrom value fuel (done ++ before ++ '{' :: '{' :: (inner ++ ['}', '}'])) after

def resolveTemplate (template : String) (encState : EnclaveState)
    (contextVars : HashMap String String) : String :=
  String.ofList
    (resolveFrom (Token.value encState.importHandles contextVars) template.length [] template.toList)

def resolveInputs (inputs : HashMap String String) (encState : EnclaveState)
    (contextVars : HashMap String String) : HashMap String String :=
  inputs.map fun _ v => resolveTemplate v encState contextVars

/-! ## The loop ends by itself -/

theorem length_splitAtPair {d : Char} {cs : List Char} {r : List Char × List Char}
    (h : splitAtPair d cs = some r) : r.1.length + r.2.length + 2 = cs.length := by
  induction cs generalizing r with
  | nil => cases h
  | cons a rest ih =>
    cases rest with
    | nil => cases h
    | cons b rest =>
      rw [splitAtPair] at h
      by_cases hd : a = d ∧ b = d
      · rw [if_pos hd] at h
        obtain rfl := Option.some.inj h
        simp
      · rw [if_neg hd] at h
        obtain ⟨r', hr', rfl⟩ := Option.map_eq_some_iff.mp h
        have hlen := ih hr'
        simp only [List.length_cons] at hlen ⊢
        omega

/-- **The bound is never met.** With at least as many iterations allowed as there is text
left, allowing more changes nothing. -/
theorem resolveFrom_fuel (value : Token → Option String) (fuel fuel' : Nat)
    (done rest : List Char) (h : rest.length ≤ fuel) (h' : rest.length ≤ fuel') :
    resolveFrom value fuel done rest = resolveFrom value fuel' done rest := by
  induction fuel generalizing fuel' done rest with
  | zero =>
    obtain rfl := List.eq_nil_of_length_eq_zero (Nat.le_zero.mp h)
    cases fuel' <;> rfl
  | succ fuel ih =>
    cases fuel' with
    | zero =>
      obtain rfl := List.eq_nil_of_length_eq_zero (Nat.le_zero.mp h')
      rfl
    | succ fuel' =>
      rw [resolveFrom, resolveFrom]
      rcases hopen : splitAtPair '{' rest with _ | ⟨before, opened⟩
      · rfl
      · simp only
        rcases hclose : splitAtPair '}' opened with _ | ⟨inner, after⟩
        · rfl
        · have hlen : after.length ≤ fuel ∧ after.length ≤ fuel' := by
            have hopened := length_splitAtPair hopen
            have hafter := length_splitAtPair hclose
            simp only at hopened hafter
            omega
          simp only
          rcases value (Token.ofInner inner) with _ | val
          · exact ih _ _ _ hlen.1 hlen.2
          · exact ih _ _ _ hlen.1 hlen.2

/-! ## The inputs of a partition -/

theorem get?_resolveInputs (inputs : HashMap String String) (encState : EnclaveState)
    (vars : HashMap String String) (k : String) :
    (resolveInputs inputs encState vars)[k]? =
      (inputs[k]?).map fun v => resolveTemplate v encState vars := by
  rw [resolveInputs, Std.ExtTreeMap.getElem?_map]

end Nclav
