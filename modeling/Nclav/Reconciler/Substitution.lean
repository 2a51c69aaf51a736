import Nclav.Reconciler.Template

/-!
# Substitution

`resolve_template` edits the text that it scans: it keeps the text so far with a byte index into it,
slices at indices that it computes, and moves the index past what it put in. A slice that does not
start and end between two characters of the text panics. What comes out is the template with each
of its tokens replaced or kept (`resolveLoop_eq`).
-/

namespace Nclav

/-! ## The loop over byte indices -/

/-- The bytes of a text in UTF-8. -/
def byteLen (cs : List Char) : Nat := (cs.map Char.utf8Size).sum

/-- The text left and right of a byte index; none where the index is not between two characters. -/
def splitBytes : List Char → Nat → Option (List Char × List Char)
  | cs, 0 => some ([], cs)
  | [], _ + 1 => none
  | c :: cs, i + 1 =>
    if c.utf8Size ≤ i + 1 then
      (splitBytes cs (i + 1 - c.utf8Size)).map fun r => (c :: r.1, r.2)
    else none

/-- `s[i..]` -/
def sliceFrom (s : List Char) (i : Nat) : Option (List Char) := (splitBytes s i).map (·.2)

/-- `s[..i]` -/
def sliceTo (s : List Char) (i : Nat) : Option (List Char) := (splitBytes s i).map (·.1)

/-- `s[i..j]` -/
def slice (s : List Char) (i j : Nat) : Option (List Char) :=
  if i ≤ j then (sliceFrom s i).bind (sliceTo · (j - i)) else none

/-- `str::find` of `dd`: the byte index of the first one. -/
def findPair (d : Char) : List Char → Option Nat
  | a :: b :: rest =>
    if a = d ∧ b = d then some 0
    else (findPair d (b :: rest)).map (a.utf8Size + ·)
  | _ => none

/-- How an iteration goes on: with a text and a search position, or with the text to return. -/
inductive Iteration : Type where
  | continue_ (result : List Char) (searchStart : Nat)
  | break_ (result : List Char)

/-- An iteration; none where a slice panics. -/
def resolveStep (value : Token → Option String) (result : List Char) (searchStart : Nat) :
    Option Iteration := do
  let rest ← sliceFrom result searchStart
  match findPair '{' rest with
  | none => return .break_ result
  | some start => do
    let absStart := searchStart + start
    let opened ← sliceFrom result absStart
    match findPair '}' opened with
    | none => return .break_ result
    | some end_ => do
      let absEnd := absStart + end_ + 2
      let inner ← slice result (absStart + 2) (absEnd - 2)
      match value (Token.ofInner inner) with
      | some val => do
        let before ← sliceTo result absStart
        let after ← sliceFrom result absEnd
        return .continue_ (before ++ val.toList ++ after) (absStart + byteLen val.toList)
      | none => return .continue_ result absEnd

/-- What the loop has come to after a number of iterations. -/
inductive LoopState : Type where
  | finished (result : List Char)
  | panicked
  | running (result : List Char) (searchStart : Nat)
  deriving DecidableEq

def resolveLoop (value : Token → Option String) : Nat → List Char → Nat → LoopState
  | 0, result, searchStart => .running result searchStart
  | iterations + 1, result, searchStart =>
    match resolveStep value result searchStart with
    | none => .panicked
    | some (.break_ result) => .finished result
    | some (.continue_ result searchStart) => resolveLoop value iterations result searchStart

/-! ## The pieces of a template -/

/-- A piece of a template: a text, or a token with the text between its braces. -/
inductive Piece : Type where
  | text (cs : List Char)
  | token (inner : List Char)

/-- The piece as it stands in the template. -/
def Piece.source : Piece → List Char
  | .text cs => cs
  | .token inner => '{' :: '{' :: (inner ++ ['}', '}'])

/-- The piece with its value for it, if it has one. -/
def Piece.resolved (value : Token → Option String) : Piece → List Char
  | .text cs => cs
  | .token inner =>
    match value (Token.ofInner inner) with
    | some val => val.toList
    | none => (Piece.token inner).source

/-- The text starts with the first `dd` of the text behind `before`. -/
def FirstPair (d : Char) (cs before after : List Char) : Prop :=
  cs = before ++ d :: d :: after ∧ ¬ [d, d] <:+: before ++ [d]

/-- The pieces of a template from left to right: the first `{{` opens a token, which goes up to the
next `}}`; what is left when there is none is text. -/
inductive Pieces : List Char → List Piece → Prop
  | unopened {cs : List Char} (h : ¬ ['{', '{'] <:+: cs) : Pieces cs [.text cs]
  | unclosed {cs before opened : List Char} (hopen : FirstPair '{' cs before opened)
      (h : ¬ ['}', '}'] <:+: opened) : Pieces cs [.text cs]
  | token {cs before opened inner after : List Char} {pieces : List Piece}
      (hopen : FirstPair '{' cs before opened) (hclose : FirstPair '}' opened inner after)
      (hrest : Pieces after pieces) : Pieces cs (.text before :: .token inner :: pieces)

theorem Pieces.source {cs : List Char} {pieces : List Piece} (h : Pieces cs pieces) :
    pieces.flatMap Piece.source = cs := by
  induction h with
  | unopened | unclosed => simp [Piece.source]
  | token hopen hclose _ ih => simp [Piece.source, ih, hopen.1, hclose.1]

/-! ## The first pair -/

section

variable {d : Char} {cs : List Char}

theorem splitAtPair_eq_none (h : splitAtPair d cs = none) : ¬ [d, d] <:+: cs := by
  induction cs with
  | nil => simp
  | cons a rest ih =>
    cases rest with
    | nil => simp [List.infix_cons_iff]
    | cons b rest =>
      rw [splitAtPair] at h
      by_cases hd : a = d ∧ b = d
      · rw [if_pos hd] at h
        cases h
      · rw [if_neg hd, Option.map_eq_none_iff] at h
        rintro hinfix
        rcases List.infix_cons_iff.mp hinfix with hpre | hinfix
        · simp only [List.cons_prefix_cons] at hpre
          exact hd ⟨hpre.1.symm, hpre.2.1.symm⟩
        · exact ih h hinfix

theorem firstPair_of_splitAtPair {before after : List Char}
    (h : splitAtPair d cs = some (before, after)) : FirstPair d cs before after := by
  induction cs generalizing before with
  | nil => cases h
  | cons a rest ih =>
    cases rest with
    | nil => cases h
    | cons b rest =>
      rw [splitAtPair] at h
      by_cases hd : a = d ∧ b = d
      · rw [if_pos hd] at h
        cases h
        rw [hd.1, hd.2]
        exact ⟨rfl, by simp [List.infix_cons_iff]⟩
      · rw [if_neg hd] at h
        obtain ⟨⟨before', after'⟩, hrest, heq⟩ := Option.map_eq_some_iff.mp h
        cases heq
        obtain ⟨happend, hfirst⟩ := ih hrest
        refine ⟨congrArg (a :: ·) happend, fun hinfix => ?_⟩
        rcases List.infix_cons_iff.mp hinfix with hpre | hinfix
        · -- a pair at the front would be the two characters that are none
          have hnext : (before' ++ [d]).head? = some b := by
            cases before' with
            | nil => simpa using (congrArg List.head? happend).symm
            | cons c cs => simpa using (congrArg List.head? happend).symm
          obtain ⟨had, hpre⟩ := List.cons_prefix_cons.mp hpre
          obtain ⟨tail, htail⟩ := hpre
          have hhead : some d = some b := (congrArg List.head? htail).trans hnext
          exact hd ⟨had.symm, (Option.some.inj hhead).symm⟩
        · exact hfirst hinfix

/-- There is one first pair at most. -/
theorem FirstPair.unique {before after before' after' : List Char}
    (h : FirstPair d cs before after) (h' : FirstPair d cs before' after') :
    before = before' ∧ after = after' := by
  have hle : ∀ {before after before' after' : List Char}, FirstPair d cs before after →
      FirstPair d cs before' after' → before'.length ≤ before.length := by
    intro before after before' after' h h'
    by_contra hlt
    have hpre : before ++ [d, d] <+: cs := ⟨after, by rw [h.1]; simp⟩
    have hpre' : before' ++ [d] <+: cs := ⟨d :: after', by rw [h'.1]; simp⟩
    have hbegins := List.prefix_of_prefix_length_le hpre hpre' (by
      simp only [List.length_append, List.length_cons, List.length_nil]
      omega)
    exact h'.2 ((List.suffix_append before [d, d]).isInfix.trans hbegins.isInfix)
  have hlen := Nat.le_antisymm (hle h' h) (hle h h')
  obtain ⟨hbefore, hafter⟩ := List.append_inj (h.1.symm.trans h'.1) hlen
  exact ⟨hbefore, (List.cons.inj (List.cons.inj hafter).2).2⟩

theorem FirstPair.isInfix {before after : List Char} (h : FirstPair d cs before after) :
    [d, d] <:+: cs := ⟨before, after, by rw [h.1]; simp⟩

/-- So a template has its pieces in one way. -/
theorem Pieces.unique {pieces pieces' : List Piece} (h : Pieces cs pieces)
    (h' : Pieces cs pieces') : pieces = pieces' := by
  induction h generalizing pieces' with
  | unopened hnone =>
    cases h' with
    | unopened => rfl
    | unclosed => rfl
    | token hopen => exact absurd hopen.isInfix hnone
  | unclosed hopen hnone =>
    cases h' with
    | unopened => rfl
    | unclosed => rfl
    | token hopen' hclose =>
      obtain ⟨rfl, rfl⟩ := hopen.unique hopen'
      exact absurd hclose.isInfix hnone
  | token hopen hclose _ ih =>
    cases h' with
    | unopened hnone => exact absurd hopen.isInfix hnone
    | unclosed hopen' hnone =>
      obtain ⟨rfl, rfl⟩ := hopen.unique hopen'
      exact absurd hclose.isInfix hnone
    | token hopen' hclose' hrest =>
      obtain ⟨rfl, rfl⟩ := hopen.unique hopen'
      obtain ⟨rfl, rfl⟩ := hclose.unique hclose'
      rw [ih hrest]

theorem findPair_eq : findPair d cs = (splitAtPair d cs).map fun r => byteLen r.1 := by
  induction cs with
  | nil => rfl
  | cons a rest ih =>
    cases rest with
    | nil => rfl
    | cons b rest =>
      rw [findPair, splitAtPair]
      by_cases hd : a = d ∧ b = d
      · rw [if_pos hd, if_pos hd]
        rfl
      · rw [if_neg hd, if_neg hd, ih, Option.map_map, Option.map_map]
        rfl

end

/-! ## The slices -/

theorem byteLen_append (as bs : List Char) : byteLen (as ++ bs) = byteLen as + byteLen bs := by
  simp [byteLen]

/-- An index behind whole characters is between two. -/
theorem splitBytes_append (as bs : List Char) :
    splitBytes (as ++ bs) (byteLen as) = some (as, bs) := by
  induction as with
  | nil => simp [byteLen, splitBytes]
  | cons a as ih =>
    have hpos : 0 < a.utf8Size := a.utf8Size_pos
    obtain ⟨i, hi⟩ : ∃ i, byteLen (a :: as) = i + 1 := ⟨byteLen (a :: as) - 1, by
      simp only [byteLen, List.map_cons, List.sum_cons]
      omega⟩
    have hlen : i + 1 = a.utf8Size + byteLen as := by rw [← hi]; rfl
    rw [hi, List.cons_append, splitBytes, if_pos (by omega),
      show i + 1 - a.utf8Size = byteLen as by omega, ih]
    rfl

theorem sliceFrom_append {as bs : List Char} {i : Nat} (hi : i = byteLen as) :
    sliceFrom (as ++ bs) i = some bs := by
  rw [sliceFrom, hi, splitBytes_append]
  rfl

theorem sliceTo_append {as bs : List Char} {i : Nat} (hi : i = byteLen as) :
    sliceTo (as ++ bs) i = some as := by
  rw [sliceTo, hi, splitBytes_append]
  rfl

theorem slice_append {as bs cs : List Char} {i j : Nat} (hi : i = byteLen as)
    (hj : j = byteLen as + byteLen bs) : slice (as ++ (bs ++ cs)) i j = some bs := by
  rw [slice, if_pos (by omega), sliceFrom_append hi, Option.bind_some,
    sliceTo_append (by omega)]

/-! ## An iteration -/

section

variable {value : Token → Option String} {l rest : List Char}

theorem byteLen_braces (c : Char) (hc : c.utf8Size = 1) (cs : List Char) :
    byteLen (c :: c :: cs) = byteLen cs + 2 := by
  simp only [byteLen, List.map_cons, List.sum_cons, hc]
  omega

theorem resolveStep_of_unopened (h : splitAtPair '{' rest = none) :
    resolveStep value (l ++ rest) (byteLen l) = some (.break_ (l ++ rest)) := by
  rw [resolveStep, sliceFrom_append rfl, Option.bind_eq_bind, Option.bind_some, findPair_eq, h]
  rfl

variable {before opened inner after : List Char}

theorem findPair_opened : findPair '}' ('{' :: '{' :: opened) =
    (splitAtPair '}' opened).map fun r => byteLen r.1 + 2 := by
  have hbrace : ∀ c cs, findPair '}' ('{' :: c :: cs) = (findPair '}' (c :: cs)).map (1 + ·) :=
    fun c cs => by rw [findPair, if_neg fun h => absurd h.1 (by decide)]; rfl
  have hlast : findPair '}' ('{' :: opened) = (findPair '}' opened).map (1 + ·) := by
    cases opened with
    | nil => rfl
    | cons c cs => exact hbrace c cs
  rw [hbrace, hlast, findPair_eq, Option.map_map, Option.map_map]
  refine congrArg (Option.map · _) (funext fun r => ?_)
  simp only [Function.comp_apply]
  omega

/-- What an iteration finds of a token that the text right of the search position opens. -/
theorem resolveStep_of_opened (h : splitAtPair '{' rest = some (before, opened)) :
    resolveStep value (l ++ rest) (byteLen l) =
      match splitAtPair '}' opened with
      | none => some (.break_ (l ++ rest))
      | some (inner, after) =>
        match value (Token.ofInner inner) with
        | some val => some (.continue_ (l ++ before ++ val.toList ++ after)
            (byteLen (l ++ before ++ val.toList)))
        | none => some (.continue_ (l ++ rest)
            (byteLen (l ++ before ++ '{' :: '{' :: (inner ++ ['}', '}'])))) := by
  have hrest : rest = before ++ '{' :: '{' :: opened := (firstPair_of_splitAtPair h).1
  have hstart : byteLen l + byteLen before = byteLen (l ++ before) :=
    (byteLen_append _ _).symm
  have hopened : sliceFrom (l ++ rest) (byteLen (l ++ before)) =
      some ('{' :: '{' :: opened) := by
    rw [hrest, ← List.append_assoc]
    exact sliceFrom_append rfl
  rw [resolveStep, sliceFrom_append rfl, Option.bind_eq_bind, Option.bind_some, findPair_eq, h]
  simp only [Option.map_some, hstart, hopened, Option.bind_some, findPair_opened]
  rcases hclose : splitAtPair '}' opened with _ | ⟨inner, after⟩
  · rfl
  have hopen : opened = inner ++ '}' :: '}' :: after := (firstPair_of_splitAtPair hclose).1
  -- the text around the token, by its three indices
  have hall : l ++ rest = (l ++ before ++ ['{', '{']) ++ (inner ++ '}' :: '}' :: after) := by
    rw [hrest, hopen]
    simp
  have hall' : l ++ rest =
      (l ++ before ++ '{' :: '{' :: (inner ++ ['}', '}'])) ++ after := by
    rw [hrest, hopen]
    simp
  have htwo : byteLen ['{', '{'] = 2 := rfl
  have hlen : byteLen (l ++ before ++ '{' :: '{' :: (inner ++ ['}', '}'])) =
      byteLen (l ++ before) + (byteLen inner + 2) + 2 := by
    have hend : byteLen ['}', '}'] = 2 := rfl
    rw [byteLen_append _ (_ :: _), byteLen_braces '{' rfl, byteLen_append inner, hend]
    omega
  have hinner : slice (l ++ rest) (byteLen (l ++ before) + 2)
      (byteLen (l ++ before) + (byteLen inner + 2) + 2 - 2) = some inner := by
    rw [hall]
    refine slice_append ?_ ?_
    · rw [byteLen_append _ ['{', '{'], htwo]
    · rw [byteLen_append _ ['{', '{'], htwo]
      omega
  simp only [Option.map_some, hinner, Option.bind_some]
  rcases value (Token.ofInner inner) with _ | val
  · simp only [hlen]
    rfl
  · have hbefore : sliceTo (l ++ rest) (byteLen (l ++ before)) = some (l ++ before) := by
      rw [hrest, ← List.append_assoc]
      exact sliceTo_append rfl
    have hafter : sliceFrom (l ++ rest) (byteLen (l ++ before) + (byteLen inner + 2) + 2) =
        some after := by
      rw [hall']
      exact sliceFrom_append hlen.symm
    simp only [hbefore, hafter, Option.bind_some, byteLen_append _ val.toList]
    rfl

/-! ## The run -/

/-- The text left of the search position is finished, the text right of it is as it was: the pieces
of that are put behind it one by one. -/
theorem resolveLoop_append {iterations : Nat} (h : rest.length < iterations) :
    ∃ pieces, Pieces rest pieces ∧
      resolveLoop value iterations (l ++ rest) (byteLen l) =
        .finished (l ++ pieces.flatMap (Piece.resolved value)) ∧
      resolveFrom value iterations l rest = l ++ pieces.flatMap (Piece.resolved value) := by
  induction iterations generalizing l rest with
  | zero => exact absurd h (Nat.not_lt_zero _)
  | succ iterations ih =>
    rw [resolveLoop, resolveFrom]
    rcases hopen : splitAtPair '{' rest with _ | ⟨before, opened⟩
    · rw [resolveStep_of_unopened hopen]
      exact ⟨[.text rest], .unopened (splitAtPair_eq_none hopen), by simp [Piece.resolved]⟩
    · rw [resolveStep_of_opened hopen]
      have hfirst := firstPair_of_splitAtPair hopen
      rcases hclose : splitAtPair '}' opened with _ | ⟨inner, after⟩
      · exact ⟨[.text rest], .unclosed hfirst (splitAtPair_eq_none hclose), by
          simp [Piece.resolved, hclose]⟩
      · have hfirst' := firstPair_of_splitAtPair hclose
        have hlen : after.length < iterations := by
          have hopened := length_splitAtPair hopen
          have hafter := length_splitAtPair hclose
          simp only at hopened hafter
          omega
        simp only
        rcases hvalue : value (Token.ofInner inner) with _ | val
        · obtain ⟨pieces, hpieces, hloop, hfrom⟩ :=
            ih (l := l ++ before ++ '{' :: '{' :: (inner ++ ['}', '}'])) hlen
          refine ⟨_, .token hfirst hfirst' hpieces, ?_, ?_⟩
          · have hsame : l ++ rest =
                l ++ before ++ '{' :: '{' :: (inner ++ ['}', '}']) ++ after := by
              rw [hfirst.1, hfirst'.1]
              simp
            simp only [hsame, hloop]
            simp [Piece.resolved, Piece.source, hvalue]
          · simp only [hclose, hvalue, hfrom]
            simp [Piece.resolved, Piece.source, hvalue]
        · obtain ⟨pieces, hpieces, hloop, hfrom⟩ := ih (l := l ++ before ++ val.toList) hlen
          refine ⟨_, .token hfirst hfirst' hpieces, ?_, ?_⟩
          · simp only [hloop]
            simp [Piece.resolved, hvalue]
          · simp only [hclose, hvalue, hfrom]
            simp [Piece.resolved, hvalue]

end

/-- **What a loop returns.** For every template the loop ends, without a slice out of place, with
the template in which each token is replaced by its value or kept. `resolveTemplate` is that loop. -/
theorem resolveLoop_eq (template : String) (encState : EnclaveState)
    (contextVars : HashMap String String) :
    ∃ pieces, Pieces template.toList pieces ∧
      (∀ pieces', Pieces template.toList pieces' → pieces' = pieces) ∧
      pieces.flatMap Piece.source = template.toList ∧
      (∀ iterations, template.length < iterations →
        resolveLoop (Token.value encState.importHandles contextVars) iterations template.toList 0 =
          .finished (pieces.flatMap
            (Piece.resolved (Token.value encState.importHandles contextVars)))) ∧
      resolveTemplate template encState contextVars = String.ofList (pieces.flatMap
        (Piece.resolved (Token.value encState.importHandles contextVars))) := by
  have hrun : ∀ iterations, template.length < iterations → ∃ pieces, Pieces template.toList pieces ∧
      resolveLoop (Token.value encState.importHandles contextVars) iterations template.toList 0 =
        .finished (pieces.flatMap
          (Piece.resolved (Token.value encState.importHandles contextVars))) ∧
      resolveFrom (Token.value encState.importHandles contextVars) iterations [] template.toList =
        pieces.flatMap (Piece.resolved (Token.value encState.importHandles contextVars)) :=
    fun iterations h => resolveLoop_append (l := []) (by rwa [String.length_toList])
  obtain ⟨pieces, hpieces, -, hfrom⟩ := hrun (template.length + 1) (Nat.lt_succ_self _)
  refine ⟨pieces, hpieces, fun pieces' h => h.unique hpieces, hpieces.source, ?_, ?_⟩
  · intro iterations h
    obtain ⟨pieces', hpieces', hloop, -⟩ := hrun iterations h
    rw [hpieces.unique hpieces']
    exact hloop
  · rw [resolveTemplate, ← hfrom, resolveFrom_fuel _ template.length (template.length + 1)]
    · exact Nat.le_of_eq (String.length_toList ..)
    · rw [String.length_toList]
      exact Nat.le_succ _

/-- A value with braces is not scanned again, and a brace too many is the token's. -/
example : resolveLoop (fun t => if t = .context "t" then some "{{ t }}" else none) 3
    "é\x7b\x7b t \x7d\x7d\x7b\x7b\x7b t \x7d\x7d".toList 0 =
      .finished "é\x7b\x7b t \x7d\x7d\x7b\x7b\x7b t \x7d\x7d".toList := by decide +kernel

end Nclav
