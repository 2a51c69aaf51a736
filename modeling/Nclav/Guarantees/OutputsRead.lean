import Nclav.Guarantees.RunRecords

/-!
# Outputs that are read back

`terraform output -json` prints a document on one of its two streams, and what it has to say besides
on the other. The backend reads the document from the lines of both in the order in which they
arrived, and takes the values that are texts.
-/

namespace Nclav

open Serde

/-! ## Two streams -/

/-- The one stream may be through before the other. -/
theorem Arrives.append (outs errs : List String) : Arrives outs errs (errs ++ outs) := by
  induction errs with
  | nil =>
    induction outs with
    | nil => exact .nil
    | cons line outs ih => exact .out ih
  | cons line errs ih => exact .err ih

/-- It may come between two lines of the other. -/
theorem Arrives.between (before after errs : List String) :
    Arrives (before ++ after) errs (before ++ errs ++ after) := by
  induction before with
  | nil => exact .append after errs
  | cons line before ih => exact .out ih

/-! ## Blank lines -/

/-- The line is white space. -/
def BlankLine (line : String) : Prop := ∀ c ∈ line.toList, isWhitespace c = true

/-- The line is what JSON takes for white space. -/
def JsonBlank (line : String) : Prop := ∀ c ∈ line.toList, c = ' ' ∨ c = '\t' ∨ c = '\r'

instance (line : String) : Decidable (BlankLine line) :=
  inferInstanceAs (Decidable (∀ c ∈ line.toList, _))

instance (line : String) : Decidable (JsonBlank line) :=
  inferInstanceAs (Decidable (∀ c ∈ line.toList, _))

/-- The lines are one line at most, and blank ones. -/
def OneLine (outs : List String) : Prop :=
  ∀ before after, outs = before ++ after →
    (∀ line ∈ before, BlankLine line) ∨ ∀ line ∈ after, BlankLine line

/-- What the other stream printed is white space, and where the document has several lines it is
white space of JSON. -/
def Harmless (outs errs : List String) : Prop :=
  ∀ line ∈ errs, BlankLine line ∧ (JsonBlank line ∨ OneLine outs)

/-! ## Reading the document -/

/-- How a JSON reader deals with lines around and between those of a document: it skips blank lines,
takes no line in front of a document for a part of it, and knows no other white space. -/
structure ReadsLines (fromStr : String → Except String Value) (outs errs : List String)
    (doc : Value) : Prop where
  reads : fromStr (String.ofList (trim (mergedLog outs).toList)) = .ok doc
  skips : (∀ line ∈ errs, JsonBlank line) → ∀ lines, Arrives outs errs lines →
    fromStr (String.ofList (trim (mergedLog lines).toList)) = .ok doc
  front : (∃ line ∈ errs, ¬ BlankLine line) →
    ∀ doc', fromStr (String.ofList (trim (mergedLog (errs ++ outs)).toList)) ≠ .ok doc'
  between : (∃ line ∈ errs, ¬ JsonBlank line) → (∀ line ∈ errs, BlankLine line) →
    ∀ before after, outs = before ++ after → (∃ line ∈ before, ¬ BlankLine line) →
      (∃ line ∈ after, ¬ BlankLine line) →
      ∀ doc', fromStr (String.ofList (trim (mergedLog (before ++ errs ++ after)).toList)) ≠ .ok doc'

/-! ## White space around a document -/

theorem Arrives.mem {outs errs lines : List String} (h : Arrives outs errs lines) {line : String}
    (hline : line ∈ lines) : line ∈ outs ∨ line ∈ errs := by
  induction h with
  | nil => cases hline
  | out _ ih =>
    rcases List.mem_cons.mp hline with rfl | hline
    · exact .inl (List.mem_cons_self ..)
    · exact (ih hline).imp_left (List.mem_cons_of_mem _)
  | err _ ih =>
    rcases List.mem_cons.mp hline with rfl | hline
    · exact .inr (List.mem_cons_self ..)
    · exact (ih hline).imp_right (List.mem_cons_of_mem _)

/-- Around a line of the one stream are the lines around it and lines of the other. -/
theorem Arrives.split {before after errs lines : List String} {line : String}
    (h : Arrives (before ++ line :: after) errs lines) :
    ∃ before' after', lines = before' ++ line :: after' ∧
      (∀ l ∈ before', l ∈ before ∨ l ∈ errs) ∧ ∀ l ∈ after', l ∈ after ∨ l ∈ errs := by
  generalize houts : before ++ line :: after = outs at h
  induction h generalizing before with
  | nil => simp at houts
  | @out first outs errs lines hrest ih =>
    cases before with
    | nil =>
      obtain ⟨rfl, rfl⟩ := List.cons.inj houts
      exact ⟨[], lines, rfl, nofun, fun l hl => hrest.mem hl⟩
    | cons l before =>
      obtain ⟨rfl, rfl⟩ := List.cons.inj houts
      obtain ⟨before', after', rfl, hbefore, hafter⟩ := ih rfl
      refine ⟨l :: before', after', rfl, List.forall_mem_cons.mpr ⟨.inl (List.mem_cons_self ..), ?_⟩,
        hafter⟩
      exact fun x hx => (hbefore x hx).imp_left (List.mem_cons_of_mem _)
  | @err first outs errs lines _ ih =>
    obtain ⟨before', after', rfl, hbefore, hafter⟩ := ih houts
    refine ⟨first :: before', after', rfl,
      List.forall_mem_cons.mpr ⟨.inr (List.mem_cons_self ..), ?_⟩, ?_⟩
    · exact fun x hx => (hbefore x hx).imp_right (List.mem_cons_of_mem _)
    · exact fun x hx => (hafter x hx).imp_right (List.mem_cons_of_mem _)

theorem toList_mergedLog (lines : List String) :
    (mergedLog lines).toList = lines.flatMap fun line => line.toList ++ ['\n'] := by
  have hfold : ∀ (lines : List String) (log : String),
      (lines.foldl (fun log line => (log ++ line).push '\n') log).toList =
        log.toList ++ lines.flatMap fun line => line.toList ++ ['\n'] := by
    intro lines
    induction lines with
    | nil => simp
    | cons line lines ih => simp [ih]
  simpa [mergedLog] using hfold lines ""

theorem blank_mergedLog {lines : List String} (h : ∀ line ∈ lines, BlankLine line) :
    ∀ c ∈ (mergedLog lines).toList, isWhitespace c = true := by
  intro c hc
  rw [toList_mergedLog] at hc
  obtain ⟨line, hline, hc⟩ := List.mem_flatMap.mp hc
  rcases List.mem_append.mp hc with hc | hc
  · exact h line hline c hc
  · rw [List.mem_singleton.mp hc]
    decide

/-- Blank lines around a document of one line leave it as it is. -/
theorem OneLine.trim_eq {outs errs lines : List String} (hone : OneLine outs)
    (herrs : ∀ line ∈ errs, BlankLine line) (h : Arrives outs errs lines) :
    trim (mergedLog lines).toList = trim (mergedLog outs).toList := by
  have hblank : ∀ lines : List String, (∀ line ∈ lines, BlankLine line) →
      trim (mergedLog lines).toList = [] := by
    intro lines hlines
    rw [trim, List.dropWhile_eq_nil_iff.mpr (blank_mergedLog hlines)]
    rfl
  by_cases hall : ∀ line ∈ outs, BlankLine line
  · have hlines : ∀ line ∈ lines, BlankLine line :=
      fun line hline => (h.mem hline).elim (hall line) (herrs line)
    rw [hblank outs hall, hblank lines hlines]
  · simp only [not_forall] at hall
    obtain ⟨line, hmem, hline⟩ := hall
    obtain ⟨before, after, rfl⟩ := List.append_of_mem hmem
    have hbefore : ∀ l ∈ before, BlankLine l :=
      (hone before (line :: after) rfl).resolve_right fun hafter =>
        hline (hafter line (List.mem_cons_self ..))
    have hafter : ∀ l ∈ after, BlankLine l := by
      refine (hone (before ++ [line]) after (by simp)).resolve_left fun hfront => hline ?_
      exact hfront line (List.mem_append_right _ (List.mem_singleton_self _))
    -- the same line stands between blank ones in both
    have htrim : ∀ before after : List String, (∀ l ∈ before, BlankLine l) →
        (∀ l ∈ after, BlankLine l) → trim (mergedLog (before ++ line :: after)).toList =
          trim (line.toList ++ ['\n']) := by
      intro before after hbefore hafter
      rw [toList_mergedLog, List.flatMap_append, List.flatMap_cons, ← toList_mergedLog,
        ← toList_mergedLog]
      exact trim_blanks (blank_mergedLog hbefore) (blank_mergedLog hafter)
    obtain ⟨before', after', rfl, hbefore', hafter'⟩ := h.split
    rw [htrim before after hbefore hafter,
      htrim before' after' (fun l hl => (hbefore' l hl).elim (hbefore l) (herrs l))
        (fun l hl => (hafter' l hl).elim (hafter l) (herrs l))]

/-! ## The values -/

/-- The value of an output in the document. -/
def outputValue (doc : Value) (key : String) : Option Value :=
  (doc.get? key).bind (·.get? "value")

/-- The text of a value that is a text, a number or a truth value. -/
def scalarText : Value → Option String
  | .str s => some s
  | .num n => some (toString n)
  | .bool b => some (toString b)
  | _ => none

section

variable {fromStr : String → Except String Value} {outs errs : List String} {doc : Value}
  {declaredOutputs : List String}

/-- Where the lines are harmless the document is read whatever their order. -/
theorem ReadsLines.reads_of_harmless (h : ReadsLines fromStr outs errs doc)
    (hharmless : Harmless outs errs) {lines : List String} (harrives : Arrives outs errs lines) :
    fromStr (String.ofList (trim (mergedLog lines).toList)) = .ok doc := by
  by_cases hjson : ∀ line ∈ errs, JsonBlank line
  · exact h.skips hjson lines harrives
  · simp only [not_forall] at hjson
    obtain ⟨line, hline, hnot⟩ := hjson
    have hone := (hharmless line hline).2.resolve_left hnot
    rw [hone.trim_eq (fun line hline => (hharmless line hline).1) harrives]
    exact h.reads

/-- Where they are not, there is an order in which it is not. -/
theorem ReadsLines.exists_unread (h : ReadsLines fromStr outs errs doc)
    (hharmless : ¬ Harmless outs errs) : ∃ lines, Arrives outs errs lines ∧
      ∀ doc', fromStr (String.ofList (trim (mergedLog lines).toList)) ≠ .ok doc' := by
  by_cases hblank : ∀ line ∈ errs, BlankLine line
  · simp only [Harmless, not_forall] at hharmless
    obtain ⟨line, hline, hnot⟩ := hharmless
    have hnot := not_and.mp hnot (hblank line hline)
    rw [not_or] at hnot
    obtain ⟨hjson, hone⟩ := hnot
    simp only [OneLine, not_forall, not_or] at hone
    obtain ⟨before, after, rfl, ⟨b, hb, hbefore⟩, a, ha, hafter⟩ := hone
    exact ⟨_, .between before after errs,
      h.between ⟨line, hline, hjson⟩ hblank before after rfl ⟨b, hb, hbefore⟩ ⟨a, ha, hafter⟩⟩
  · simp only [not_forall] at hblank
    obtain ⟨line, hline, hnot⟩ := hblank
    exact ⟨_, .append outs errs, h.front ⟨line, hline, hnot⟩⟩

/-! ## What is returned -/

/-- Every declared output is present with a text, a number or a truth value. -/
def Present (doc : Value) (declaredOutputs : List String) : Prop :=
  ∀ key ∈ declaredOutputs, ∃ v text, outputValue doc key = some v ∧ scalarText v = some text

/-- The text of an output. -/
def outputText (doc : Value) (key : String) : String :=
  ((outputValue doc key).bind scalarText).getD ""

/-- The map has the declared keys, each with its text, and no others. -/
def Declared (doc : Value) (declaredOutputs : List String) (outputs : HashMap String String) :
    Prop :=
  ∀ key, outputs[key]? = if key ∈ declaredOutputs then some (outputText doc key) else none

/-- The loop over keys whose outputs are texts. -/
theorem foldlM_outputs (keys : List String) (outputs : HashMap String String)
    (h : ∀ key ∈ keys, ∃ s, outputValue doc key = some (.str s)) :
    ∃ outputs', keys.foldlM (fun outputs key =>
        match ((doc.get? key).bind (·.get? "value")).bind (·.asStr) with
        | some val => .ok (outputs.insert key val)
        | none => .error (.provisionFailed
            s!"declared output '{key}' missing from terraform output")) outputs =
          (.ok outputs' : Except DriverError (HashMap String String)) ∧
      ∀ key, outputs'[key]? = if key ∈ keys then some (outputText doc key) else outputs[key]? := by
  induction keys generalizing outputs with
  | nil => exact ⟨outputs, rfl, fun key => by simp⟩
  | cons first keys ih =>
    obtain ⟨⟨s, hs⟩, hkeys⟩ := List.forall_mem_cons.mp h
    obtain ⟨outputs', hrun, hget⟩ := ih (outputs.insert first s) hkeys
    refine ⟨outputs', ?_, fun key => ?_⟩
    · rw [List.foldlM_cons]
      rw [outputValue] at hs
      rw [hs]
      exact hrun
    · rw [hget, HashMap.get?_insert]
      by_cases hfirst : key = first
      · subst hfirst
        simp [outputText, hs, scalarText]
      · simp [hfirst]

/-- Where all values are texts, they are taken. -/
theorem extractOutputs_of_texts
    (h : ∀ key ∈ declaredOutputs, ∃ s, outputValue doc key = some (.str s)) :
    ∃ outputs, IacSite.extractOutputs declaredOutputs doc = .ok outputs ∧
      Declared doc declaredOutputs outputs := by
  obtain ⟨outputs, hrun, hget⟩ := foldlM_outputs declaredOutputs ∅ h
  exact ⟨outputs, hrun, fun key => by simpa using hget key⟩

/-- A value that is no text is missing. -/
theorem extractOutputs_of_other {key : String} (hkey : key ∈ declaredOutputs)
    (h : ∀ s, outputValue doc key ≠ some (.str s)) :
    ∃ e, IacSite.extractOutputs declaredOutputs doc = .error e := by
  have hnone : ((doc.get? key).bind (·.get? "value")).bind (·.asStr) = none := by
    rcases hvalue : outputValue doc key with _ | v
    · rw [outputValue] at hvalue
      rw [hvalue]
      rfl
    · rw [outputValue] at hvalue
      rw [hvalue]
      cases v with
      | str s => exact absurd hvalue (h s)
      | _ => rfl
  rw [IacSite.extractOutputs]
  generalize (∅ : HashMap String String) = outputs
  induction declaredOutputs generalizing outputs with
  | nil => cases hkey
  | cons first keys ih =>
    rw [List.foldlM_cons]
    rcases hfirst : ((doc.get? first).bind (·.get? "value")).bind (·.asStr) with _ | val
    · exact ⟨_, rfl⟩
    · rcases List.mem_cons.mp hkey with rfl | hkey
      · rw [hnone] at hfirst
        cases hfirst
      · exact ih hkey _

variable {site : IacSite}

/-- What `read_outputs` makes of these lines. -/
def readLines (site : IacSite) (fromStr : String → Except String Value) (lines : List String) :
    Except DriverError (HashMap String String) :=
  site.parseOutputs fromStr
    (outcome site.binary ["output", "-json", "-no-color"] (.ok (some 0, mergedLog lines)))

/-- The outputs are read back in every order of the lines. -/
def ReadBack (site : IacSite) (fromStr : String → Except String Value) (outs errs : List String)
    (doc : Value) : Prop :=
  ∀ lines, Arrives outs errs lines →
    ∃ outputs, readLines site fromStr lines = .ok outputs ∧
      Declared doc site.partition.declaredOutputs outputs

theorem readLines_of_ok {lines : List String}
    (h : fromStr (String.ofList (trim (mergedLog lines).toList)) = .ok doc) :
    readLines site fromStr lines = IacSite.extractOutputs site.partition.declaredOutputs doc := by
  simp only [readLines, outcome, IacSite.parseOutputs, Option.getD_some, ne_eq, not_true_eq_false,
    if_false, h]

theorem readLines_of_unread (site : IacSite) {lines : List String}
    (h : ∀ doc', fromStr (String.ofList (trim (mergedLog lines).toList)) ≠ .ok doc') :
    ∃ e, readLines site fromStr lines = .error e := by
  rcases hread : fromStr (String.ofList (trim (mergedLog lines).toList)) with e | doc'
  · refine ⟨.provisionFailed s!"parse terraform output: {e}", ?_⟩
    simp only [readLines, outcome, IacSite.parseOutputs, Option.getD_some, ne_eq,
      not_true_eq_false, if_false, hread]
  · exact absurd hread (h doc')

/-- **When declared outputs are read back.** Where all are there as texts, numbers or truth values:
in every order of the lines iff all are texts and what is printed besides is harmless white space.
Where one is absent, and the rest is harmless, there is an error. -/
theorem outputs_read_iff (h : ReadsLines fromStr outs errs doc) :
    (Present doc site.partition.declaredOutputs →
      (ReadBack site fromStr outs errs doc ↔
        (∀ key ∈ site.partition.declaredOutputs, ∃ s, outputValue doc key = some (.str s)) ∧
          Harmless outs errs)) ∧
      ((∃ key ∈ site.partition.declaredOutputs, outputValue doc key = none) →
        Harmless outs errs → ∀ lines, Arrives outs errs lines →
          ∃ e, readLines site fromStr lines = .error e) := by
  refine ⟨fun _ => ⟨fun hread => ?_, ?_⟩, ?_⟩
  · have hharmless : Harmless outs errs := by
      by_contra hnot
      obtain ⟨lines, harrives, hunread⟩ := h.exists_unread hnot
      obtain ⟨e, he⟩ := readLines_of_unread site hunread
      obtain ⟨outputs, hok, -⟩ := hread lines harrives
      rw [he] at hok
      cases hok
    refine ⟨fun key hkey => ?_, hharmless⟩
    by_contra hnot
    obtain ⟨e, he⟩ := extractOutputs_of_other hkey (not_exists.mp hnot)
    obtain ⟨outputs, hok, -⟩ := hread _ (.append outs errs)
    rw [readLines_of_ok (h.reads_of_harmless hharmless (.append outs errs)), he] at hok
    cases hok
  · rintro ⟨htexts, hharmless⟩ lines harrives
    rw [readLines_of_ok (h.reads_of_harmless hharmless harrives)]
    exact extractOutputs_of_texts htexts
  · rintro ⟨key, hkey, hnone⟩ hharmless lines harrives
    rw [readLines_of_ok (h.reads_of_harmless hharmless harrives)]
    refine extractOutputs_of_other hkey fun s hs => ?_
    rw [hnone] at hs
    cases hs

end

/-! ### The documented port -/

/-- What Terraform prints of one output. -/
def printedOutput (name value : String) : List String :=
  ["\x7b", "  \"" ++ name ++ "\": \x7b", "    \"value\": " ++ value, "  \x7d", "\x7d"]

/-- What is no white space. -/
def solid (text : List Char) : List Char := text.filter fun c => !isWhitespace c

theorem solid_append (a b : List Char) : solid (a ++ b) = solid a ++ solid b :=
  List.filter_append ..

theorem solid_of_blank {text : List Char} (h : ∀ c ∈ text, isWhitespace c = true) :
    solid text = [] :=
  List.filter_eq_nil_iff.mpr fun c hc => by simp [h c hc]

theorem solid_dropWhile (text : List Char) : solid (text.dropWhile isWhitespace) = solid text := by
  induction text with
  | nil => rfl
  | cons c text ih =>
    by_cases hc : isWhitespace c = true
    · rw [List.dropWhile_cons_of_pos hc, ih, solid, solid, List.filter_cons_of_neg (by simp [hc])]
    · rw [List.dropWhile_cons_of_neg hc]

theorem solid_trim (text : List Char) : solid (trim text) = solid text := by
  rw [trim, solid, List.filter_reverse, ← solid, solid_dropWhile, solid, List.filter_reverse,
    List.reverse_reverse, ← solid, solid_dropWhile]

theorem JsonBlank.blankLine {line : String} (h : JsonBlank line) : BlankLine line := by
  intro c hc
  rcases h c hc with rfl | rfl | rfl <;> decide

/-- Blank lines add nothing solid. -/
theorem Arrives.solid_eq {outs errs lines : List String} (h : Arrives outs errs lines)
    (herrs : ∀ line ∈ errs, BlankLine line) :
    solid (mergedLog lines).toList = solid (mergedLog outs).toList := by
  rw [toList_mergedLog, toList_mergedLog]
  induction h with
  | nil => rfl
  | out _ ih =>
    rw [List.flatMap_cons, solid_append, ih herrs, ← solid_append, List.flatMap_cons]
  | err _ ih =>
    obtain ⟨hline, herrs⟩ := List.forall_mem_cons.mp herrs
    rw [List.flatMap_cons, solid_append, solid_append, solid_of_blank hline, ih herrs]
    rfl

/-- A reader of that text, which skips white space. -/
def readOutput (name value : String) (doc : Value) (text : String) : Except String Value :=
  if solid text.toList = solid (mergedLog (printedOutput name value)).toList then .ok doc
  else .error "expected value"

def outputDoc (name : String) (value : Value) : Value :=
  .object [(name, .object [("value", value)])]

theorem readsLines_printedOutput (name value : String) (doc : Value) {errs : List String}
    (herrs : ∀ line ∈ errs, JsonBlank line) :
    ReadsLines (readOutput name value doc) (printedOutput name value) errs doc where
  reads := if_pos (by rw [String.toList_ofList, solid_trim])
  skips _ lines harrives := if_pos (by
    rw [String.toList_ofList, solid_trim,
      harrives.solid_eq fun line hline => (herrs line hline).blankLine])
  front := fun ⟨line, hline, hnot⟩ => absurd (herrs line hline).blankLine hnot
  between := fun ⟨line, hline, hnot⟩ => absurd (herrs line hline) hnot

/-- A port that is printed as a text is read back, whenever the blank lines on the other stream
arrive. -/
theorem outputs_read_port :
    ReadBack appliedSite (readOutput "port" "\"5432\"" (outputDoc "port" (.str "5432")))
      (printedOutput "port" "\"5432\"") ["", " \t"] (outputDoc "port" (.str "5432")) := by
  have hblank : ∀ line ∈ ["", " \t"], JsonBlank line := by
    refine List.forall_mem_cons.mpr ⟨nofun, List.forall_mem_singleton.mpr fun c hc => ?_⟩
    rcases List.mem_cons.mp hc with rfl | hc
    · exact .inl rfl
    · exact .inr (.inl (List.mem_singleton.mp hc))
  have hlines := readsLines_printedOutput "port" "\"5432\"" (outputDoc "port" (.str "5432")) hblank
  refine ((outputs_read_iff hlines).1 ?_).mpr
    ⟨?_, fun line hline => ⟨(hblank line hline).blankLine, .inl (hblank line hline)⟩⟩
  · intro key hkey
    obtain rfl := List.mem_singleton.mp hkey
    exact ⟨_, _, rfl, rfl⟩
  · intro key hkey
    obtain rfl := List.mem_singleton.mp hkey
    exact ⟨_, rfl⟩

/-- **A port that is a number is missing.** The document has it, nothing else is printed, and the
outputs are not read. -/
theorem port_missing :
    ReadsLines (readOutput "port" "5432" (outputDoc "port" (.num 5432)))
        (printedOutput "port" "5432") [] (outputDoc "port" (.num 5432)) ∧
      Present (outputDoc "port" (.num 5432)) appliedSite.partition.declaredOutputs ∧
      readLines appliedSite (readOutput "port" "5432" (outputDoc "port" (.num 5432)))
          (printedOutput "port" "5432") =
        .error (.provisionFailed "declared output 'port' missing from terraform output") ∧
      ¬ ReadBack appliedSite (readOutput "port" "5432" (outputDoc "port" (.num 5432)))
        (printedOutput "port" "5432") [] (outputDoc "port" (.num 5432)) := by
  have hmissing : readLines appliedSite
      (readOutput "port" "5432" (outputDoc "port" (.num 5432))) (printedOutput "port" "5432") =
        .error (.provisionFailed "declared output 'port' missing from terraform output") := by
    rw [readLines_of_ok (readsLines_printedOutput "port" "5432" _ (List.forall_mem_nil _)).reads]
    rfl
  refine ⟨readsLines_printedOutput "port" "5432" _ (List.forall_mem_nil _), ?_, hmissing, fun hread => ?_⟩
  · intro key hkey
    obtain rfl := List.mem_singleton.mp hkey
    exact ⟨_, _, rfl, rfl⟩
  · obtain ⟨outputs, hok, -⟩ := hread _ (.append _ [])
    rw [List.nil_append, hmissing] at hok
    cases hok

end Nclav
