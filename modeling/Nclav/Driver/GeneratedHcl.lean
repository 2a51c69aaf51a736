import Nclav.Domain.Types
import Nclav.Hcl.Body

/-!
# The generated HCL

The variables of a raw setup and the module of the other setup are texts that nclav puts together.
Values are escaped by two replacements; the source of a module is written in Rust's debug format.
-/

namespace Nclav

open Hcl (Escaper isSign readQuoted emit)

/-! ## Texts -/

/-- `str::replace` of a character. -/
def replaceChar (c : Char) (new s : String) : String :=
  String.ofList (s.toList.flatMap fun d => if d = c then new.toList else [d])

/-- Backslashes and double quotes escaped. -/
def hclEscape (value : String) : String := replaceChar '"' "\\\"" (replaceChar '\\' "\\\\" value)

/-- A single HCL string variable assignment. -/
def tfvar (key value : String) : String := key ++ (" = \"" ++ (hclEscape value ++ "\"\n"))

/-- What Rust's standard library knows of characters. -/
structure RustDebug : Type where
  /-- a grapheme extender, or not printable -/
  unprintable : Char → Bool
  ascii : ∀ c : Char, ' ' ≤ c → c ≤ '~' → unprintable c = false

/-- A character in the debug format of a string. -/
def RustDebug.debugChar (D : RustDebug) (c : Char) : List Char :=
  if c = '\x00' then ['\\', '0']
  else if c = '\t' then ['\\', 't']
  else if c = '\r' then ['\\', 'r']
  else if c = '\n' then ['\\', 'n']
  else if c = '"' then ['\\', '"']
  else if c = '\\' then ['\\', '\\']
  else if D.unprintable c = true then '\\' :: 'u' :: '{' :: (Nat.toDigits 16 c.toNat ++ ['}'])
  else [c]

/-- `{:?}` of a string. -/
def RustDebug.debugStr (D : RustDebug) (s : String) : String :=
  "\"" ++ (String.ofList (s.toList.flatMap D.debugChar) ++ "\"")

/-- The text of `nclav_context.auto.tfvars`, the keys sorted. -/
def writeTfvars (enclaveId partitionId : String) (resolvedInputs : HashMap String String) : String :=
  "# Generated by nclav — do not edit\n\n" ++
  ("# nclav metadata — always injected. Declare these as optional variables\n" ++
  ("# and apply via local.nclav_labels on all resources you create.\n" ++
  (tfvar "nclav_enclave" enclaveId ++
  (tfvar "nclav_partition" partitionId ++
  (if resolvedInputs.isEmpty then ""
   else "\n# Partition inputs (from inputs: in config.yml)\n" ++
     String.join (resolvedInputs.toList.map fun kv => tfvar kv.1 kv.2))))))

/-- The text of `nclav_module.tf`, the keys sorted. -/
def writeModuleTf (D : RustDebug) (source : String) (resolvedInputs : HashMap String String) :
    String :=
  "# Generated by nclav — do not edit\n" ++
  ("module \"nclav_partition\" \x7b\n" ++
  ("  source = " ++ (D.debugStr source ++ ("\n" ++
  ((if resolvedInputs.isEmpty then ""
    else "\n" ++ String.join (resolvedInputs.toList.map fun kv =>
      "  " ++ (kv.1 ++ (" = \"" ++ (hclEscape kv.2 ++ "\"\n"))))) ++
  "\x7d\n")))))

/-! ## Escapers -/

theorem template_ne {c : Char} (h : isSign c = true ∨ c = '{') :
    c = '$' ∨ c = '%' ∨ c = '{' := by
  rw [Hcl.isSign_iff, or_assoc] at h
  exact h

/-- The two replacements. -/
def tfvarEscaper : Escaper where
  escape c := if c = '\\' then ['\\', '\\'] else if c = '"' then ['\\', '"'] else [c]
  broken c := c = '\n'
  verbatim c hc := by
    rcases template_ne hc with rfl | rfl | rfl
    · decide
    · decide
    · decide
  head c := by
    by_cases hbackslash : c = '\\'
    · exact ⟨'\\', ['\\'], if_pos hbackslash, .inr rfl⟩
    · by_cases hquote : c = '"'
      · exact ⟨'\\', ['"'], by rw [if_neg hbackslash, if_pos hquote], .inr rfl⟩
      · exact ⟨c, [], by rw [if_neg hbackslash, if_neg hquote], .inl rfl⟩
  read c rest hc := by
    by_cases hbackslash : c = '\\'
    · subst hbackslash
      rfl
    · by_cases hquote : c = '"'
      · subst hquote
        rfl
      · rw [if_neg hbackslash, if_neg hquote, List.singleton_append,
          Hcl.readQuoted_plain hc hquote hbackslash]
        simp only [decide_eq_true_eq]

theorem replaceChar_toList {c : Char} {new s : String} :
    (replaceChar c new s).toList = s.toList.flatMap fun d => if d = c then new.toList else [d] :=
  String.toList_ofList

theorem hclEscape_toList (value : String) :
    (hclEscape value).toList = tfvarEscaper.escapeAll value.toList := by
  rw [hclEscape, replaceChar_toList, replaceChar_toList, List.flatMap_assoc, Escaper.escapeAll]
  refine List.flatMap_congr fun c _ => ?_
  by_cases hbackslash : c = '\\'
  · subst hbackslash
    rfl
  · rw [if_neg hbackslash, List.flatMap_singleton]
    show (if c = '"' then _ else _) = if c = '\\' then _ else if c = '"' then _ else _
    rw [if_neg hbackslash]
    rfl

namespace RustDebug

variable {D : RustDebug} {c : Char}

/-- The characters that are written with a backslash and a letter. -/
def short : List Char := ['\t', '\r', '\n', '"', '\\']

/-- A character of another kind. -/
theorem debugChar_of (hnul : c ≠ '\x00') (hshort : c ∉ short) : D.debugChar c =
    if D.unprintable c = true then '\\' :: 'u' :: '{' :: (Nat.toDigits 16 c.toNat ++ ['}'])
    else [c] := by
  simp only [short, List.mem_cons, List.not_mem_nil, or_false, not_or] at hshort
  obtain ⟨htab, hreturn, hnewline, hquote, hbackslash⟩ := hshort
  rw [debugChar, if_neg hnul, if_neg htab, if_neg hreturn, if_neg hnewline, if_neg hquote,
    if_neg hbackslash]

/-- The debug format. What it writes for NUL and for an unprintable character is no escape of HCL. -/
def escaper (D : RustDebug) : Escaper where
  escape := D.debugChar
  broken c := c = '\x00' || (D.unprintable c && !(short.contains c))
  verbatim c hc := by
    have hprintable : D.unprintable c = false := by
      rcases template_ne hc with rfl | rfl | rfl
      · exact D.ascii _ (by decide) (by decide)
      · exact D.ascii _ (by decide) (by decide)
      · exact D.ascii _ (by decide) (by decide)
    have hother : c ≠ '\x00' ∧ c ∉ short := by
      rcases template_ne hc with rfl | rfl | rfl
      · decide
      · decide
      · decide
    rw [debugChar_of hother.1 hother.2, hprintable, decide_eq_false hother.1]
    exact ⟨rfl, rfl⟩
  head c := by
    by_cases hnul : c = '\x00'
    · exact ⟨'\\', ['0'], by rw [hnul]; rfl, .inr rfl⟩
    · by_cases hshort : c ∈ short
      · simp only [short, List.mem_cons, List.not_mem_nil, or_false] at hshort
        rcases hshort with rfl | rfl | rfl | rfl | rfl
        · exact ⟨_, _, rfl, .inr rfl⟩
        · exact ⟨_, _, rfl, .inr rfl⟩
        · exact ⟨_, _, rfl, .inr rfl⟩
        · exact ⟨_, _, rfl, .inr rfl⟩
        · exact ⟨_, _, rfl, .inr rfl⟩
      · rw [debugChar_of hnul hshort]
        split
        · exact ⟨_, _, rfl, .inr rfl⟩
        · exact ⟨_, _, rfl, .inl rfl⟩
  read c rest hc := by
    by_cases hnul : c = '\x00'
    · subst hnul
      rfl
    · by_cases hshort : c ∈ short
      · have hbroken : (decide (c = '\x00') || (D.unprintable c && !(short.contains c))) = false := by
          rw [decide_eq_false hnul, List.contains_iff_mem.mpr hshort, Bool.not_true, Bool.and_false]
          rfl
        rw [hbroken, if_neg Bool.false_ne_true]
        simp only [short, List.mem_cons, List.not_mem_nil, or_false] at hshort
        rcases hshort with rfl | rfl | rfl | rfl | rfl
        · rfl
        · rfl
        · rfl
        · rfl
        · rfl
      · have hplain : short.contains c = false := by
          rw [Bool.eq_false_iff, Ne, List.contains_iff_mem]
          exact hshort
        rw [debugChar_of hnul hshort, decide_eq_false hnul, hplain, Bool.not_false, Bool.and_true,
          Bool.false_or]
        rcases D.unprintable c with _ | _
        · simp only [short, List.mem_cons, List.not_mem_nil, or_false, not_or] at hshort
          exact (Hcl.readQuoted_plain hc hshort.2.2.2.1 hshort.2.2.2.2).trans
            (if_neg hshort.2.2.1)
        · rfl

end RustDebug

/-! ## The lines of the files -/

/-- What `tfvar` writes. -/
def tfvarEntry (key value : String) : Hcl.Entry := ⟨tfvarEscaper, key, value⟩

theorem tfvar_toList (key value : String) :
    (tfvar key value).toList = (tfvarEntry key value).line [] := by
  rw [tfvar, String.toList_append, String.toList_append, String.toList_append, hclEscape_toList]
  rfl

/-- The inputs, behind the first lines when there are any. -/
def inputLines (first : List Hcl.Line) (resolvedInputs : HashMap String String) : List Hcl.Line :=
  if resolvedInputs.isEmpty then []
  else first ++ resolvedInputs.toList.map fun kv => .entry (tfvarEntry kv.1 kv.2)

theorem inputLines_toList {first : List Hcl.Line} {head : String} {indent : List Char}
    {f : String × String → String} (resolvedInputs : HashMap String String)
    (hhead : head.toList = first.flatMap (Hcl.Line.text indent))
    (hf : ∀ kv, (f kv).toList = (tfvarEntry kv.1 kv.2).line indent) :
    (if resolvedInputs.isEmpty then ""
      else head ++ String.join (resolvedInputs.toList.map f)).toList =
      (inputLines first resolvedInputs).flatMap (Hcl.Line.text indent) := by
  rw [inputLines]
  split
  · rfl
  · rw [String.toList_append, String.toList_join, hhead, List.flatMap_append, List.flatMap_map,
      List.flatMap_map]
    exact congrArg (_ ++ ·) (List.flatMap_congr fun kv _ => hf kv)

def generatedLine : Hcl.Line :=
  .comment " Generated by nclav — do not edit".toList (by decide +kernel)

def metadataLine : Hcl.Line :=
  .comment " nclav metadata — always injected. Declare these as optional variables".toList
    (by decide +kernel)

def labelsLine : Hcl.Line :=
  .comment " and apply via local.nclav_labels on all resources you create.".toList
    (by decide +kernel)

def inputsLine : Hcl.Line :=
  .comment " Partition inputs (from inputs: in config.yml)".toList (by decide +kernel)

def tfvarsLines (enclaveId partitionId : String) (resolvedInputs : HashMap String String) :
    List Hcl.Line :=
  [generatedLine, .blank, metadataLine, labelsLine,
    .entry (tfvarEntry "nclav_enclave" enclaveId),
    .entry (tfvarEntry "nclav_partition" partitionId)] ++
  inputLines [.blank, inputsLine] resolvedInputs

def moduleLines (D : RustDebug) (source : String) (resolvedInputs : HashMap String String) :
    List Hcl.Line :=
  .entry ⟨D.escaper, "source", source⟩ :: inputLines [.blank] resolvedInputs

theorem writeTfvars_toList (enclaveId partitionId : String)
    (resolvedInputs : HashMap String String) :
    (writeTfvars enclaveId partitionId resolvedInputs).toList =
      (tfvarsLines enclaveId partitionId resolvedInputs).flatMap (Hcl.Line.text []) := by
  have hgenerated : "# Generated by nclav — do not edit\n\n".toList =
      generatedLine.text [] ++ Hcl.Line.blank.text [] := by decide +kernel
  have hmetadata :
      "# nclav metadata — always injected. Declare these as optional variables\n".toList =
        metadataLine.text [] := by decide +kernel
  have hlabels : "# and apply via local.nclav_labels on all resources you create.\n".toList =
      labelsLine.text [] := by decide +kernel
  have hinputs : "\n# Partition inputs (from inputs: in config.yml)\n".toList =
      [Hcl.Line.blank, inputsLine].flatMap (Hcl.Line.text []) := by decide +kernel
  have hlines : (tfvarsLines enclaveId partitionId resolvedInputs).flatMap (Hcl.Line.text []) =
      (generatedLine.text [] ++ Hcl.Line.blank.text []) ++ (metadataLine.text [] ++
        (labelsLine.text [] ++ ((tfvarEntry "nclav_enclave" enclaveId).line [] ++
          ((tfvarEntry "nclav_partition" partitionId).line [] ++
            (inputLines [.blank, inputsLine] resolvedInputs).flatMap (Hcl.Line.text []))))) := by
    rw [tfvarsLines, List.flatMap_append]
    generalize (inputLines [Hcl.Line.blank, inputsLine] resolvedInputs).flatMap (Hcl.Line.text []) =
      inputs
    generalize generatedLine = l₁, metadataLine = l₂, labelsLine = l₃
    simp only [List.flatMap_cons, List.flatMap_nil, List.append_nil, List.append_assoc]
    rfl
  rw [hlines]
  -- piece by piece
  refine (String.toList_append ..).trans (congrArg₂ (· ++ ·) hgenerated ?_)
  refine (String.toList_append ..).trans (congrArg₂ (· ++ ·) hmetadata ?_)
  refine (String.toList_append ..).trans (congrArg₂ (· ++ ·) hlabels ?_)
  refine (String.toList_append ..).trans (congrArg₂ (· ++ ·) (tfvar_toList ..) ?_)
  refine (String.toList_append ..).trans (congrArg₂ (· ++ ·) (tfvar_toList ..) ?_)
  exact inputLines_toList resolvedInputs hinputs fun _ => tfvar_toList ..

theorem writeModuleTf_toList (D : RustDebug) (source : String)
    (resolvedInputs : HashMap String String) :
    (writeModuleTf D source resolvedInputs).toList =
      '#' :: (" Generated by nclav — do not edit".toList ++ '\n' ::
        ("module".toList ++ ' ' :: '"' :: ("nclav_partition".toList ++ '"' :: ' ' :: '{' :: '\n' ::
          ((moduleLines D source resolvedInputs).flatMap (Hcl.Line.text [' ', ' ']) ++
            ['}', '\n'])))) := by
  have hgenerated : "# Generated by nclav — do not edit\n".toList =
      '#' :: (" Generated by nclav — do not edit".toList ++ ['\n']) := by decide +kernel
  have hmodule : "module \"nclav_partition\" \x7b\n".toList =
      "module".toList ++ ' ' :: '"' :: ("nclav_partition".toList ++ ['"', ' ', '{', '\n']) := by
    decide +kernel
  have hinputs : "\n".toList = [Hcl.Line.blank].flatMap (Hcl.Line.text [' ', ' ']) := rfl
  have hsource : "  source = ".toList =
      [' ', ' '] ++ ("source".toList ++ [' ', '=', ' ']) := by decide +kernel
  have hentry : ∀ key value, ("  " ++ (key ++ (" = \"" ++ (hclEscape value ++ "\"\n")))).toList =
      (tfvarEntry key value).line [' ', ' '] := by
    intro key value
    rw [String.toList_append]
    exact congrArg ([' ', ' '] ++ ·) (tfvar_toList key value)
  have hdebug : (D.debugStr source).toList =
      '"' :: (D.escaper.escapeAll source.toList ++ ['"']) := by
    refine (String.toList_append ..).trans (congrArg (['"'] ++ ·) ?_)
    exact (String.toList_append ..).trans (congrArg (· ++ ['"']) String.toList_ofList)
  have hlines : '#' :: (" Generated by nclav — do not edit".toList ++ '\n' :: ("module".toList ++
        ' ' :: '"' :: ("nclav_partition".toList ++ '"' :: ' ' :: '{' :: '\n' ::
          ((moduleLines D source resolvedInputs).flatMap (Hcl.Line.text [' ', ' ']) ++
            ['}', '\n'])))) =
      ('#' :: (" Generated by nclav — do not edit".toList ++ ['\n'])) ++ (("module".toList ++ ' ' ::
        '"' :: ("nclav_partition".toList ++ ['"', ' ', '{', '\n'])) ++
        (([' ', ' '] ++ ("source".toList ++ [' ', '=', ' '])) ++
          (('"' :: (D.escaper.escapeAll source.toList ++ ['"'])) ++ (['\n'] ++
            ((inputLines [.blank] resolvedInputs).flatMap (Hcl.Line.text [' ', ' ']) ++
              ['}', '\n']))))) := by
    have hline : (Hcl.Line.entry ⟨D.escaper, "source", source⟩).text [' ', ' '] =
        [' ', ' '] ++ ("source".toList ++ ([' ', '=', ' ', '"'] ++
          (D.escaper.escapeAll source.toList ++ ['"', '\n']))) := rfl
    rw [moduleLines, List.flatMap_cons, hline]
    generalize " Generated by nclav — do not edit".toList = comment, "module".toList = type,
      "nclav_partition".toList = label, "source".toList = key
    simp only [List.cons_append, List.nil_append, List.append_assoc]
  rw [hlines]
  refine (String.toList_append ..).trans (congrArg₂ (· ++ ·) hgenerated ?_)
  refine (String.toList_append ..).trans (congrArg₂ (· ++ ·) hmodule ?_)
  refine (String.toList_append ..).trans (congrArg₂ (· ++ ·) hsource ?_)
  refine (String.toList_append ..).trans (congrArg₂ (· ++ ·) hdebug ?_)
  refine (String.toList_append ..).trans (congrArg₂ (· ++ ·) rfl ?_)
  refine (String.toList_append ..).trans (congrArg₂ (· ++ ·) ?_ rfl)
  exact inputLines_toList resolvedInputs hinputs fun _ => hentry ..

end Nclav
