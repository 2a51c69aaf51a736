import Nclav.Hcl.Quoted

/-!
# Bodies of HCL

A body is a sequence of attributes and blocks, each on lines of its own, with comments and blank
lines between them. The expressions are quoted strings and the comments begin with `#`; nothing else
is read here.
-/

namespace Hcl

/-! ## Reading -/

/-- The characters of identifiers; only the ASCII ones are known here. -/
structure IdentChars : Type where
  start : Char → Bool
  cont : Char → Bool
  start_ascii : ∀ c : Char, c.toNat < 128 → start c = (c.isAlpha || c = '_')
  cont_ascii : ∀ c : Char, c.toNat < 128 → cont c = (c.isAlphanum || c = '_' || c = '-')

inductive Item : Type where
  | attr (name value : String)
  | block (type label : String) (body : List Item)

def skipBlanks (cs : List Char) : List Char := cs.dropWhile fun c => c = ' ' || c = '\t'

/-- The rest behind the end of the line. -/
def endOfLine (cs : List Char) : Option (List Char) :=
  match skipBlanks cs with
  | [] => some []
  | '\n' :: rest => some rest
  | _ => none

def readString : List Char → Option (String × List Char)
  | '"' :: rest => (readQuoted .text rest).map fun r => (String.ofList r.1, r.2)
  | _ => none

namespace IdentChars

variable (I : IdentChars)

def IsIdent (name : String) : Prop :=
  ∃ c cs, name.toList = c :: cs ∧ I.start c = true ∧ ∀ d ∈ cs, I.cont d = true

def readIdent : List Char → Option (String × List Char)
  | [] => none
  | c :: rest =>
    if I.start c = true then
      some (String.ofList (c :: rest.takeWhile I.cont), rest.dropWhile I.cont)
    else none

/-- An attribute or a block, the body of which is read by `body`. -/
def readItem (body : List Char → Option (List Item × List Char)) (cs : List Char) :
    Option (Item × List Char) := do
  let (name, rest) ← I.readIdent cs
  match skipBlanks rest with
  | '=' :: rest =>
    let (value, rest) ← readString (skipBlanks rest)
    let rest ← endOfLine rest
    return (.attr name value, rest)
  | rest =>
    let (label, rest) ← readString rest
    match skipBlanks rest with
    | '{' :: rest =>
      let rest ← endOfLine rest
      match ← body rest with
      | (items, '}' :: rest) =>
        let rest ← endOfLine rest
        return (.block name label items, rest)
      | _ => none
    | _ => none

/-- The items of a body, and what comes behind it: nothing, or the brace that closes it. -/
def readBody : (fuel : Nat) → List Char → Option (List Item × List Char)
  | 0, _ => none
  | fuel + 1, cs =>
    match skipBlanks cs with
    | [] => some ([], [])
    | '}' :: rest => some ([], '}' :: rest)
    | '\n' :: rest => readBody fuel rest
    | '#' :: rest => readBody fuel (rest.dropWhile (· ≠ '\n'))
    | cs => do
      let (item, rest) ← I.readItem (readBody fuel) cs
      let (items, rest) ← readBody fuel rest
      return (item :: items, rest)

/-- A whole file. -/
def readFile (text : String) : Option (List Item) :=
  match I.readBody (text.toList.length + 1) text.toList with
  | some (items, []) => some items
  | _ => none

end IdentChars

/-! ## Attributes -/

/-- An attribute that is written by an escaper. -/
structure Entry : Type where
  escaper : Escaper
  name : String
  value : String

namespace Entry

/-- Its line, behind an indentation. -/
def line (indent : List Char) (e : Entry) : List Char :=
  indent ++ (e.name.toList ++ (" = \"".toList ++ (e.escaper.escapeAll e.value.toList ++ "\"\n".toList)))

/-- What it is read as. -/
def read (e : Entry) : Option Item :=
  (e.escaper.value false e.value.toList).map fun w => .attr e.name (String.ofList w)

def Clean (e : Entry) : Prop := e.escaper.Clean e.value.toList

def item (e : Entry) : Item := .attr e.name e.value

end Entry

/-- A line between the items of a body. -/
inductive Line : Type where
  | blank
  | comment (text : List Char) (h : '\n' ∉ text)
  | entry (e : Entry)

namespace Line

def text (indent : List Char) : Line → List Char
  | blank => ['\n']
  | comment text _ => '#' :: (text ++ ['\n'])
  | entry e => e.line indent

/-- The steps in which it is read. -/
def fuel : Line → Nat
  | blank => 1
  | comment _ _ => 2
  | entry _ => 1

def entry? : Line → Option Entry
  | entry e => some e
  | _ => none

end Line

section

variable {I : IdentChars} {fuel : Nat} {rest : List Char} {name : String}

theorem readBody_nil : I.readBody (fuel + 1) [] = some ([], []) := rfl

theorem readBody_close : I.readBody (fuel + 1) ('}' :: rest) = some ([], '}' :: rest) := rfl

theorem readBody_newline : I.readBody (fuel + 1) ('\n' :: rest) = I.readBody fuel rest := rfl

theorem readBody_comment {text : List Char} (h : '\n' ∉ text) :
    I.readBody (fuel + 2) ('#' :: (text ++ '\n' :: rest)) = I.readBody fuel rest := by
  have hdrop : (text ++ '\n' :: rest).dropWhile (· ≠ '\n') = '\n' :: rest := by
    have hall : ∀ c ∈ text, decide (c ≠ '\n') = true := by
      intro c hc
      rw [decide_eq_true_iff]
      rintro rfl
      exact h hc
    rw [List.dropWhile_append_of_pos hall]
    rfl
  show I.readBody (fuel + 1) ((text ++ '\n' :: rest).dropWhile (· ≠ '\n')) = _
  rw [hdrop, readBody_newline]

/-- An identifier is read up to what cannot continue it. -/
theorem readIdent_append (h : I.IsIdent name) {d : Char} (hd : I.cont d = false) :
    I.readIdent (name.toList ++ d :: rest) = some (name, d :: rest) := by
  obtain ⟨c, cs, hname, hstart, hcont⟩ := h
  rw [hname, List.cons_append, IdentChars.readIdent, if_pos hstart,
    List.takeWhile_append_of_pos hcont, List.dropWhile_append_of_pos hcont,
    List.takeWhile_cons_of_neg (by rw [hd]; exact Bool.false_ne_true),
    List.dropWhile_cons_of_neg (by rw [hd]; exact Bool.false_ne_true), List.append_nil, ← hname,
    String.ofList_toList]

/-- What is an identifier begins an item. -/
theorem readBody_item (h : I.IsIdent name) {indent : List Char} (hindent : ∀ c ∈ indent, c = ' ') :
    I.readBody (fuel + 1) (indent ++ (name.toList ++ rest)) = do
      let (item, rest) ← I.readItem (I.readBody fuel) (name.toList ++ rest)
      let (items, rest) ← I.readBody fuel rest
      return (item :: items, rest) := by
  obtain ⟨c, cs, hname, hstart, -⟩ := h
  have hne : ∀ d : Char, d.toNat < 128 → (d.isAlpha || d = '_') = false → c ≠ d := by
    rintro d hd hnot rfl
    rw [I.start_ascii _ hd, hnot] at hstart
    cases hstart
  have hskip : skipBlanks (indent ++ (name.toList ++ rest)) = name.toList ++ rest := by
    rw [skipBlanks, List.dropWhile_append_of_pos fun d hd => by rw [hindent d hd]; rfl, hname,
      List.cons_append, List.dropWhile_cons_of_neg]
    simp [hne ' ' (by decide) (by decide), hne '\t' (by decide) (by decide)]
  rw [IdentChars.readBody, hskip, hname, List.cons_append]
  split
  · rename_i heq
    cases heq
  · rename_i heq
    exact absurd (List.cons.inj heq).1 (hne '}' (by decide) (by decide))
  · rename_i heq
    exact absurd (List.cons.inj heq).1 (hne '\n' (by decide) (by decide))
  · rename_i heq
    exact absurd (List.cons.inj heq).1 (hne '#' (by decide) (by decide))
  · rfl

/-- A line is read as its attribute. -/
theorem readBody_line {e : Entry} (h : I.IsIdent e.name) {indent : List Char}
    (hindent : ∀ c ∈ indent, c = ' ') :
    I.readBody (fuel + 1) (e.line indent ++ rest) =
      e.read.bind fun item => (I.readBody fuel rest).map fun r => (item :: r.1, r.2) := by
  have hspace : I.cont ' ' = false := by
    rw [I.cont_ascii ' ' (by decide)]
    decide
  have hstring : ∀ x, readString (skipBlanks (' ' :: '"' :: x)) =
      (readQuoted .text x).map fun r => (String.ofList r.1, r.2) := fun _ => rfl
  have hequals : ∀ x, skipBlanks (' ' :: '=' :: x) = '=' :: x := fun _ => rfl
  rw [Entry.line, List.append_assoc, List.append_assoc, readBody_item h hindent,
    IdentChars.readItem, show " = \"".toList = [' ', '=', ' ', '"'] from rfl,
    List.append_assoc, List.append_assoc, List.cons_append, readIdent_append h hspace]
  simp only [Option.bind_eq_bind, Option.bind_some, List.cons_append, List.nil_append, hequals,
    hstring, show "\"\n".toList = ['"', '\n'] from rfl, Escaper.read_escapeAll]
  rw [Entry.read]
  rcases e.escaper.value false e.value.toList with _ | w
  · rfl
  · rcases hrest : I.readBody fuel rest with _ | r
    · simp [endOfLine, skipBlanks, hrest]
    · simp [endOfLine, skipBlanks, hrest]

/-- Lines are read as the attributes among them. -/
theorem readBody_lines {indent : List Char} (hindent : ∀ c ∈ indent, c = ' ') {ls : List Line}
    (h : ∀ e ∈ ls.filterMap Line.entry?, I.IsIdent e.name) :
    I.readBody (fuel + (ls.map Line.fuel).sum) (ls.flatMap (Line.text indent) ++ rest) =
      ((ls.filterMap Line.entry?).mapM Entry.read).bind fun items =>
        (I.readBody fuel rest).map fun r => (items ++ r.1, r.2) := by
  induction ls with
  | nil =>
    show I.readBody fuel rest = (I.readBody fuel rest).map fun r => ([] ++ r.1, r.2)
    rw [show (fun r : List Item × List Char => ([] ++ r.1, r.2)) = id from rfl, Option.map_id, id]
  | cons l ls ih =>
    rw [List.map_cons, List.sum_cons, Nat.add_left_comm, Nat.add_comm l.fuel, List.flatMap_cons,
      List.append_assoc]
    cases l with
    | blank => exact readBody_newline.trans (ih h)
    | comment text hline =>
      rw [Line.text, List.cons_append, List.append_assoc]
      exact (readBody_comment hline).trans (ih h)
    | entry e =>
      obtain ⟨he, hrest⟩ := List.forall_mem_cons.mp h
      rw [Line.text, Line.fuel, readBody_line he hindent, ih hrest,
        show (Line.entry e :: ls).filterMap Line.entry? = e :: ls.filterMap Line.entry? from rfl,
        List.mapM_cons]
      rcases e.read with _ | item
      · rfl
      · rcases (ls.filterMap Line.entry?).mapM Entry.read with _ | items
        · rfl
        · rcases I.readBody fuel rest with _ | r
          · rfl
          · rfl

/-- No line is read in more steps than it has characters. -/
theorem sum_fuel_le {indent : List Char} {ls : List Line} :
    (ls.map Line.fuel).sum ≤ (ls.flatMap (Line.text indent)).length := by
  induction ls with
  | nil => exact Nat.le_refl _
  | cons l ls ih =>
    rw [List.map_cons, List.sum_cons, List.flatMap_cons, List.length_append]
    refine Nat.add_le_add ?_ ih
    cases l with
    | blank => exact Nat.le_refl _
    | comment text _ => simp [Line.fuel, Line.text]
    | entry e =>
      simp only [Line.fuel, Line.text, Entry.line, List.length_append,
        show "\"\n".toList.length = 2 from rfl]
      omega

/-- A file of lines. -/
theorem readFile_lines {text : String} {ls : List Line}
    (htext : text.toList = ls.flatMap (Line.text []))
    (h : ∀ e ∈ ls.filterMap Line.entry?, I.IsIdent e.name) :
    I.readFile text = (ls.filterMap Line.entry?).mapM Entry.read := by
  have hle : (ls.map Line.fuel).sum ≤ (ls.flatMap (Line.text [])).length := sum_fuel_le
  obtain ⟨k, hk⟩ := Nat.exists_eq_add_of_le hle
  have hnone : ∀ c ∈ ([] : List Char), c = ' ' := nofun
  have hread : I.readBody (k + 1 + (ls.map Line.fuel).sum) (ls.flatMap (Line.text []) ++ []) = _ :=
    readBody_lines hnone h
  rw [List.append_nil] at hread
  rw [IdentChars.readFile, htext, hk, show (ls.map Line.fuel).sum + k + 1 =
    k + 1 + (ls.map Line.fuel).sum by omega, hread, readBody_nil]
  rcases (ls.filterMap Line.entry?).mapM Entry.read with _ | items
  · rfl
  · simp only [Option.bind_some, Option.map_some, List.append_nil]

/-- A block is read by its body. -/
theorem readItem_block {type label : String} {text : List Char}
    {body : List Char → Option (List Item × List Char)} (htype : I.IsIdent type)
    (hlabel : ∀ x, readQuoted .text (label.toList ++ '"' :: x) = some (label.toList, x)) :
    I.readItem body
        (type.toList ++ ' ' :: '"' :: (label.toList ++ '"' :: ' ' :: '{' :: '\n' :: text)) =
      match body text with
      | some (items, '}' :: rest) =>
        (endOfLine rest).map fun rest => (.block type label items, rest)
      | _ => none := by
  have hspace : I.cont ' ' = false := by
    rw [I.cont_ascii ' ' (by decide)]
    decide
  have hquote : ∀ x, skipBlanks (' ' :: '"' :: x) = '"' :: x := fun _ => rfl
  have hbrace : ∀ x, skipBlanks (' ' :: '{' :: x) = '{' :: x := fun _ => rfl
  have hend : ∀ x, endOfLine ('\n' :: x) = some x := fun _ => rfl
  rw [IdentChars.readItem, readIdent_append htype hspace]
  simp only [Option.bind_eq_bind, Option.bind_some, hquote]
  split
  · rename_i heq
    exact absurd (List.cons.inj heq).1 (by decide)
  · simp only [readString, hlabel, Option.map_some, Option.bind_some, hbrace, hend,
      String.ofList_toList]
    rcases body text with _ | ⟨items, rest⟩
    · rfl
    · simp only [Option.bind_some]
      rcases rest with _ | ⟨c, rest⟩
      · rfl
      · by_cases hc : c = '}'
        · subst hc
          show (endOfLine rest).bind (fun rest => some (Item.block type label items, rest)) =
            (endOfLine rest).map fun rest => (Item.block type label items, rest)
          rcases endOfLine rest with _ | rest'
          · rfl
          · rfl
        · split
          · rename_i heq
            exact absurd (List.cons.inj (Prod.mk.inj heq).2).1 hc
          · split
            · rename_i heq
              exact absurd (List.cons.inj (Prod.mk.inj (Option.some.inj heq)).2).1 hc
            · rfl

/-- A file of one block behind a comment. -/
theorem readFile_block {text : String} {comment indent : List Char} {type label : String}
    {ls : List Line} (htype : I.IsIdent type)
    (hlabel : ∀ x, readQuoted .text (label.toList ++ '"' :: x) = some (label.toList, x))
    (hcomment : '\n' ∉ comment) (hindent : ∀ c ∈ indent, c = ' ')
    (htext : text.toList = '#' :: (comment ++ '\n' :: (type.toList ++ ' ' :: '"' :: (label.toList ++
      '"' :: ' ' :: '{' :: '\n' :: (ls.flatMap (Line.text indent) ++ ['}', '\n'])))))
    (h : ∀ e ∈ ls.filterMap Line.entry?, I.IsIdent e.name) :
    I.readFile text =
      ((ls.filterMap Line.entry?).mapM Entry.read).map fun items => [.block type label items] := by
  obtain ⟨k, hk⟩ : ∃ k, text.toList.length + 1 = k + 1 + (ls.map Line.fuel).sum + 1 + 2 := by
    have hle : (ls.map Line.fuel).sum ≤ (ls.flatMap (Line.text indent)).length := sum_fuel_le
    refine ⟨text.toList.length - 3 - (ls.map Line.fuel).sum, ?_⟩
    have hlength := congrArg List.length htext
    simp only [List.length_cons, List.length_append, List.length_nil] at hlength
    omega
  have hread : I.readBody (k + 1 + (ls.map Line.fuel).sum)
      (ls.flatMap (Line.text indent) ++ ['}', '\n']) = _ := readBody_lines hindent h
  have hstart : I.readBody (k + 1 + (ls.map Line.fuel).sum + 1) ([] ++ (type.toList ++ ' ' :: '"' ::
      (label.toList ++ '"' :: ' ' :: '{' :: '\n' ::
        (ls.flatMap (Line.text indent) ++ ['}', '\n'])))) = _ := readBody_item htype nofun
  rw [List.nil_append, readItem_block htype hlabel, hread, readBody_close] at hstart
  rw [IdentChars.readFile, hk, htext, readBody_comment hcomment, hstart]
  rcases (ls.filterMap Line.entry?).mapM Entry.read with _ | items
  · rfl
  · have hrest : I.readBody (k + 1 + (ls.map Line.fuel).sum) [] = some ([], []) := by
      rw [show k + 1 + (ls.map Line.fuel).sum = k + (ls.map Line.fuel).sum + 1 by omega]
      rfl
    simp [endOfLine, skipBlanks, hrest]

end

/-! ## Exactly these attributes -/

def Item.attrName : Item → Option String
  | .attr name _ => some name
  | .block _ _ _ => none

/-- These attributes and nothing else, each name once. -/
def Binds (items : List Item) (wanted : String → String → Prop) : Prop :=
  (items.filterMap Item.attrName).Nodup ∧
    ∀ item, item ∈ items ↔ ∃ name value, wanted name value ∧ item = .attr name value

section

variable {es : List Entry} {items : List Item}

theorem mapM_read_of_clean (h : ∀ e ∈ es, e.Clean) :
    es.mapM Entry.read = some (es.map Entry.item) := by
  induction es with
  | nil => rfl
  | cons e es ih =>
    have hread : e.read = some e.item := by
      rw [Entry.read, Escaper.value_eq_iff.mpr (h e (List.mem_cons_self ..)), Option.map_some,
        String.ofList_toList, Entry.item]
    rw [List.mapM_cons, hread, ih fun e' he' => h e' (List.mem_cons_of_mem _ he')]
    rfl

theorem of_mapM_read (h : es.mapM Entry.read = some items) :
    items.filterMap Item.attrName = es.map Entry.name ∧
    ∀ e ∈ es, ∃ w, e.escaper.value false e.value.toList = some w ∧
      .attr e.name (String.ofList w) ∈ items := by
  induction es generalizing items with
  | nil =>
    obtain rfl : [] = items := Option.some.inj h
    exact ⟨rfl, nofun⟩
  | cons e es ih =>
    rw [List.mapM_cons, Option.bind_eq_bind, Option.bind_eq_some_iff] at h
    obtain ⟨item, hread, h⟩ := h
    obtain ⟨items', hrest, h⟩ := Option.bind_eq_some_iff.mp h
    obtain rfl : item :: items' = items := Option.some.inj h
    obtain ⟨w, hw, rfl⟩ := Option.map_eq_some_iff.mp hread
    obtain ⟨hnames, hvalues⟩ := ih hrest
    refine ⟨congrArg (e.name :: ·) hnames, List.forall_mem_cons.mpr ⟨⟨w, hw, .head _⟩, ?_⟩⟩
    intro e' he'
    obtain ⟨w', hw', hmem⟩ := hvalues e' he'
    exact ⟨w', hw', .tail _ hmem⟩

/-- **What is written is read back** exactly iff the names differ and every value is clean. -/
theorem binds_iff : (∃ items, es.mapM Entry.read = some items ∧
      Binds items fun name value => ∃ e ∈ es, e.name = name ∧ e.value = value) ↔
    (es.map Entry.name).Nodup ∧ ∀ e ∈ es, e.Clean := by
  constructor
  · rintro ⟨items, hread, hnodup, hitems⟩
    obtain ⟨hnames, hvalues⟩ := of_mapM_read hread
    rw [hnames] at hnodup
    refine ⟨hnodup, fun e he => ?_⟩
    obtain ⟨w, hw, hmem⟩ := hvalues e he
    obtain ⟨name, value, ⟨e', he', rfl, rfl⟩, heq⟩ := (hitems _).mp hmem
    obtain ⟨hname, hvalue⟩ := Item.attr.inj heq
    obtain rfl := List.inj_on_of_nodup_map hnodup he he' hname
    rw [Entry.Clean, ← Escaper.value_eq_iff, hw, ← hvalue, String.toList_ofList]
  · rintro ⟨hnodup, hclean⟩
    refine ⟨_, mapM_read_of_clean hclean, ?_, fun item => ?_⟩
    · rw [(of_mapM_read (mapM_read_of_clean hclean)).1]
      exact hnodup
    · rw [List.mem_map]
      constructor
      · rintro ⟨e, he, rfl⟩
        exact ⟨e.name, e.value, ⟨e, he, rfl, rfl⟩, rfl⟩
      · rintro ⟨name, value, ⟨e, he, rfl, rfl⟩, rfl⟩
        exact ⟨e, he, rfl⟩

end

end Hcl
