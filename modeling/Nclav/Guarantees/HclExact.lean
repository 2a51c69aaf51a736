import Nclav.Driver.GeneratedHcl

/-!
# What Terraform is told

The generated files say what was resolved when they can be read back. A newline stays raw in a value
and a template stays a template, so neither is; nor is an input that has the name of one of nclav's
own.
-/

namespace Nclav

open Hcl (Binds Entry IdentChars Item)

/-- No newline and no start of a template. -/
def PlainValue (v : String) : Prop :=
  '\n' ∉ v.toList ∧ ¬ ['$', '{'] <:+: v.toList ∧ ¬ ['%', '{'] <:+: v.toList

/-- Nothing that Rust writes as a code or as NUL, and no start of a template. -/
def RustDebug.PlainSource (D : RustDebug) (s : String) : Prop :=
  (∀ c ∈ s.toList, c ≠ '\x00' ∧ (D.unprintable c = true → c ∈ RustDebug.short)) ∧
    ¬ ['$', '{'] <:+: s.toList ∧ ¬ ['%', '{'] <:+: s.toList

/-- `nclav_context.auto.tfvars` binds the two ids and the inputs, each once and to its string. -/
def TfvarsExact (I : IdentChars) (enclaveId partitionId : String)
    (resolvedInputs : HashMap String String) : Prop :=
  ∃ items, I.readFile (writeTfvars enclaveId partitionId resolvedInputs) = some items ∧
    Binds items fun key value => (key = "nclav_enclave" ∧ value = enclaveId) ∨
      (key = "nclav_partition" ∧ value = partitionId) ∨ resolvedInputs[key]? = some value

/-- `nclav_module.tf` is one module block with the source and the inputs. -/
def ModuleExact (I : IdentChars) (D : RustDebug) (source : String)
    (resolvedInputs : HashMap String String) : Prop :=
  ∃ items, I.readFile (writeModuleTf D source resolvedInputs) =
      some [.block "module" "nclav_partition" items] ∧
    Binds items fun key value => (key = "source" ∧ value = source) ∨
      resolvedInputs[key]? = some value

/-! ## Entries -/

theorem tfvarEntry_clean_iff {key value : String} :
    (tfvarEntry key value).Clean ↔ PlainValue value := by
  rw [Entry.Clean, Hcl.Escaper.Clean, PlainValue]
  refine and_congr_left fun _ => ?_
  constructor
  · intro h hmem
    have hbroken : tfvarEscaper.broken '\n' = true := rfl
    exact Bool.false_ne_true ((h _ hmem).symm.trans hbroken)
  · rintro h c hc
    refine decide_eq_false ?_
    rintro rfl
    exact h hc

theorem sourceEntry_clean_iff {D : RustDebug} {source : String} :
    (⟨D.escaper, "source", source⟩ : Entry).Clean ↔ D.PlainSource source := by
  rw [Entry.Clean, Hcl.Escaper.Clean, RustDebug.PlainSource]
  refine and_congr_left fun _ => forall₂_congr fun c _ => ?_
  show (decide (c = '\x00') || (D.unprintable c && !(RustDebug.short.contains c))) = false ↔ _
  rw [Bool.or_eq_false_iff, decide_eq_false_iff_not, Bool.and_eq_false_iff, Bool.not_eq_false',
    List.contains_iff_mem]
  refine and_congr_right fun _ => ?_
  rcases D.unprintable c with _ | _
  · exact iff_of_true (.inl rfl) (by rintro ⟨⟩)
  · exact ⟨fun h _ => h.resolve_left (by rintro ⟨⟩), fun h => .inr (h rfl)⟩

def inputEntries (resolvedInputs : HashMap String String) : List Entry :=
  resolvedInputs.toList.map fun kv => tfvarEntry kv.1 kv.2

section

variable {resolvedInputs : HashMap String String}

theorem filterMap_inputLines {first : List Hcl.Line}
    (hfirst : first.filterMap Hcl.Line.entry? = []) :
    (inputLines first resolvedInputs).filterMap Hcl.Line.entry? = inputEntries resolvedInputs := by
  rw [inputLines, inputEntries]
  split
  · rename_i hempty
    rw [← Std.ExtTreeMap.isEmpty_toList, List.isEmpty_iff] at hempty
    rw [hempty]
    rfl
  · rw [List.filterMap_append, hfirst, List.nil_append, List.filterMap_map]
    exact congrFun List.filterMap_eq_map _

theorem mem_inputEntries {key value : String} :
    (∃ e ∈ inputEntries resolvedInputs, e.name = key ∧ e.value = value) ↔
      resolvedInputs[key]? = some value := by
  rw [← Std.ExtTreeMap.mem_toList_iff_getElem?_eq_some]
  constructor
  · rintro ⟨e, he, rfl, rfl⟩
    obtain ⟨kv, hkv, rfl⟩ := List.mem_map.mp he
    exact hkv
  · intro h
    exact ⟨_, List.mem_map_of_mem h, rfl, rfl⟩

/-- What is read of entries before the inputs is exact iff it is clean and the names differ. -/
theorem exact_iff_plain (resolvedInputs : HashMap String String) (own : List Entry) :
    (∃ items, (own ++ inputEntries resolvedInputs).mapM Entry.read = some items ∧
      Binds items fun key value => (∃ e ∈ own, e.name = key ∧ e.value = value) ∨
        resolvedInputs[key]? = some value) ↔
    (own.map Entry.name).Nodup ∧ (∀ e ∈ own, e.Clean ∧ resolvedInputs[e.name]? = none) ∧
      ∀ (key : String) value, resolvedInputs[key]? = some value → PlainValue value := by
  have hwanted : (fun key value : String => (∃ e ∈ own, e.name = key ∧ e.value = value) ∨
      resolvedInputs[key]? = some value) =
      fun key value => ∃ e ∈ own ++ inputEntries resolvedInputs, e.name = key ∧ e.value = value := by
    funext key value
    rw [← mem_inputEntries]
    simp only [List.mem_append, or_and_right, exists_or]
  have hnames : (inputEntries resolvedInputs).map Entry.name = resolvedInputs.keys := by
    rw [← Std.ExtTreeMap.map_fst_toList_eq_keys, inputEntries, List.map_map]
    rfl
  have hclean : (∀ e ∈ inputEntries resolvedInputs, e.Clean) ↔
      ∀ (key : String) value, resolvedInputs[key]? = some value → PlainValue value := by
    constructor
    · intro h key value hvalue
      obtain ⟨e, he, rfl, rfl⟩ := mem_inputEntries.mpr hvalue
      obtain ⟨kv, -, rfl⟩ := List.mem_map.mp he
      exact tfvarEntry_clean_iff.mp (h _ he)
    · intro h e he
      have hvalue := mem_inputEntries.mp ⟨e, he, rfl, rfl⟩
      obtain ⟨kv, -, rfl⟩ := List.mem_map.mp he
      exact tfvarEntry_clean_iff.mpr (h _ _ hvalue)
  have hapart : List.Disjoint (own.map Entry.name) resolvedInputs.keys ↔
      ∀ e ∈ own, resolvedInputs[e.name]? = none := by
    rw [List.disjoint_left]
    simp only [List.forall_mem_map, Std.ExtTreeMap.mem_keys, Std.ExtTreeMap.mem_iff_isSome_getElem?,
      Option.not_isSome_iff_eq_none]
  rw [hwanted, Hcl.binds_iff, List.map_append, hnames, List.nodup_append', List.forall_mem_append,
    hclean, hapart]
  constructor
  · rintro ⟨⟨hnodup, -, hnone⟩, hown, hinputs⟩
    exact ⟨hnodup, fun e he => ⟨hown e he, hnone e he⟩, hinputs⟩
  · rintro ⟨hnodup, hown, hinputs⟩
    exact ⟨⟨hnodup, Std.ExtTreeMap.nodup_keys, fun e he => (hown e he).2⟩,
      fun e he => (hown e he).1, hinputs⟩

variable {I : IdentChars}

/-- A letter, and then letters, digits and underscores of ASCII. -/
def isAsciiIdent (name : String) : Bool :=
  match name.toList with
  | [] => false
  | c :: cs => c.toNat < 128 && c.isAlpha &&
    cs.all fun d => d.toNat < 128 && (d.isAlphanum || d = '_')

theorem isIdent_of_ascii {name : String} (h : isAsciiIdent name = true) : I.IsIdent name := by
  rw [isAsciiIdent] at h
  rcases hname : name.toList with _ | ⟨c, cs⟩
  · rw [hname] at h
    cases h
  · rw [hname] at h
    simp only [Bool.and_eq_true, decide_eq_true_iff, List.all_eq_true] at h
    obtain ⟨⟨hascii, halpha⟩, hcs⟩ := h
    refine ⟨c, cs, hname, ?_, fun d hd => ?_⟩
    · rw [I.start_ascii c hascii, halpha, Bool.true_or]
    · rw [I.cont_ascii d (hcs d hd).1, (hcs d hd).2, Bool.true_or]

theorem inputEntries_ident (hkeys : ∀ (key : String) value, resolvedInputs[key]? = some value →
    I.IsIdent key) {e : Entry} (he : e ∈ inputEntries resolvedInputs) : I.IsIdent e.name :=
  hkeys _ _ (mem_inputEntries.mp ⟨e, he, rfl, rfl⟩)

theorem tfvarsExact_iff (hkeys : ∀ (key : String) value, resolvedInputs[key]? = some value →
    I.IsIdent key) (enclaveId partitionId : String) :
    TfvarsExact I enclaveId partitionId resolvedInputs ↔
      PlainValue enclaveId ∧ PlainValue partitionId ∧
        resolvedInputs["nclav_enclave"]? = none ∧ resolvedInputs["nclav_partition"]? = none ∧
        ∀ (key : String) value, resolvedInputs[key]? = some value → PlainValue value := by
  have hentries : (tfvarsLines enclaveId partitionId resolvedInputs).filterMap Hcl.Line.entry? =
      [tfvarEntry "nclav_enclave" enclaveId, tfvarEntry "nclav_partition" partitionId] ++
        inputEntries resolvedInputs := by
    rw [tfvarsLines, List.filterMap_append, filterMap_inputLines rfl]
    rfl
  have hidents : ∀ e ∈ (tfvarsLines enclaveId partitionId resolvedInputs).filterMap
      Hcl.Line.entry?, I.IsIdent e.name := by
    rw [hentries]
    refine List.forall_mem_append.mpr ⟨?_, fun e => inputEntries_ident hkeys⟩
    have henclave : isAsciiIdent "nclav_enclave" = true := by decide +kernel
    have hpartition : isAsciiIdent "nclav_partition" = true := by decide +kernel
    exact List.forall_mem_cons.mpr ⟨isIdent_of_ascii henclave,
      List.forall_mem_cons.mpr ⟨isIdent_of_ascii hpartition, List.forall_mem_nil _⟩⟩
  have hplain := exact_iff_plain resolvedInputs
    [tfvarEntry "nclav_enclave" enclaveId, tfvarEntry "nclav_partition" partitionId]
  rw [← hentries, ← Hcl.readFile_lines (I := I)
    (writeTfvars_toList enclaveId partitionId resolvedInputs) hidents] at hplain
  have hwanted : (fun key value : String => (∃ e ∈ [tfvarEntry "nclav_enclave" enclaveId,
      tfvarEntry "nclav_partition" partitionId], e.name = key ∧ e.value = value) ∨
        resolvedInputs[key]? = some value) =
      fun key value => (key = "nclav_enclave" ∧ value = enclaveId) ∨
        (key = "nclav_partition" ∧ value = partitionId) ∨ resolvedInputs[key]? = some value := by
    funext key value
    simp only [List.exists_mem_cons_iff, List.not_mem_nil, false_and, exists_false, or_false,
      or_assoc, tfvarEntry, eq_comm]
  have hnames : ["nclav_enclave", "nclav_partition"].Nodup := by decide +kernel
  rw [hwanted] at hplain
  refine hplain.trans ?_
  rw [List.forall_mem_cons, List.forall_mem_cons, tfvarEntry_clean_iff, tfvarEntry_clean_iff]
  constructor
  · rintro ⟨-, ⟨⟨henclave, henclave'⟩, ⟨hpartition, hpartition'⟩, -⟩, hinputs⟩
    exact ⟨henclave, hpartition, henclave', hpartition', hinputs⟩
  · rintro ⟨henclave, hpartition, henclave', hpartition', hinputs⟩
    exact ⟨hnames, ⟨⟨henclave, henclave'⟩, ⟨hpartition, hpartition'⟩, List.forall_mem_nil _⟩,
      hinputs⟩

theorem moduleExact_iff (hkeys : ∀ (key : String) value, resolvedInputs[key]? = some value →
    I.IsIdent key) (D : RustDebug) (source : String) :
    ModuleExact I D source resolvedInputs ↔
      D.PlainSource source ∧ resolvedInputs["source"]? = none ∧
        ∀ (key : String) value, resolvedInputs[key]? = some value → PlainValue value := by
  have hentries : (moduleLines D source resolvedInputs).filterMap Hcl.Line.entry? =
      [⟨D.escaper, "source", source⟩] ++ inputEntries resolvedInputs := by
    rw [moduleLines, show ∀ e ls, (Hcl.Line.entry e :: ls).filterMap Hcl.Line.entry? =
      e :: ls.filterMap Hcl.Line.entry? from fun _ _ => rfl, filterMap_inputLines rfl]
    rfl
  have hidents : ∀ e ∈ (moduleLines D source resolvedInputs).filterMap Hcl.Line.entry?,
      I.IsIdent e.name := by
    rw [hentries]
    refine List.forall_mem_append.mpr ⟨?_, fun e => inputEntries_ident hkeys⟩
    have hsource : isAsciiIdent "source" = true := by decide +kernel
    exact List.forall_mem_cons.mpr ⟨isIdent_of_ascii hsource, List.forall_mem_nil _⟩
  have hlabel : ∀ x, Hcl.readQuoted .text ("nclav_partition".toList ++ '"' :: x) =
      some ("nclav_partition".toList, x) := by
    intro x
    have hescape : tfvarEscaper.escapeAll "nclav_partition".toList = "nclav_partition".toList := by
      decide +kernel
    have hvalue : tfvarEscaper.value false "nclav_partition".toList =
        some "nclav_partition".toList := by decide +kernel
    rw [← hescape, Hcl.Escaper.read_escapeAll, hvalue, hescape]
    rfl
  have hindent : ∀ c ∈ [' ', ' '], c = ' ' :=
    List.forall_mem_cons.mpr ⟨rfl, List.forall_mem_singleton.mpr rfl⟩
  have hread := Hcl.readFile_block (I := I) (isIdent_of_ascii (by decide +kernel)) hlabel
    (by decide +kernel) hindent (writeModuleTf_toList D source resolvedInputs) hidents
  have hplain := exact_iff_plain resolvedInputs [⟨D.escaper, "source", source⟩]
  rw [← hentries] at hplain
  have hwanted : (fun key value : String => (∃ e ∈ [(⟨D.escaper, "source", source⟩ : Entry)],
      e.name = key ∧ e.value = value) ∨ resolvedInputs[key]? = some value) =
      fun key value => (key = "source" ∧ value = source) ∨ resolvedInputs[key]? = some value := by
    funext key value
    simp only [List.exists_mem_cons_iff, List.not_mem_nil, false_and, exists_false, or_false,
      eq_comm]
  have hnames : ["source"].Nodup := by decide +kernel
  have hblock : ModuleExact I D source resolvedInputs ↔ ∃ items,
      ((moduleLines D source resolvedInputs).filterMap Hcl.Line.entry?).mapM Entry.read =
        some items ∧ Binds items fun key value => (key = "source" ∧ value = source) ∨
          resolvedInputs[key]? = some value := by
    rw [ModuleExact, hread]
    refine exists_congr fun items => and_congr_left fun _ => ?_
    rcases ((moduleLines D source resolvedInputs).filterMap Hcl.Line.entry?).mapM Entry.read
      with _ | items'
    · exact iff_of_false (by rintro ⟨⟩) (by rintro ⟨⟩)
    · simp only [Option.map_some, Option.some.injEq, List.cons.injEq, Item.block.injEq, true_and,
        and_true]
  rw [hwanted] at hplain
  refine hblock.trans (hplain.trans ?_)
  rw [List.forall_mem_cons, sourceEntry_clean_iff]
  constructor
  · rintro ⟨-, ⟨⟨hsource, hsource'⟩, -⟩, hinputs⟩
    exact ⟨hsource, hsource', hinputs⟩
  · rintro ⟨hsource, hsource', hinputs⟩
    exact ⟨hnames, ⟨⟨hsource, hsource'⟩, List.forall_mem_nil _⟩, hinputs⟩

end

/-- **The generated HCL is exact** iff no value has a newline or the start of a template, no input has
the name of one of nclav's own, and the source has no character that Rust writes in its own way. -/
theorem generated_exact_iff (I : IdentChars) (D : RustDebug) (enclaveId partitionId source : String)
    (resolvedInputs : HashMap String String)
    (hkeys : ∀ (key : String) value, resolvedInputs[key]? = some value → I.IsIdent key) :
    (TfvarsExact I enclaveId partitionId resolvedInputs ↔
      PlainValue enclaveId ∧ PlainValue partitionId ∧
        resolvedInputs["nclav_enclave"]? = none ∧ resolvedInputs["nclav_partition"]? = none ∧
        ∀ (key : String) value, resolvedInputs[key]? = some value → PlainValue value) ∧
    (ModuleExact I D source resolvedInputs ↔
      D.PlainSource source ∧ resolvedInputs["source"]? = none ∧
        ∀ (key : String) value, resolvedInputs[key]? = some value → PlainValue value) :=
  ⟨tfvarsExact_iff hkeys enclaveId partitionId, moduleExact_iff hkeys D source⟩

/-! ### One input -/

/-- Identifiers of ASCII. -/
def asciiIdents : IdentChars where
  start c := c.isAlpha || c = '_'
  cont c := c.isAlphanum || c = '_' || c = '-'
  start_ascii _ _ := rfl
  cont_ascii _ _ := rfl

/-- Zero-width space and byte order mark are not printable. -/
def someDebug : RustDebug where
  unprintable c := c = '\u200b' || c = '\ufeff'
  ascii c _ hc := by
    rw [Bool.or_eq_false_iff, decide_eq_false_iff_not, decide_eq_false_iff_not]
    constructor
    · rintro rfl
      exact absurd hc (by decide)
    · rintro rfl
      exact absurd hc (by decide)

def oneInput (key value : String) : HashMap String String :=
  (∅ : HashMap String String).insert key value

theorem oneInput_get? {key value key' value' : String}
    (h : (oneInput key value)[key']? = some value') : key' = key ∧ value' = value := by
  rw [oneInput, HashMap.get?_insert] at h
  split at h
  · rename_i heq
    exact ⟨heq, (Option.some.inj h).symm⟩
  · cases h

/-- A path of Windows. -/
theorem generated_exact_path :
    TfvarsExact asciiIdents "e" "p" (oneInput "path" "C:\\Users\\\"a\"") ∧
      ModuleExact asciiIdents someDebug "git::https://h/m.git?ref=v1"
        (oneInput "path" "C:\\Users\\\"a\"") := by
  have hkeys : ∀ (key : String) value,
      (oneInput "path" "C:\\Users\\\"a\"")[key]? = some value → asciiIdents.IsIdent key := by
    intro key value h
    obtain ⟨rfl, -⟩ := oneInput_get? h
    exact isIdent_of_ascii (by decide +kernel)
  have hplain : ∀ (key : String) value,
      (oneInput "path" "C:\\Users\\\"a\"")[key]? = some value → PlainValue value := by
    intro key value h
    obtain ⟨-, rfl⟩ := oneInput_get? h
    exact ⟨by decide +kernel, by decide +kernel, by decide +kernel⟩
  have hsource : ∀ c ∈ "git::https://h/m.git?ref=v1".toList,
      c ≠ '\x00' ∧ (someDebug.unprintable c = true → c ∈ RustDebug.short) := by
    have hall : ("git::https://h/m.git?ref=v1".toList.all fun c =>
        c ≠ '\x00' ∧ (someDebug.unprintable c = true → c ∈ RustDebug.short)) = true := by
      decide +kernel
    intro c hc
    exact of_decide_eq_true (List.all_eq_true.mp hall c hc)
  have hexact := generated_exact_iff asciiIdents someDebug "e" "p" "git::https://h/m.git?ref=v1"
    (oneInput "path" "C:\\Users\\\"a\"") hkeys
  refine ⟨hexact.1.mpr ⟨⟨?_, ?_, ?_⟩, ⟨?_, ?_, ?_⟩, ?_, ?_, hplain⟩,
    hexact.2.mpr ⟨⟨hsource, ?_, ?_⟩, ?_, hplain⟩⟩
  all_goals decide +kernel

/-- **A value with a newline**, or with what starts a template, makes a file that does not say what
was resolved. -/
theorem newline_not_exact :
    ¬ TfvarsExact asciiIdents "e" "p" (oneInput "motd" "a\nb") ∧
    ¬ ModuleExact asciiIdents someDebug "m" (oneInput "motd" "$\x7bx\x7d") := by
  have hkeys : ∀ value (key : String) value', (oneInput "motd" value)[key]? = some value' →
      asciiIdents.IsIdent key := by
    intro value key value' h
    obtain ⟨rfl, -⟩ := oneInput_get? h
    exact isIdent_of_ascii (by decide +kernel)
  have hget : ∀ value, (oneInput "motd" value)["motd"]? = some value := by
    intro value
    rw [oneInput, HashMap.get?_insert, if_pos rfl]
  constructor
  · intro hexact
    have hplain := ((tfvarsExact_iff (hkeys _) _ _).mp hexact).2.2.2.2 _ _ (hget _)
    exact hplain.1 (by decide +kernel)
  · intro hexact
    have hplain := ((moduleExact_iff (hkeys _) _ _).mp hexact).2.2 _ _ (hget _)
    exact hplain.2.1 (by decide +kernel)

end Nclav
