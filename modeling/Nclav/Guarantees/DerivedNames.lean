import Nclav.Driver.Clouds
import Nclav.Text.Bytes

/-!
# Names derived from ids

Six functions derive the name of a cloud resource from an id. For each of them: exactly which ids
give a name that the cloud accepts. A short id is taken as it is, a long one is cut after a number
of bytes, and there is no name where that is within a character.
-/

namespace Nclav

open Text

/-! ## Slices -/

/-- A slice succeeds when it ends at a character. -/
theorem bytePrefix_eq_some {s t : String} {n : Nat} :
    bytePrefix s n = some t ↔ Cuts n s.toList t.toList := by
  rw [bytePrefix, Option.map_eq_some_iff]
  have hfound : ∀ cs, (s.toList.inits.find? fun cs => (String.ofList cs).utf8ByteSize = n) = some cs →
      Cuts n s.toList cs := by
    intro cs hcs
    have hsize : (String.ofList cs).utf8ByteSize = n := by simpa using List.find?_some hcs
    rw [utf8ByteSize_ofList] at hsize
    exact ⟨(List.mem_inits ..).mp (List.mem_of_find?_eq_some hcs), hsize⟩
  constructor
  · rintro ⟨cs, hcs, rfl⟩
    rw [String.toList_ofList]
    exact hfound cs hcs
  · intro h
    cases hcs : s.toList.inits.find? fun cs => (String.ofList cs).utf8ByteSize = n with
    | some cs => exact ⟨cs, rfl, by rw [(hfound cs hcs).unique h, String.ofList_toList]⟩
    | none =>
      refine absurd ?_ (List.find?_eq_none.mp hcs t.toList ((List.mem_inits ..).mpr h.1))
      rw [decide_eq_true_eq, utf8ByteSize_ofList]
      exact h.2

/-! ## Rules -/

/-- The id has a letter or a digit of ASCII. -/
def HasAlnum (id : String) : Prop := ∃ c ∈ id.toList, c.isAlphanum = true

/-- There is a name, and if the id has a letter or a digit the name obeys the rule. -/
def ValidName (id : String) (name : Option String) (rule : List Char → Prop) : Prop :=
  ∃ s, name = some s ∧ (HasAlnum id → rule s.toList)

theorem names_some {id s : String} {rule : List Char → Prop} :
    ValidName id (some s) rule ↔ (HasAlnum id → rule s.toList) :=
  ⟨fun ⟨_, hs, h⟩ => Option.some.inj hs ▸ h, fun h => ⟨s, rfl, h⟩⟩

def isLower (c : Char) : Bool := 'a' ≤ c && c ≤ 'z'

/-- The characters of a service account id and of a project id. -/
def isLabelChar (c : Char) : Bool := isLower c || c.isDigit || c = '-'

def isIdentityChar (c : Char) : Bool := c.isAlphanum || c = '-' || c = '_'

def isRoleChar (c : Char) : Bool := c.isAlphanum || ['+', '=', ',', '.', '@', '_', '-'].contains c

def isAliasChar (c : Char) : Bool := c.isAlphanum || c = '-' || c = '_' || c = '.'

def isAccountChar (c : Char) : Bool := c.isAlphanum || c = ' ' || c = '-'

/-- Some of these characters, but not too many. -/
structure TextRule (max : Nat) (allowed : Char → Bool) (cs : List Char) : Prop where
  nonempty : 1 ≤ cs.length
  length_le : cs.length ≤ max
  chars : ∀ c ∈ cs, allowed c = true

/-- The rule for service account ids and for project ids. -/
structure LabelRule (max : Nat) (cs : List Char) : Prop extends TextRule max isLabelChar cs where
  six_le : 6 ≤ cs.length
  head : ∀ c ∈ cs.head?, isLower c = true
  last : cs.getLast? ≠ some '-'

structure AliasRule (cs : List Char) : Prop extends TextRule 63 isAliasChar cs where
  head : ∀ c ∈ cs.head?, c.isAlphanum = true

/-- What is relied on of the hashes and of `char::is_alphanumeric`. -/
structure Lib.Documented (lib : Lib) : Prop where
  alphanumeric : ∀ c, IsAscii c → lib.isAlphanumeric c = c.isAlphanum
  hash_length : ∀ s, 6 ≤ (lib.defaultHash s).length
  hash_chars : ∀ s, ∀ c ∈ (lib.defaultHash s).toList, c.isDigit = true ∨ isLower c = true
  sha256_length : ∀ s, 8 ≤ (lib.sha256 s).length
  sha256_chars : ∀ s, ∀ c ∈ (lib.sha256 s).toList, c.isDigit = true ∨ isLower c = true

theorem isAlphanum_of_lower {c : Char} (h : c.isDigit = true ∨ isLower c = true) :
    c.isAlphanum = true := by
  rw [Char.isAlphanum, Char.isAlpha, Bool.or_eq_true, Bool.or_eq_true]
  refine h.symm.imp_left fun hlower => .inr ?_
  simpa [isLower, Char.isLower, Char.le_def] using hlower

/-! ## Names that are cut -/

/-- The condition for a name that is the id behind a fixed text, or for an id of more bytes than the
limit its first `n` bytes between fixed texts. -/
def CutOk (limit n : Nat) (allowed : Char → Bool) (id : String) : Prop :=
  if byteSize id.toList ≤ limit then HasAlnum id → ∀ c ∈ id.toList, allowed c = true
  else ∃ taken, Cuts n id.toList taken ∧ (HasAlnum id → ∀ c ∈ taken, allowed c = true)

theorem names_cut_iff {id : String} {name : Option String} {limit n max : Nat}
    {allowed : Char → Bool} (start pre post : List Char)
    (hshort : byteSize id.toList ≤ limit → name = some (String.ofList (start ++ id.toList)))
    (hlong : ¬ byteSize id.toList ≤ limit →
      name = (bytePrefix id n).map fun t => String.ofList (pre ++ t.toList ++ post))
    (hstart : TextRule (max - limit) allowed start) (hlimit : limit ≤ max)
    (hpre : ∀ c ∈ pre, allowed c = true) (hpost : TextRule (max - (pre.length + n)) allowed post)
    (hn : pre.length + n ≤ max) :
    ValidName id name (TextRule max allowed) ↔ CutOk limit n allowed id := by
  rw [CutOk]
  split
  · rename_i hle
    rw [hshort hle]
    have hchars := length_le_byteSize id.toList
    have hmax := hstart.length_le
    have hmin := hstart.nonempty
    constructor
    · rintro ⟨_, hs, hrule⟩ halnum c hc
      obtain rfl := Option.some.inj hs
      refine (hrule halnum).chars c ?_
      rw [String.toList_ofList]
      exact List.mem_append_right _ hc
    · refine fun h => ⟨_, rfl, fun halnum => ?_⟩
      rw [String.toList_ofList]
      exact ⟨by rw [List.length_append]; omega, by rw [List.length_append]; omega,
        List.forall_mem_append.mpr ⟨hstart.chars, h halnum⟩⟩
  · rename_i hle
    rw [hlong hle]
    have hmax := hpost.length_le
    have hmin := hpost.nonempty
    constructor
    · rintro ⟨_, hs, hrule⟩
      obtain ⟨t, ht, rfl⟩ := Option.map_eq_some_iff.mp hs
      refine ⟨t.toList, bytePrefix_eq_some.mp ht, fun halnum c hc => (hrule halnum).chars c ?_⟩
      rw [String.toList_ofList]
      exact List.mem_append_left _ (List.mem_append_right _ hc)
    · rintro ⟨taken, hcut, htaken⟩
      have ht : bytePrefix id n = some (String.ofList taken) :=
        bytePrefix_eq_some.mpr (by rwa [String.toList_ofList])
      refine ⟨_, by rw [ht]; rfl, fun halnum => ?_⟩
      have hchars := length_le_byteSize taken
      rw [hcut.2] at hchars
      rw [String.toList_ofList, String.toList_ofList]
      refine ⟨?_, ?_, List.forall_mem_append.mpr
        ⟨List.forall_mem_append.mpr ⟨hpre, htaken halnum⟩, hpost.chars⟩⟩
      · rw [List.length_append, List.length_append]
        omega
      · rw [List.length_append, List.length_append]
        omega

/-- The first digits of a hash. -/
theorem hash_rule (allowed : Char → Bool) {hash : String} {n : Nat} (hn : n ≤ hash.length)
    (hhash : ∀ c ∈ hash.toList, c.isDigit = true ∨ isLower c = true)
    (hallowed : ∀ c : Char, c.isAlphanum = true → allowed c = true) (hhyphen : allowed '-' = true) :
    TextRule (1 + n) allowed ('-' :: hash.toList.take n) where
  nonempty := Nat.succ_le_succ (Nat.zero_le _)
  length_le := by
    rw [List.length_cons, List.length_take, String.length_toList]
    omega
  chars := List.forall_mem_cons.mpr ⟨hhyphen,
    fun c hc => hallowed c (isAlphanum_of_lower (hhash c (List.mem_of_mem_take hc)))⟩

/-- An identity has its id for a name up to 54 bytes, and 19 bytes of it beyond. -/
theorem partitionMiName_names {d : AzureDriver} (hlib : d.lib.Documented) (id : String) :
    ValidName id (d.partitionMiName id) (TextRule 128 isIdentityChar) ↔ CutOk 54 19 isIdentityChar id := by
  have hsize : ("partition-" ++ id).utf8ByteSize = 10 + byteSize id.toList := by
    rw [String.utf8ByteSize_append, utf8ByteSize_eq id]
    rfl
  have hpost := hash_rule isIdentityChar (hlib.hash_length id) (hlib.hash_chars id)
    (fun c hc => by rw [isIdentityChar, hc]; rfl) rfl
  refine names_cut_iff "partition-".toList "pt-".toList
    ('-' :: (d.lib.defaultHash id).toList.take 6) (fun hle => ?_) (fun hle => ?_)
    ⟨by decide, by decide, List.all_eq_true.mp (by decide)⟩ (by decide)
    (List.all_eq_true.mp (by decide)) ⟨hpost.nonempty, hpost.length_le.trans (by decide), hpost.chars⟩
    (by decide)
  · have hlimit : ("partition-" ++ id).utf8ByteSize ≤ 64 := by omega
    refine (if_pos hlimit).trans (congrArg some ?_)
    rw [String.ofList_append, String.ofList_toList, String.ofList_toList]
    rfl
  · have hlimit : ¬ ("partition-" ++ id).utf8ByteSize ≤ 64 := by omega
    have hmin : min 19 id.utf8ByteSize = 19 := by
      rw [utf8ByteSize_eq]
      omega
    refine (if_neg hlimit).trans ?_
    rw [hmin]
    refine congrArg (Option.map · (bytePrefix id 19)) (funext fun t => ?_)
    rw [← String.toList_inj]
    simp
    rfl

/-- A role has its id in its name up to 48 bytes, and 39 bytes of it beyond. -/
theorem partitionRoleName_names {d : AwsDriver} (hlib : d.lib.Documented) (id : String) :
    ValidName id (d.partitionRoleName id) (TextRule 64 isRoleChar) ↔ CutOk 48 39 isRoleChar id := by
  have hsize : ("nclav-partition-" ++ id).utf8ByteSize = 16 + byteSize id.toList := by
    rw [String.utf8ByteSize_append, utf8ByteSize_eq id]
    rfl
  have hpost := hash_rule isRoleChar (hlib.sha256_length id) (hlib.sha256_chars id)
    (fun c hc => by rw [isRoleChar, hc]; rfl) rfl
  refine names_cut_iff "nclav-partition-".toList "nclav-partition-".toList
    ('-' :: (d.lib.sha256 id).toList.take 8) (fun hle => ?_) (fun hle => ?_)
    ⟨by decide, by decide, List.all_eq_true.mp (by decide)⟩ (by decide)
    (List.all_eq_true.mp (by decide)) ⟨hpost.nonempty, hpost.length_le.trans (by decide), hpost.chars⟩
    (by decide)
  · have hlimit : ("nclav-partition-" ++ id).utf8ByteSize ≤ 64 := by omega
    refine (if_pos hlimit).trans (congrArg some ?_)
    rw [String.ofList_append, String.ofList_toList, String.ofList_toList]
    rfl
  · have hlimit : ¬ ("nclav-partition-" ++ id).utf8ByteSize ≤ 64 := by omega
    refine (if_neg hlimit).trans ?_
    refine congrArg (Option.map · (bytePrefix id 39)) (funext fun t => ?_)
    rw [← String.toList_inj]
    simp
    rfl

/-! ## Service accounts -/

/-- The condition for a service account id: up to 18 bytes the id has only characters of such an id
and does not end with a hyphen, and beyond that its first 19 bytes are fewer characters. -/
def SaIdOk (id : String) : Prop :=
  if byteSize id.toList ≤ 18 then
    HasAlnum id → (∀ c ∈ id.toList, isLabelChar c = true) ∧ id.toList.getLast? ≠ some '-'
  else ∃ taken, Cuts 19 id.toList taken ∧ (HasAlnum id → ∃ c ∈ taken, ¬ IsAscii c)

/-- A text that does not end with a hyphen keeps its end. -/
theorem trim_hyphens {cs : List Char} (h : cs.getLast? ≠ some '-') :
    (cs.reverse.dropWhile (· = '-')).reverse = cs := by
  cases hcs : cs.reverse with
  | nil => rw [List.reverse_eq_nil_iff.mp hcs]; rfl
  | cons c rest =>
    have hc : c ≠ '-' := by
      rintro rfl
      rw [← List.head?_reverse, hcs] at h
      exact h rfl
    rw [List.dropWhile_cons_of_neg (by simpa using hc), ← hcs, List.reverse_reverse]

/-- What a character of a service account id is replaced by. -/
def saChar (c : Char) : Char := if c.isAlphanum || c = '-' then c.toLower else '-'

theorem isAscii_of_isAlphanum {c : Char} (h : c.isAlphanum = true) : IsAscii c := by
  simp only [Char.isAlphanum, Char.isAlpha, Char.isUpper, Char.isLower, Char.isDigit,
    Bool.or_eq_true, Bool.and_eq_true, decide_eq_true_eq, UInt32.le_iff_toNat_le] at h
  have hval : c.toNat = c.val.toNat := rfl
  rw [IsAscii, hval]
  have hz : ('z' : Char).val.toNat = 122 := rfl
  have hZ : ('Z' : Char).val.toNat = 90 := rfl
  have h9 : ('9' : Char).val.toNat = 57 := rfl
  omega

/-- A fact about the characters of ASCII. -/
theorem IsAscii.of_lt {P : Char → Prop} (hP : ∀ n < 128, P (Char.ofNat n)) {c : Char}
    (h : IsAscii c) : P c := by
  have hc := hP c.toNat h
  rwa [Char.ofNat_toNat] at hc

theorem isLabelChar_saChar (c : Char) : isLabelChar (saChar c) = true := by
  rw [saChar]
  split
  · rename_i hc
    rw [Bool.or_eq_true, decide_eq_true_eq] at hc
    obtain hc | rfl := hc
    · exact IsAscii.of_lt (P := fun c => c.isAlphanum = true → isLabelChar c.toLower = true)
        (by decide) (isAscii_of_isAlphanum hc) hc
    · decide
  · decide

theorem saChar_of_lower {c : Char} (h : c.isDigit = true ∨ isLower c = true) : saChar c ≠ '-' :=
  IsAscii.of_lt (P := fun c => c.isDigit = true ∨ isLower c = true → saChar c ≠ '-')
    (by decide) (isAscii_of_isAlphanum (isAlphanum_of_lower h)) h

theorem getLast?_cons_take {hash : List Char} {n : Nat} (hn : 0 < n) (hlen : n ≤ hash.length) :
    ∃ c ∈ hash, ('-' :: hash.take n).getLast? = some c := by
  have hne : hash.take n ≠ [] := by
    rw [← List.length_pos_iff, List.length_take]
    omega
  refine ⟨(hash.take n).getLast hne, List.mem_of_mem_take (List.getLast_mem hne), ?_⟩
  rw [List.getLast?_cons, List.getLast?_eq_getLast_of_ne_nil hne]
  rfl

theorem partitionSaId_long {d : GcpDriver} (hlib : d.lib.Documented) {id : String}
    (hlong : ¬ byteSize id.toList ≤ 18) :
    d.partitionSaId id = (bytePrefix id 19).map fun t => String.ofList
      ((['p', 't', '-'] ++ t.toList ++ '-' :: (d.lib.defaultHash id).toList.take 6).map saChar) := by
  have hlimit : ¬ ("partition-" ++ id).utf8ByteSize ≤ 28 := by
    rw [String.utf8ByteSize_append, utf8ByteSize_eq id]
    have hstart : "partition-".utf8ByteSize = 10 := rfl
    omega
  have hmin : min 19 id.utf8ByteSize = 19 := by
    rw [utf8ByteSize_eq]
    omega
  refine (if_neg hlimit).trans ?_
  rw [hmin]
  refine congrArg (Option.map · (bytePrefix id 19)) (funext fun t => ?_)
  have htext : ("pt-" ++ t ++ "-" ++
      String.ofList ((d.lib.defaultHash id).toList.take 6)).toList =
      ['p', 't', '-'] ++ t.toList ++ '-' :: (d.lib.defaultHash id).toList.take 6 := by
    have hhash : (String.ofList ((d.lib.defaultHash id).toList.take 6)).toList =
        (d.lib.defaultHash id).toList.take 6 := String.toList_ofList
    rw [String.toList_append, String.toList_append, String.toList_append, hhash,
      List.append_assoc _ "-".toList]
    rfl
  change String.ofList ((("pt-" ++ t ++ "-" ++ String.ofList
    ((d.lib.defaultHash id).toList.take 6)).toList.map saChar).reverse.dropWhile
      (· = '-')).reverse = _
  rw [htext]
  refine congrArg String.ofList (trim_hyphens ?_)
  obtain ⟨c, hc, hlast⟩ := getLast?_cons_take (by decide : 0 < 6) (hlib.hash_length id)
  rw [List.getLast?_map, List.getLast?_append, hlast]
  exact fun h => saChar_of_lower (hlib.hash_chars id c hc) (Option.some.inj h)

theorem partitionSaId_names_short {d : GcpDriver} {id : String} (hle : byteSize id.toList ≤ 18) :
    ValidName id (d.partitionSaId id) (LabelRule 28) ↔ (HasAlnum id →
      (∀ c ∈ id.toList, isLabelChar c = true) ∧ id.toList.getLast? ≠ some '-') := by
  have hlimit : ("partition-" ++ id).utf8ByteSize ≤ 28 := by
    rw [String.utf8ByteSize_append, utf8ByteSize_eq id]
    have hstart : "partition-".utf8ByteSize = 10 := rfl
    omega
  have hname : d.partitionSaId id = some ("partition-" ++ id) := if_pos hlimit
  have hchars := length_le_byteSize id.toList
  have hlast : HasAlnum id → ("partition-" ++ id).toList.getLast? = id.toList.getLast? := by
    rintro ⟨c, hc, -⟩
    rw [String.toList_append, List.getLast?_append,
      List.getLast?_eq_getLast_of_ne_nil (List.ne_nil_of_mem hc)]
    rfl
  rw [hname]
  constructor
  · rintro ⟨_, hs, hrule⟩ halnum
    obtain rfl := Option.some.inj hs
    refine ⟨fun c hc => (hrule halnum).chars c ?_, hlast halnum ▸ (hrule halnum).last⟩
    rw [String.toList_append]
    exact List.mem_append_right _ hc
  · refine fun h => ⟨_, rfl, fun halnum => ?_⟩
    have hlength : ("partition-" ++ id).toList.length = 10 + id.toList.length := by
      rw [String.toList_append, List.length_append]
      rfl
    obtain ⟨hallowed, hend⟩ := h halnum
    refine ⟨⟨by omega, by omega, ?_⟩, by omega, ?_, (hlast halnum).symm ▸ hend⟩
    · rw [String.toList_append]
      exact List.forall_mem_append.mpr ⟨List.all_eq_true.mp (by decide), hallowed⟩
    · rw [String.toList_append]
      rintro c ⟨⟩
      rfl

theorem partitionSaId_names_long {d : GcpDriver} (hlib : d.lib.Documented) {id : String}
    (hlong : ¬ byteSize id.toList ≤ 18) :
    ValidName id (d.partitionSaId id) (LabelRule 28) ↔
      ∃ taken, Cuts 19 id.toList taken ∧ (HasAlnum id → ∃ c ∈ taken, ¬ IsAscii c) := by
  rw [partitionSaId_long hlib hlong]
  have hlength : ∀ taken : List Char, ((['p', 't', '-'] ++ taken ++
      '-' :: (d.lib.defaultHash id).toList.take 6).map saChar).length = 10 + taken.length := by
    intro taken
    have hhash := hlib.hash_length id
    rw [List.length_map, List.length_append, List.length_append]
    simp only [List.length_cons, List.length_nil, List.length_take, String.length_toList]
    omega
  -- 19 bytes are at most 18 characters when one of them is not of ASCII
  have hfewer : ∀ {taken : List Char}, Cuts 19 id.toList taken →
      (10 + taken.length ≤ 28 ↔ ∃ c ∈ taken, ¬ IsAscii c) := by
    intro taken hcut
    have hle := length_le_byteSize taken
    have hall : ¬ byteSize taken = taken.length ↔ ¬ ∀ c ∈ taken, IsAscii c :=
      not_congr byteSize_eq_length
    rw [hcut.2] at hle hall
    simp only [not_forall, exists_prop] at hall
    rw [← hall]
    omega
  constructor
  · rintro ⟨_, hs, hrule⟩
    obtain ⟨t, ht, rfl⟩ := Option.map_eq_some_iff.mp hs
    have hcut := bytePrefix_eq_some.mp ht
    refine ⟨t.toList, hcut, fun halnum => (hfewer hcut).mp ?_⟩
    have hmax := (hrule halnum).length_le
    rwa [String.toList_ofList, hlength] at hmax
  · rintro ⟨taken, hcut, hshort⟩
    have ht : bytePrefix id 19 = some (String.ofList taken) :=
      bytePrefix_eq_some.mpr (by rwa [String.toList_ofList])
    refine ⟨_, by rw [ht]; rfl, fun halnum => ?_⟩
    have hmax := (hfewer hcut).mpr (hshort halnum)
    rw [String.toList_ofList, String.toList_ofList]
    refine ⟨⟨by rw [hlength]; omega, by rw [hlength]; exact hmax, ?_⟩, by rw [hlength]; omega,
      ?_, ?_⟩
    · intro c hc
      obtain ⟨c', -, rfl⟩ := List.mem_map.mp hc
      exact isLabelChar_saChar c'
    · rintro c ⟨⟩
      decide
    · obtain ⟨c, hc, hlast⟩ := getLast?_cons_take (by decide : 0 < 6) (hlib.hash_length id)
      rw [List.getLast?_map, List.getLast?_append, hlast]
      exact fun h => saChar_of_lower (hlib.hash_chars id c hc) (Option.some.inj h)

theorem partitionSaId_names {d : GcpDriver} (hlib : d.lib.Documented) (id : String) :
    ValidName id (d.partitionSaId id) (LabelRule 28) ↔ SaIdOk id := by
  rw [SaIdOk]
  split
  · rename_i hle
    exact partitionSaId_names_short hle
  · rename_i hlong
    exact partitionSaId_names_long hlib hlong

/-! ## Aliases -/

/-- The text that an id is made into, behind the configured prefix. -/
def rawName (pre : Option String) (id : String) : String :=
  match pre with
  | some pre => if pre.isEmpty then id else s!"{pre}-{id}"
  | none => id

theorem exists_alnum_rawName {id : String} (h : HasAlnum id) (pre : Option String) :
    ∃ c ∈ (rawName pre id).toList, c.isAlphanum = true := by
  obtain ⟨c, hc, halnum⟩ := h
  refine ⟨c, ?_, halnum⟩
  rw [rawName.eq_def]
  split
  · split
    · exact hc
    · rw [String.toList_append]
      exact List.mem_append_right _ hc
  · exact hc

/-- The condition for a subscription alias: of the characters that an alias may have, the first one
of the text is a letter or a digit. -/
def AliasOk (text : List Char) : Prop := ∀ c, text.find? isAliasChar = some c → c.isAlphanum = true

/-- A text in reverse begins with what every end of it ends with. -/
theorem head?_reverse_of_suffix {part out : List Char} (h : part <:+ out) (hne : part ≠ []) :
    part.reverse.head? = out.getLast? := by
  obtain ⟨before, rfl⟩ := h
  rw [List.head?_reverse, List.getLast?_append, List.getLast?_eq_getLast_of_ne_nil hne]
  rfl

namespace AzureDriver

/-- What the loop has made so far is a text for an alias, in reverse, with this first character. -/
structure Made (first : Char) (out : List Char) : Prop where
  length_le : out.length ≤ 63
  chars : ∀ c ∈ out, isAliasChar c = true
  first : out.getLast? = some first

theorem Made.sanitizeChar {first : Char} {out : List Char} (h : Made first out)
    (hlength : out.length ≠ 63) (c : Char) : Made first (sanitizeChar c out) := by
  have hle := h.length_le
  have hpush : ∀ d, isAliasChar d = true → Made first (d :: out) := fun d hd =>
    ⟨by rw [List.length_cons]; omega, List.forall_mem_cons.mpr ⟨hd, h.chars⟩, by
      rw [List.getLast?_cons, h.first]; rfl⟩
  rw [AzureDriver.sanitizeChar.eq_def]
  split
  · rename_i hc
    exact hpush c hc
  · split
    · exact h
    · exact h
    · exact hpush '-' rfl

theorem Made.sanitizeLoop {first : Char} : ∀ {cs out : List Char}, Made first out →
    Made first (sanitizeLoop cs out)
  | [], _, h => h
  | c :: cs, out, h => by
    rw [AzureDriver.sanitizeLoop]
    split
    · exact h
    · rename_i hlength
      exact Made.sanitizeLoop (h.sanitizeChar hlength c)

/-- The loop begins with the first character that an alias may have. -/
theorem sanitizeLoop_nil : (cs : List Char) →
    (∀ first, cs.find? isAliasChar = some first → Made first (sanitizeLoop cs [])) ∧
      (cs.find? isAliasChar = none → sanitizeLoop cs [] = [])
  | [] => ⟨nofun, fun _ => rfl⟩
  | c :: cs => by
    have hchar : AzureDriver.sanitizeChar c [] = if isAliasChar c then [c] else [] := rfl
    rw [sanitizeLoop, if_neg (by decide), hchar]
    by_cases hc : isAliasChar c = true
    · rw [List.find?_cons_of_pos hc, if_pos hc]
      refine ⟨fun first hfirst => ?_, nofun⟩
      obtain rfl := Option.some.inj hfirst
      exact Made.sanitizeLoop
        ⟨Nat.le_add_left 1 62, List.forall_mem_cons.mpr ⟨hc, List.forall_mem_nil _⟩, rfl⟩
    · rw [List.find?_cons_of_neg hc, if_neg hc]
      exact sanitizeLoop_nil cs

theorem subscriptionAlias_names (d : AzureDriver) (id : String) :
    ValidName id (some (d.subscriptionAlias id)) AliasRule ↔
      (HasAlnum id → AliasOk (rawName d.config.subscriptionPrefix id).toList) := by
  have halias : d.subscriptionAlias id = String.ofList ((sanitizeLoop (rawName
      d.config.subscriptionPrefix id).toList []).dropWhile fun c => !c.isAlphanum).reverse := rfl
  rw [names_some]
  refine forall_congr' fun halnum => ?_
  obtain ⟨c, hc, hcalnum⟩ := exists_alnum_rawName halnum d.config.subscriptionPrefix
  rw [halias, String.toList_ofList]
  generalize (rawName d.config.subscriptionPrefix id).toList = text at hc
  -- the text has a character that an alias may have
  obtain ⟨first, hfirst⟩ : ∃ first, text.find? isAliasChar = some first := by
    rw [← Option.isSome_iff_exists, List.find?_isSome]
    exact ⟨c, hc, by rw [isAliasChar, hcalnum]; rfl⟩
  have hmade := (sanitizeLoop_nil text).1 first hfirst
  generalize sanitizeLoop text [] = out at hmade
  have hok : AliasOk text ↔ first.isAlphanum = true := by
    rw [AliasOk, hfirst]
    exact ⟨fun h => h first rfl, fun h c hc => Option.some.inj hc ▸ h⟩
  rw [hok]
  have hsuffix : (out.dropWhile fun c => !c.isAlphanum) <:+ out := List.dropWhile_suffix _
  constructor
  · intro hrule
    have hne : (out.dropWhile fun c => !c.isAlphanum) ≠ [] := by
      have hmin := hrule.nonempty
      rw [List.length_reverse] at hmin
      exact List.length_pos_iff.mp hmin
    exact hrule.head first ((head?_reverse_of_suffix hsuffix hne).trans hmade.first)
  · intro hfirst
    have hmem : first ∈ out := List.mem_of_getLast? hmade.first
    have hne : (out.dropWhile fun c => !c.isAlphanum) ≠ [] := by
      intro hnil
      have hall := List.dropWhile_eq_nil_iff.mp hnil first hmem
      rw [hfirst] at hall
      cases hall
    have hlength := hsuffix.length_le
    have hmax := hmade.length_le
    have hpos := List.length_pos_iff.mpr hne
    refine ⟨⟨?_, ?_, fun c hc => hmade.chars c (hsuffix.subset (List.mem_reverse.mp hc))⟩, ?_⟩
    · rw [List.length_reverse]
      exact hpos
    · rw [List.length_reverse]
      omega
    · intro c hc
      rw [head?_reverse_of_suffix hsuffix hne, hmade.first] at hc
      exact Option.some.inj hc ▸ hfirst

end AzureDriver

/-! ## Account names -/

/-- What is between the first and the last of these characters. -/
def strip (p : Char → Bool) (cs : List Char) : List Char :=
  let trimEnd (cs : List Char) := (cs.dropWhile fun c => !p c).reverse
  trimEnd (trimEnd cs)

namespace AwsDriver

variable (d : AwsDriver)

/-- What a character of an account name is replaced by. -/
def accountChar (c : Char) : Char :=
  if d.lib.isAlphanumeric c || c = ' ' || c = '-' then c else '-'

/-- The characters of the text from the first letter or digit to the last one. -/
def core (text : List Char) : List Char := strip d.lib.isAlphanumeric text

/-- The condition for an account name: the name has up to 50 bytes, or its first 50 bytes end at a
character; and no letter or digit among its first 50 characters is outside ASCII. -/
def AccountNameOk (id : String) : Prop :=
  let core := d.core (rawName d.config.accountPrefix id).toList
  (byteSize (core.map d.accountChar) ≤ 50 ∨ ∃ taken, Cuts 50 (core.map d.accountChar) taken) ∧
    (HasAlnum id → ∀ c ∈ core.take 50, d.lib.isAlphanumeric c = true → IsAscii c)

variable {d}

theorem isAlphanumeric_accountChar (hlib : d.lib.Documented) (c : Char) :
    d.lib.isAlphanumeric (d.accountChar c) = d.lib.isAlphanumeric c := by
  have hhyphen : d.lib.isAlphanumeric '-' = false := hlib.alphanumeric '-' (by decide)
  rw [accountChar]
  split
  · rfl
  · rename_i hc
    rw [hhyphen]
    cases hother : d.lib.isAlphanumeric c with
    | false => rfl
    | true => exact absurd (by rw [hother]; rfl) hc

theorem strip_map (hlib : d.lib.Documented) (cs : List Char) :
    strip d.lib.isAlphanumeric (cs.map d.accountChar) =
      (strip d.lib.isAlphanumeric cs).map d.accountChar := by
  have hdrop : ∀ cs : List Char,
      (cs.map d.accountChar).dropWhile (fun c => !d.lib.isAlphanumeric c) =
        (cs.dropWhile fun c => !d.lib.isAlphanumeric c).map d.accountChar := by
    intro cs
    rw [List.dropWhile_map]
    refine congrArg (fun p => (cs.dropWhile p).map d.accountChar) (funext fun c => ?_)
    exact congrArg not (isAlphanumeric_accountChar hlib c)
  rw [strip, strip]
  simp only [hdrop, ← List.map_reverse]

theorem accountName_eq (hlib : d.lib.Documented) (id : String) :
    d.accountName id =
      let name := String.ofList
        ((d.core (rawName d.config.accountPrefix id).toList).map d.accountChar)
      if name.utf8ByteSize > 50 then bytePrefix name 50 else some name := by
  have hname : d.accountName id = d.sanitizeAccountName (rawName d.config.accountPrefix id) := rfl
  rw [hname, core, ← strip_map hlib]
  rfl

theorem isAscii_of_isAccountChar {c : Char} (h : isAccountChar c = true) : IsAscii c := by
  rw [isAccountChar, Bool.or_eq_true, Bool.or_eq_true, decide_eq_true_eq, decide_eq_true_eq] at h
  obtain (h | rfl) | rfl := h
  · exact isAscii_of_isAlphanum h
  · decide
  · decide

/-- What a character is replaced by is allowed unless it is a letter or digit outside ASCII. -/
theorem isAccountChar_accountChar (hlib : d.lib.Documented) (c : Char) :
    isAccountChar (d.accountChar c) = true ↔ (d.lib.isAlphanumeric c = true → IsAscii c) := by
  rw [accountChar]
  cases halnum : d.lib.isAlphanumeric c with
  | true =>
    rw [Bool.true_or, Bool.true_or, if_pos rfl]
    refine ⟨fun h _ => isAscii_of_isAccountChar h, fun h => ?_⟩
    have hc := hlib.alphanumeric c (h rfl)
    rw [halnum] at hc
    rw [isAccountChar, ← hc]
    rfl
  | false =>
    refine ⟨nofun, fun _ => ?_⟩
    split
    · rename_i hc
      rw [isAccountChar, Bool.or_assoc, Bool.or_eq_true]
      rw [Bool.false_or] at hc
      exact .inr hc
    · rfl

theorem mem_strip {p : Char → Bool} {c : Char} {cs : List Char} (hp : p c = true) (hc : c ∈ cs) :
    c ∈ strip p cs := by
  have hdrop : ∀ cs : List Char, c ∈ cs → c ∈ (cs.dropWhile fun c => !p c).reverse := by
    intro cs hmem
    rw [List.mem_reverse]
    induction cs with
    | nil => exact hmem
    | cons a cs ih =>
      rw [List.dropWhile_cons]
      split
      · rename_i ha
        refine ih ((List.mem_cons.mp hmem).resolve_left ?_)
        rintro rfl
        rw [hp] at ha
        cases ha
      · exact hmem
  exact hdrop _ (hdrop _ hc)

theorem accountName_names (hlib : d.lib.Documented) (id : String) :
    ValidName id (d.accountName id) (TextRule 50 isAccountChar) ↔ d.AccountNameOk id := by
  rw [accountName_eq hlib, AccountNameOk]
  have hcore : HasAlnum id → d.core (rawName d.config.accountPrefix id).toList ≠ [] := by
    intro halnum
    obtain ⟨c, hc, hcalnum⟩ := exists_alnum_rawName halnum d.config.accountPrefix
    have hlibc := hlib.alphanumeric c (isAscii_of_isAlphanum hcalnum)
    exact List.ne_nil_of_mem (mem_strip (hlibc.trans hcalnum) hc)
  generalize d.core (rawName d.config.accountPrefix id).toList = core at hcore
  simp only [utf8ByteSize_ofList]
  have htake : (∀ c ∈ (core.map d.accountChar).take 50, isAccountChar c = true) ↔
      ∀ c ∈ core.take 50, d.lib.isAlphanumeric c = true → IsAscii c := by
    rw [← List.map_take, List.forall_mem_map]
    exact forall₂_congr fun c _ => isAccountChar_accountChar hlib c
  rw [← htake]
  have hchars : (core.map d.accountChar).length = core.length := List.length_map ..
  generalize core.map d.accountChar = name at htake hchars
  split
  · rename_i hlong
    -- what is allowed is ASCII, so that 50 bytes of it are 50 characters
    have hascii : ∀ part : List Char, (∀ c ∈ part, isAccountChar c = true) →
        byteSize part = part.length := fun part h =>
      byteSize_eq_length.mpr fun c hc => isAscii_of_isAccountChar (h c hc)
    constructor
    · rintro ⟨s, hs, hrule⟩
      have hcut := bytePrefix_eq_some.mp hs
      rw [String.toList_ofList] at hcut
      refine ⟨.inr ⟨_, hcut⟩, fun halnum => ?_⟩
      have hsize := hascii _ (hrule halnum).chars
      rw [hcut.2] at hsize
      rw [hsize, ← List.prefix_iff_eq_take.mp hcut.1]
      exact (hrule halnum).chars
    · rintro ⟨hreturns, hallowed⟩
      obtain ⟨taken, hcut⟩ := hreturns.resolve_left (by omega)
      have hs : bytePrefix (String.ofList name) 50 = some (String.ofList taken) :=
        bytePrefix_eq_some.mpr (by rwa [String.toList_ofList, String.toList_ofList])
      refine ⟨_, hs, fun halnum => ?_⟩
      have hsize := hascii _ (hallowed halnum)
      have hlength : 50 ≤ name.length := by
        by_contra hshort
        rw [List.take_of_length_le (by omega)] at hsize
        omega
      have htaken : taken = name.take 50 := hcut.unique
        ⟨List.take_prefix .., by rw [hsize, List.length_take]; omega⟩
      rw [String.toList_ofList, htaken]
      exact ⟨by rw [List.length_take]; omega, by rw [List.length_take]; omega, hallowed halnum⟩
  · rename_i hshort
    have hlength := length_le_byteSize name
    rw [List.take_of_length_le (by omega)]
    constructor
    · rintro ⟨s, hs, hrule⟩
      obtain rfl := Option.some.inj hs
      rw [String.toList_ofList] at hrule
      exact ⟨.inl (by omega), fun halnum => (hrule halnum).chars⟩
    · rintro ⟨-, hallowed⟩
      refine ⟨_, rfl, fun halnum => ?_⟩
      have hpos := List.length_pos_iff.mpr (hcore halnum)
      rw [String.toList_ofList]
      exact ⟨by omega, by omega, hallowed halnum⟩

end AwsDriver

/-! ## Project ids -/

def isProjectChar (c : Char) : Bool := isLower c || c.isDigit

/-- The runs of lower-case letters and digits in a text. -/
def runs (text : List Char) : List (List Char) :=
  (text.splitOnP fun c => !isProjectChar c).filter (· ≠ [])

/-- The condition for a project id: the first letter or digit is a letter, and the runs of letters
and digits with a hyphen between any two have six characters. -/
def ProjectIdOk (text : List Char) : Prop :=
  (∀ c, text.find? isProjectChar = some c → isLower c = true) ∧
    6 ≤ ((runs text).map (·.length + 1)).sum - 1

namespace GcpDriver

/-- How many characters a text adds, with a hyphen before its first letter or digit if one is owed. -/
def added : Bool → List Char → Nat
  | _, [] => 0
  | owed, c :: cs =>
    if isProjectChar c then (if owed then 2 else 1) + added false cs else added true cs

theorem added_eq (cs : List Char) : ∃ run others,
    (cs.splitOnP fun c => !isProjectChar c) = run :: others ∧
      added false cs = run.length + ((others.filter (· ≠ [])).map (·.length + 1)).sum ∧
      added true cs = ((runs cs).map (·.length + 1)).sum := by
  induction cs with
  | nil => exact ⟨[], [], rfl, rfl, rfl⟩
  | cons c cs ih =>
    obtain ⟨run, others, hsplit, hfalse, htrue⟩ := ih
    rw [runs, List.splitOnP_cons_eq_if_modifyHead, hsplit]
    rw [runs, hsplit] at htrue
    rw [added, added]
    cases hc : isProjectChar c with
    | true =>
      refine ⟨c :: run, others, rfl, ?_, ?_⟩
      · rw [if_pos rfl, hfalse, List.length_cons]
        simp only [Bool.false_eq_true, if_false]
        omega
      · have hkept : ((c :: run) :: others).filter (· ≠ []) =
            (c :: run) :: others.filter (· ≠ []) := List.filter_cons_of_pos (by simp)
        simp only [Bool.not_true, Bool.false_eq_true, if_false, if_true, List.modifyHead_cons]
        rw [hkept, List.map_cons, List.sum_cons, List.length_cons, hfalse]
        omega
    | false =>
      have hdropped : ([] :: run :: others).filter (· ≠ []) = (run :: others).filter (· ≠ []) :=
        List.filter_cons_of_neg (by simp)
      refine ⟨[], run :: others, rfl, ?_, ?_⟩
      · simpa using htrue
      · simp only [Bool.not_false, Bool.false_eq_true, if_false, if_true]
        rw [hdropped]
        exact htrue

/-- What the loop has made so far, in reverse: `owed` says that it ends with a hyphen. -/
structure Made (first : Char) (out : List Char) (owed : Bool) : Prop where
  length_le : out.length ≤ 30
  chars : ∀ c ∈ out, isLabelChar c = true
  begins : out.getLast? = some first
  hyphen : owed = true → ∃ rest, out = '-' :: rest ∧ rest.head? ≠ some '-'
  free : owed = false → out.head? ≠ some '-'

/-- The text that has been made, without the hyphen at its end. -/
def finish : List Char → List Char
  | '-' :: out => out
  | out => out

theorem sanitizeProjectId_eq (lib : Lib) (raw : String) :
    sanitizeProjectId lib raw =
      String.ofList (finish (sanitizeLoop (lib.toLowercase raw).toList [] true)).reverse := by
  have hmatch : ∀ out : List Char, (match out with
      | '-' :: out => String.ofList out.reverse
      | out => String.ofList out.reverse) = String.ofList (finish out).reverse := by
    intro out
    rw [finish.eq_def]
    split <;> rfl
  exact hmatch _

theorem isProjectChar_iff {c : Char} :
    (('a' ≤ c ∧ c ≤ 'z') ∨ ('0' ≤ c ∧ c ≤ '9')) ↔ isProjectChar c = true := by
  simp only [isProjectChar, isLower, Char.isDigit, Bool.or_eq_true, Bool.and_eq_true,
    decide_eq_true_eq, Char.le_def]

variable {first : Char} {out : List Char} {owed : Bool}

theorem Made.push (h : Made first out owed) (hlength : out.length ≠ 30) {c : Char}
    (hc : isProjectChar c = true) : Made first (c :: out) false where
  length_le := by
    have hle := h.length_le
    rw [List.length_cons]
    omega
  chars := by
    refine List.forall_mem_cons.mpr ⟨?_, h.chars⟩
    rw [isProjectChar] at hc
    rw [isLabelChar, hc]
    rfl
  begins := by
    rw [List.getLast?_cons, h.begins]
    rfl
  hyphen := nofun
  free := by
    rintro - ⟨⟩
    cases hc

theorem Made.pushHyphen (h : Made first out false) (hlength : out.length ≠ 30) :
    Made first ('-' :: out) true where
  length_le := by
    have hle := h.length_le
    rw [List.length_cons]
    omega
  chars := List.forall_mem_cons.mpr ⟨rfl, h.chars⟩
  begins := by
    rw [List.getLast?_cons, h.begins]
    rfl
  hyphen _ := ⟨out, rfl, h.free rfl⟩
  free := nofun

theorem Made.length_finish (h : Made first out owed) :
    (finish out).length + (if owed then 1 else 0) = out.length := by
  cases howed : owed with
  | true =>
    obtain ⟨rest, rfl, -⟩ := h.hyphen howed
    rfl
  | false =>
    have hfree := h.free howed
    rw [finish.eq_def]
    split
    · exact absurd rfl hfree
    · rfl

/-- A run of the loop keeps what has been made, and decides whether the text has six characters. -/
theorem Made.sanitizeLoop : ∀ (cs : List Char) {out : List Char} {owed : Bool},
    Made first out owed →
    (∃ owed', Made first (sanitizeLoop cs out owed) owed') ∧
      (6 ≤ (finish (sanitizeLoop cs out owed)).length ↔ 6 ≤ (finish out).length + added owed cs)
  | [], out, owed, h => ⟨⟨owed, h⟩, Iff.rfl⟩
  | c :: cs, out, owed, h => by
    have hfinish := h.length_finish
    have hne : out.isEmpty = false := by
      cases out with
      | nil => cases h.begins
      | cons => rfl
    rw [GcpDriver.sanitizeLoop, added]
    split
    · refine ⟨⟨owed, h⟩, ?_⟩
      cases owed <;> simp only [if_true, if_false, Bool.false_eq_true] at hfinish <;> omega
    · rename_i hlength
      rw [sanitizeChar, hne]
      by_cases hc : isProjectChar c = true
      · have hpush := h.push hlength hc
        have hnext := hpush.sanitizeLoop cs
        have hpushed := hpush.length_finish
        rw [if_pos (isProjectChar_iff.mpr hc), if_pos hc]
        refine ⟨hnext.1, hnext.2.trans ?_⟩
        rw [List.length_cons] at hpushed
        cases owed <;> simp only [if_true, if_false, Bool.false_eq_true] at hfinish hpushed ⊢ <;>
          omega
      · rw [if_neg fun h => hc (isProjectChar_iff.mp h), if_neg hc]
        cases owed with
        | true => exact h.sanitizeLoop cs
        | false =>
          have hpush := h.pushHyphen hlength
          have hnext := hpush.sanitizeLoop cs
          have hpushed := hpush.length_finish
          refine ⟨hnext.1, hnext.2.trans ?_⟩
          rw [List.length_cons] at hpushed
          simp only [if_true, if_false, Bool.false_eq_true] at hfinish hpushed ⊢
          omega

/-- The loop begins with the first lower-case letter or digit. -/
theorem sanitizeLoop_nil : (text : List Char) →
    (∀ first, text.find? isProjectChar = some first →
      (∃ owed, Made first (sanitizeLoop text [] true) owed) ∧
        (6 ≤ (finish (sanitizeLoop text [] true)).length ↔ 6 ≤ added true text - 1)) ∧
      (text.find? isProjectChar = none → sanitizeLoop text [] true = [] ∧ added true text = 0)
  | [] => ⟨nofun, fun _ => ⟨rfl, rfl⟩⟩
  | c :: cs => by
    rw [sanitizeLoop, if_neg (by decide), sanitizeChar, added]
    by_cases hc : isProjectChar c = true
    · rw [List.find?_cons_of_pos hc, if_pos (isProjectChar_iff.mpr hc), if_pos hc, if_pos rfl]
      refine ⟨fun first hfirst => ?_, nofun⟩
      obtain rfl := Option.some.inj hfirst
      have hne : c ≠ '-' := by
        rintro rfl
        cases hc
      have hmade : Made c [c] false :=
        ⟨by rw [List.length_singleton]; decide, List.forall_mem_cons.mpr ⟨by
          rw [isProjectChar] at hc
          rw [isLabelChar, hc]
          rfl, List.forall_mem_nil _⟩, rfl, nofun, fun _ h => hne (Option.some.inj h)⟩
      have hsize := hmade.length_finish
      have hloop := hmade.sanitizeLoop cs
      refine ⟨hloop.1, hloop.2.trans ?_⟩
      simp only [if_false, Bool.false_eq_true, List.length_singleton] at hsize
      omega
    · rw [List.find?_cons_of_neg hc, if_neg fun h => hc (isProjectChar_iff.mp h), if_neg hc]
      exact sanitizeLoop_nil cs

theorem finish_suffix (out : List Char) : finish out <:+ out := by
  rw [finish.eq_def]
  split
  · exact List.suffix_cons ..
  · exact List.suffix_rfl

theorem Made.rule (h : Made first out owed) (hfirst : isLower first = true)
    (hsix : 6 ≤ (finish out).length) : LabelRule 30 (finish out).reverse := by
  have hle := h.length_le
  have hfinish := h.length_finish
  have hsuffix := finish_suffix out
  refine ⟨⟨?_, ?_, fun c hc => h.chars c (hsuffix.subset (List.mem_reverse.mp hc))⟩, ?_, ?_, ?_⟩
  · rw [List.length_reverse]
    omega
  · rw [List.length_reverse]
    omega
  · rw [List.length_reverse]
    exact hsix
  · intro c hc
    have hne : finish out ≠ [] := List.length_pos_iff.mp (by omega)
    rw [head?_reverse_of_suffix hsuffix hne, h.begins] at hc
    exact Option.some.inj hc ▸ hfirst
  · rw [List.getLast?_reverse]
    cases howed : owed with
    | true =>
      obtain ⟨rest, rfl, hrest⟩ := h.hyphen howed
      exact hrest
    | false =>
      have hfree := h.free howed
      rw [finish.eq_def]
      split
      · exact absurd rfl hfree
      · exact hfree

theorem gcpProjectId_names (d : GcpDriver) (id : String) :
    ValidName id (some (d.gcpProjectId id)) (LabelRule 30) ↔ (HasAlnum id →
      ProjectIdOk (d.lib.toLowercase (rawName d.config.projectPrefix id)).toList) := by
  have hid : d.gcpProjectId id = sanitizeProjectId d.lib (rawName d.config.projectPrefix id) := rfl
  rw [names_some, hid, sanitizeProjectId_eq, String.toList_ofList]
  refine forall_congr' fun _ => ?_
  generalize (d.lib.toLowercase (rawName d.config.projectPrefix id)).toList = text
  obtain ⟨-, -, -, -, hadded⟩ := added_eq text
  rw [ProjectIdOk, ← hadded]
  obtain ⟨hsome, hnone⟩ := sanitizeLoop_nil text
  cases hfind : text.find? isProjectChar with
  | none =>
    obtain ⟨hloop, hzero⟩ := hnone hfind
    rw [hloop, hzero]
    refine ⟨fun hrule => ?_, fun h => absurd h.2 (by decide)⟩
    exact absurd hrule.six_le (by decide)
  | some first =>
    obtain ⟨⟨owed, hmade⟩, hsix⟩ := hsome first hfind
    constructor
    · intro hrule
      have hlength := hrule.six_le
      rw [List.length_reverse] at hlength
      refine ⟨fun c hc => ?_, hsix.mp hlength⟩
      have hne : finish (sanitizeLoop text [] true) ≠ [] := List.length_pos_iff.mp (by omega)
      refine hrule.head c ?_
      rw [head?_reverse_of_suffix (finish_suffix _) hne, hmade.begins]
      exact hc
    · exact fun h => hmade.rule (h.1 first rfl) (hsix.mpr h.2)

end GcpDriver

/-! ## All names -/

/-- **Which ids give valid names**: for each of the six functions, exactly the ids whose name is made
without a slice within a character and obeys its rule. -/
theorem derived_names_iff (ds : CloudDrivers) (hgcp : ds.gcp.lib.Documented)
    (hazure : ds.azure.lib.Documented) (haws : ds.aws.lib.Documented) (id : String) :
    (ValidName id (ds.gcp.partitionSaId id) (LabelRule 28) ↔ SaIdOk id) ∧
    (ValidName id (ds.azure.partitionMiName id) (TextRule 128 isIdentityChar) ↔
      CutOk 54 19 isIdentityChar id) ∧
    (ValidName id (ds.aws.partitionRoleName id) (TextRule 64 isRoleChar) ↔
      CutOk 48 39 isRoleChar id) ∧
    (ValidName id (ds.aws.accountName id) (TextRule 50 isAccountChar) ↔ ds.aws.AccountNameOk id) ∧
    (ValidName id (some (ds.gcp.gcpProjectId id)) (LabelRule 30) ↔ (HasAlnum id →
      ProjectIdOk (ds.gcp.lib.toLowercase (rawName ds.gcp.config.projectPrefix id)).toList)) ∧
    (ValidName id (some (ds.azure.subscriptionAlias id)) AliasRule ↔
      (HasAlnum id → AliasOk (rawName ds.azure.config.subscriptionPrefix id).toList)) :=
  ⟨partitionSaId_names hgcp id, partitionMiName_names hazure id, partitionRoleName_names haws id,
    AwsDriver.accountName_names haws id, GcpDriver.gcpProjectId_names ds.gcp id,
    AzureDriver.subscriptionAlias_names ds.azure id⟩

/-- Hashes of the right form. -/
def zeroHashes : Lib where
  isAlphanumeric := Char.isAlphanum
  isWhitespace := (· = ' ')
  toLowercase := String.toLower
  defaultHash _ := "0000000000000000"
  sha256 _ := "0000000000000000000000000000000000000000000000000000000000000000"
  xmlText _ _ := none
  xmlAllTexts _ _ := []
  jsonText _ := ""

theorem zeroHashes_documented : zeroHashes.Documented where
  alphanumeric _ _ := rfl
  hash_length := fun _ => (by decide : 6 ≤ "0000000000000000".length)
  hash_chars _ c hc := .inl (List.all_eq_true.mp
    (by decide : "0000000000000000".toList.all Char.isDigit = true) c hc)
  sha256_length := fun _ => (by decide +kernel : 8 ≤
    "0000000000000000000000000000000000000000000000000000000000000000".length)
  sha256_chars _ c hc := .inl (List.all_eq_true.mp (by decide +kernel :
    "0000000000000000000000000000000000000000000000000000000000000000".toList.all
      Char.isDigit = true) c hc)

def zeroClouds : CloudDrivers where
  gcp := ⟨zeroHashes, ⟨"", "", none⟩, ⟨"", "", "", "", "", "", "", ""⟩, none⟩
  azure := ⟨zeroHashes, ⟨"", "", "", "", "", "", none, none, none⟩, "", false⟩
  aws := ⟨zeroHashes, ⟨"", "", "", none, "", none⟩, ⟨"", "", "", ""⟩⟩

/-- A service account for a short id. -/
theorem derived_names_iff_api :
    ValidName "api" (zeroClouds.gcp.partitionSaId "api") (LabelRule 28) := by
  refine (derived_names_iff zeroClouds zeroHashes_documented zeroHashes_documented
    zeroHashes_documented "api").1.mpr ?_
  rw [SaIdOk, if_pos (by decide)]
  exact fun _ => ⟨List.all_eq_true.mp (by decide), by decide⟩

/-- An id of 19 characters gives a service account id of 29. -/
theorem data_store_too_long :
    ¬ ValidName "customer-data-store" (zeroClouds.gcp.partitionSaId "customer-data-store")
      (LabelRule 28) := by
  have hname : zeroClouds.gcp.partitionSaId "customer-data-store" =
      some "pt-customer-data-store-000000" := by decide +kernel
  rw [hname, names_some]
  intro h
  exact absurd (h ⟨'c', by decide, by decide⟩).length_le (by decide)

end Nclav
