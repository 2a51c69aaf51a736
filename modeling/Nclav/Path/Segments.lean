import Mathlib

/-!
# Paths

A path is a text whose segments are set apart by separators. Its segments determine it, and the
paths below a path are those whose segments begin with its own. The file system follows the segments
one after another, `..` leading up, and begins at the root where the path does.
-/

namespace Path

abbrev Segment : Type := List Char

/-- The segments of a path. -/
def segments (path : List Char) : List Segment := path.splitOn '/'

variable {path path' : List Char} {ss : List Segment}

theorem segments_ne_nil (path : List Char) : segments path ≠ [] := List.splitOn_ne_nil _ _

@[simp] theorem segments_append (path path' : List Char) :
    segments (path ++ '/' :: path') = segments path ++ segments path' :=
  List.splitOn_append_cons_self path path'

theorem segments_of_not_mem (h : '/' ∉ path) : segments path = [path] :=
  List.splitOn_eq_singleton h

theorem intercalate_append {xs ys : List Segment} (hxs : xs ≠ []) (hys : ys ≠ []) :
    ['/'].intercalate (xs ++ ys) = ['/'].intercalate xs ++ '/' :: ['/'].intercalate ys := by
  induction xs with
  | nil => exact absurd rfl hxs
  | cons x xs ih =>
    cases xs with
    | nil =>
      rw [List.singleton_append, List.intercalate_cons_of_ne_nil hys, List.intercalate_singleton,
        List.append_assoc, List.singleton_append]
    | cons x' xs =>
      rw [List.cons_append, List.cons_append, List.intercalate_cons_cons, ← List.cons_append,
        ih (List.cons_ne_nil x' xs), List.intercalate_cons_cons]
      simp

/-- The paths below a path. -/
theorem below_iff : path ++ ['/'] <+: path' ↔
    ∃ rest, rest ≠ [] ∧ segments path' = segments path ++ rest := by
  constructor
  · rintro ⟨rest, rfl⟩
    refine ⟨segments rest, segments_ne_nil rest, ?_⟩
    rw [List.append_assoc, List.singleton_append, segments_append]
  · rintro ⟨rest, hrest, h⟩
    have hjoined := intercalate_append (segments_ne_nil path) hrest
    rw [← h, segments, segments, List.intercalate_splitOn, List.intercalate_splitOn] at hjoined
    exact ⟨['/'].intercalate rest, by rw [hjoined, List.append_assoc, List.singleton_append]⟩

/-! ## Following a path -/

/-- One segment, from a directory given by the names that lead to it. -/
def follow (dir : List Segment) (segment : Segment) : List Segment :=
  if segment = [] ∨ segment = ['.'] then dir
  else if segment = ['.', '.'] then dir.dropLast
  else dir ++ [segment]

/-- Where the file system comes to along the segments. -/
def walk (dir : List Segment) (ss : List Segment) : List Segment := ss.foldl follow dir

/-- Where a path leads, in a directory. -/
def resolve (dir : List Segment) (path : List Char) : List Segment :=
  walk (if path.head? = some '/' then [] else dir) (segments path)

@[simp] theorem walk_append (dir : List Segment) (ss ss' : List Segment) :
    walk dir (ss ++ ss') = walk (walk dir ss) ss' := List.foldl_append

/-- A path that goes on after a directory, in that directory. -/
theorem resolve_append {dir : List Segment} (hroot : path'.head? ≠ some '/') :
    resolve dir (path ++ '/' :: path') = resolve (resolve dir (path ++ ['/'])) path' := by
  have hhead : (path ++ '/' :: path').head? = (path ++ ['/']).head? := by
    cases path <;> rfl
  rw [resolve, hhead, segments_append, walk_append, resolve, if_neg hroot, resolve, segments_append,
    walk_append]
  rfl

/-- The separator at the end of a path leads nowhere. -/
theorem resolve_concat_sep {dir : List Segment} (hne : path ≠ []) :
    resolve dir (path ++ ['/']) = resolve dir path := by
  have hhead : (path ++ ['/']).head? = path.head? := by
    cases path with
    | nil => exact absurd rfl hne
    | cons => rfl
  rw [resolve, hhead, segments_append, walk_append, resolve]
  rfl

/-- A name of a file or a directory. -/
def IsName (path : List Char) : Prop :=
  '/' ∉ path ∧ path ≠ [] ∧ path ≠ ['.'] ∧ path ≠ ['.', '.']

instance (path : List Char) : Decidable (IsName path) :=
  inferInstanceAs (Decidable (_ ∧ _ ∧ _ ∧ _))

/-- A name leads one directory down. -/
theorem resolve_of_isName {dir : List Segment} (h : IsName path) :
    resolve dir path = dir ++ [path] := by
  obtain ⟨hsep, hne, hdot, hdots⟩ := h
  have hhead : path.head? ≠ some '/' := fun hhead => hsep (List.mem_of_mem_head? hhead)
  rw [resolve, if_neg hhead, segments_of_not_mem hsep]
  show follow dir path = _
  rw [follow, if_neg (not_or.mpr ⟨hne, hdot⟩), if_neg hdots]

end Path
