import Nclav.Api.TfState
import Nclav.Guarantees.AliasScope
import Nclav.Guarantees.ErrorFree
import Nclav.Path.Segments

/-!
# What partitions share

The Terraform state of a partition, the log of its runs and its workspace are found under the ids of
the enclave and the partition, put together as they are written. So they are its own exactly where
the ids, read as paths, keep apart (`separate_iff`).
-/

namespace Nclav

open Path

/-- The partitions that are declared, by the ids of their enclaves and their own. -/
def declaredPairs (desired : List Enclave) : List (EnclaveId × PartitionId) :=
  desired.flatMap fun enc => enc.partitions.map fun part => (enc.id, part.id)

/-- `<root>/workspaces` -/
def workspacesDir (host : Host) : String := joinPath (joinPath host.home ".nclav") "workspaces"

/-- What is asked of the declared partitions, the server running in `cwd`. -/
structure Separate (host : Host) (cwd : List Segment) (rfc3339 : DateTime → String)
    (hyphenated : Uuid → String) (pairs : List (EnclaveId × PartitionId)) : Prop where
  keys : ∀ a ∈ pairs, ∀ b ∈ pairs, a ≠ b →
    tfStateKey a.1.val a.2.val ≠ tfStateKey b.1.val b.2.val
  runs : ∀ a ∈ pairs, ∀ b ∈ pairs, a ≠ b → ∀ startedAt runId,
    ¬(iacRunPrefix b.1 b.2).toList <+:
      (iacRunIndexKey a.1 a.2 (rfc3339 startedAt) (hyphenated runId)).toList
  workspaces : ∀ a ∈ pairs, ∀ b ∈ pairs, a ≠ b →
    resolve cwd (TerraformBackend.workspaceDir host a.1.val a.2.val).toList ≠
      resolve cwd (TerraformBackend.workspaceDir host b.1.val b.2.val).toList
  inside : ∀ a ∈ pairs, ∃ names, names ≠ [] ∧
    resolve cwd (TerraformBackend.workspaceDir host a.1.val a.2.val).toList =
      resolve cwd (workspacesDir host).toList ++ names

/-- The segments of the ids. -/
def idSegments (a : EnclaveId × PartitionId) : List Segment :=
  segments a.1.val.toList ++ segments a.2.val.toList

/-- Where the ids lead, from a directory. -/
def idWalk (dir : List Segment) (a : EnclaveId × PartitionId) : List Segment :=
  resolve (resolve dir a.1.val.toList) a.2.val.toList

/-- The condition on the ids: the segments of one pair are not the first segments of another, and
from the directory of the workspaces the pairs lead down, each to a place of its own. -/
structure IdsApart (dir : List Segment) (pairs : List (EnclaveId × PartitionId)) : Prop where
  segments : ∀ a ∈ pairs, ∀ b ∈ pairs, a ≠ b → ¬idSegments b <+: idSegments a
  places : ∀ a ∈ pairs, ∀ b ∈ pairs, a ≠ b → idWalk dir a ≠ idWalk dir b
  down : ∀ a ∈ pairs, ∃ names, names ≠ [] ∧ idWalk dir a = dir ++ names

/-! ## Texts -/

theorem toList_tfStateKey (enc part : String) :
    (tfStateKey enc part).toList = enc.toList ++ '/' :: part.toList := by
  rw [show tfStateKey enc part = enc ++ "/" ++ part from rfl]
  simp

theorem segments_tfStateKey (a : EnclaveId × PartitionId) :
    segments (tfStateKey a.1.val a.2.val).toList = idSegments a := by
  rw [toList_tfStateKey, segments_append, idSegments]

theorem toList_iacRunPrefix (a : EnclaveId × PartitionId) :
    (iacRunPrefix a.1 a.2).toList = (tfStateKey a.1.val a.2.val).toList ++ ['/'] := by
  rw [show iacRunPrefix a.1 a.2 = tfStateKey a.1.val a.2.val ++ "/" from rfl]
  simp

theorem segments_iacRunIndexKey (a : EnclaveId × PartitionId) {startedAt runId : String}
    (hstarted : '/' ∉ startedAt.toList) (hrun : '/' ∉ runId.toList) :
    segments (iacRunIndexKey a.1 a.2 startedAt runId).toList =
      idSegments a ++ [startedAt.toList, runId.toList] := by
  have hkey : (iacRunIndexKey a.1 a.2 startedAt runId).toList = (tfStateKey a.1.val a.2.val).toList ++
      '/' :: (startedAt.toList ++ '/' :: runId.toList) := by
    rw [show iacRunIndexKey a.1 a.2 startedAt runId =
      tfStateKey a.1.val a.2.val ++ "/" ++ startedAt ++ "/" ++ runId from rfl]
    simp
  rw [hkey, segments_append, segments_append, segments_tfStateKey, segments_of_not_mem hstarted,
    segments_of_not_mem hrun]
  rfl

/-- A joined path leads where its parts lead. -/
theorem resolve_joinPath (dir : List Segment) (base component : String) :
    resolve dir (joinPath base component).toList =
      resolve (resolve dir base.toList) component.toList := by
  rw [joinPath]
  by_cases hroot : component.toList.head? = some '/'
  · rw [if_pos hroot, resolve, resolve, if_pos hroot, if_pos hroot]
  rw [if_neg hroot]
  by_cases hbase : base = ""
  · subst hbase
    rw [if_pos (.inl rfl), String.empty_append]
    rfl
  by_cases hlast : base.toList.getLast? = some '/'
  · obtain ⟨b, hb⟩ := List.getLast?_eq_some_iff.mp hlast
    rw [if_pos (.inr hlast), String.toList_append, hb, List.append_assoc, List.singleton_append,
      resolve_append hroot, resolve_append (by rintro ⟨⟩)]
  · rw [if_neg (not_or.mpr ⟨hbase, hlast⟩), String.toList_append, String.toList_append]
    have hne : base.toList ≠ [] := fun h => hbase (String.toList_eq_nil_iff.mp h)
    rw [show "/".toList = ['/'] from rfl, List.append_assoc, List.singleton_append,
      resolve_append hroot, resolve_concat_sep hne]

theorem resolve_workspaceDir (host : Host) (cwd : List Segment) (a : EnclaveId × PartitionId) :
    resolve cwd (TerraformBackend.workspaceDir host a.1.val a.2.val).toList =
      idWalk (resolve cwd (workspacesDir host).toList) a := by
  rw [TerraformBackend.workspaceDir, resolve_joinPath, resolve_joinPath, idWalk, workspacesDir]

section

variable {host : Host} {cwd : List Segment} {rfc3339 : DateTime → String}
  {hyphenated : Uuid → String} {pairs : List (EnclaveId × PartitionId)}

theorem IdsApart.separate (hstarted : ∀ t, '/' ∉ (rfc3339 t).toList)
    (hrun : ∀ id, '/' ∉ (hyphenated id).toList)
    (h : IdsApart (resolve cwd (workspacesDir host).toList) pairs) :
    Separate host cwd rfc3339 hyphenated pairs where
  keys a ha b hb hab heq := by
    refine h.segments a ha b hb hab ?_
    rw [← segments_tfStateKey, ← segments_tfStateKey, heq]
  runs a ha b hb hab startedAt runId hbegins := by
    rw [toList_iacRunPrefix, below_iff, segments_tfStateKey,
      segments_iacRunIndexKey a (hstarted _) (hrun _)] at hbegins
    obtain ⟨rest, -, hsegments⟩ := hbegins
    rcases List.append_eq_append_iff.mp hsegments with ⟨more, hb', -⟩ | ⟨more, ha', -⟩
    · exact h.segments b hb a ha hab.symm ⟨more, hb'.symm⟩
    · exact h.segments a ha b hb hab ⟨more, ha'.symm⟩
  workspaces a ha b hb hab := by
    rw [resolve_workspaceDir, resolve_workspaceDir]
    exact h.places a ha b hb hab
  inside a ha := by
    rw [resolve_workspaceDir]
    exact h.down a ha

theorem Separate.idsApart (hstarted : ∀ t, '/' ∉ (rfc3339 t).toList)
    (hrun : ∀ id, '/' ∉ (hyphenated id).toList)
    (h : Separate host cwd rfc3339 hyphenated pairs) :
    IdsApart (resolve cwd (workspacesDir host).toList) pairs where
  segments a ha b hb hab := by
    rintro ⟨more, hsegments⟩
    refine h.runs a ha b hb hab 0 0 ?_
    rw [toList_iacRunPrefix, below_iff, segments_tfStateKey,
      segments_iacRunIndexKey a (hstarted _) (hrun _), ← hsegments, List.append_assoc]
    exact ⟨_, by simp, rfl⟩
  places a ha b hb hab := by
    rw [← resolve_workspaceDir, ← resolve_workspaceDir]
    exact h.workspaces a ha b hb hab
  down a ha := by
    rw [← resolve_workspaceDir]
    exact h.inside a ha

/-- **What partitions share.** The declared partitions have their states, the logs of their runs and
their workspaces to themselves, and the workspaces in their place, exactly where the ids are
apart. -/
theorem separate_iff (host : Host) (cwd : List Segment)
    (hstarted : ∀ t, '/' ∉ (rfc3339 t).toList) (hrun : ∀ id, '/' ∉ (hyphenated id).toList)
    (desired : List Enclave) :
    Separate host cwd rfc3339 hyphenated (declaredPairs desired) ↔
      IdsApart (resolve cwd (workspacesDir host).toList) (declaredPairs desired) :=
  ⟨Separate.idsApart hstarted hrun, IdsApart.separate hstarted hrun⟩

/-- Ids that are names are apart. -/
theorem idsApart_of_isName {dir : List Segment}
    (h : ∀ a ∈ pairs, IsName a.1.val.toList ∧ IsName a.2.val.toList) : IdsApart dir pairs := by
  have hsegments : ∀ a ∈ pairs, idSegments a = [a.1.val.toList, a.2.val.toList] := by
    intro a ha
    rw [idSegments, segments_of_not_mem (h a ha).1.1, segments_of_not_mem (h a ha).2.1]
    rfl
  have hwalk : ∀ a ∈ pairs, idWalk dir a = dir ++ [a.1.val.toList, a.2.val.toList] := by
    intro a ha
    rw [idWalk, resolve_of_isName (h a ha).1, resolve_of_isName (h a ha).2, List.append_assoc]
    rfl
  have heq : ∀ a b : EnclaveId × PartitionId, a.1.val.toList = b.1.val.toList →
      a.2.val.toList = b.2.val.toList → a = b := fun a b h₁ h₂ =>
    Prod.ext (EnclaveId.ext (String.toList_injective h₁))
      (PartitionId.ext (String.toList_injective h₂))
  constructor
  · intro a ha b hb hab hbegins
    rw [hsegments a ha, hsegments b hb] at hbegins
    have hlists := hbegins.eq_of_length rfl
    exact hab (heq a b (List.cons.inj hlists).1.symm (by simpa using (List.cons.inj hlists).2.symm))
  · intro a ha b hb hab hplaces
    rw [hwalk a ha, hwalk b hb, List.append_right_inj] at hplaces
    exact hab (heq a b (List.cons.inj hplaces).1 (by simpa using (List.cons.inj hplaces).2))
  · exact fun a ha => ⟨_, by simp, hwalk a ha⟩

end

/-! ## Partitions beside each other, and one above -/

/-- The text of the first instant. -/
def epochText : DateTime → String := fun _ => "1970-01-01T00:00:00+00:00"

/-- The text of the least id. -/
def nilText : Uuid → String := fun _ => "00000000-0000-0000-0000-000000000000"

theorem epochText_no_sep (t : DateTime) : '/' ∉ (epochText t).toList := by
  rw [epochText]
  decide +kernel

theorem nilText_no_sep (id : Uuid) : '/' ∉ (nilText id).toList := by
  rw [nilText]
  decide +kernel

/-- Two partitions of one enclave, and one of another with the same id. -/
theorem separate_named :
    Separate plainHost [] epochText nilText (declaredPairs [exporter, importer "x" "y"]) := by
  refine (separate_iff plainHost [] epochText_no_sep nilText_no_sep [exporter, importer "x" "y"]).mpr
    (idsApart_of_isName fun a ha => ?_)
  rcases List.mem_cons.mp ha with rfl | ha
  · decide +kernel
  rcases List.mem_cons.mp ha with rfl | ha
  · decide +kernel
  obtain rfl := List.mem_singleton.mp ha
  decide +kernel

/-- An enclave with a partition whose id leads up. -/
def strayFiles : FileSystem where
  readConfig path :=
    if path = "enclaves/a/config.yml" then some (.ok "id: a")
    else if path = "enclaves/a/p/config.yml" then some (.ok "id: ..")
    else none
  parseYaml text :=
    if text = "id: a" then
      some (.record
        [("id", .str "a"), ("name", .str "a"), ("region", .str "r"), ("partitions", .seq [.str "p"])])
    else if text = "id: .." then some (.record [("id", .str ".."), ("name", .str "p")])
    else none
  yamlError _ := ""

/-- It is accepted, and its workspace is the directory of all workspaces. -/
theorem stray_not_separate : ∃ desired resolved,
    loadEnclaves strayFiles enclavesRequest.enclavesDir regionlessRoot = .ok desired ∧
      validate Topo.kahn desired = .ok resolved ∧
      ¬Separate plainHost [] epochText nilText (declaredPairs desired) := by
  refine ⟨_, _, rfl, rfl, fun hseparate => ?_⟩
  obtain ⟨names, hne, hinside⟩ := hseparate.inside (⟨"a"⟩, ⟨".."⟩) (List.mem_singleton_self _)
  have hsame : resolve [] (TerraformBackend.workspaceDir plainHost "a" "..").toList =
      resolve [] (workspacesDir plainHost).toList := by
    decide +kernel
  rw [hsame] at hinside
  exact hne (List.self_eq_append_right.mp hinside)

end Nclav
