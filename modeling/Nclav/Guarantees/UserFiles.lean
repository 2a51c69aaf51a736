import Nclav.Guarantees.CurrentCode

/-!
# The files of the user

The files in a partition's directory are only linked, and a write through a link changes them. After
the links are made nclav writes two files of its own in a raw setup, so it changes what these names
link to.
-/

namespace Nclav

/-- A call of `provision`, or one of `teardown`, which writes no file. -/
inductive FileCall : Type where
  | provision (call : Preparation)
  | teardown (source : SourceDir)

namespace FileCall

def source : FileCall → SourceDir
  | .provision call => call.source
  | .teardown source => source

/-- The files behind the call. -/
def run : FileCall → FileTree → FileTree
  | .provision call, t => (call.prepare t).1
  | .teardown _, t => t

/-- Every file of the partition's directory has the content that it had. -/
def KeepsFiles (call : FileCall) (t : FileTree) : Prop :=
  ∀ entry ∈ call.source.entries, ∀ path, entry.canonical = .ok path →
    (call.run t).files path = t.files path

end FileCall

/-- What an entry links to. -/
def FileTree.linkTarget (t : FileTree) (name : String) : Option String :=
  match t.workspace name with
  | some (.link target) => some target
  | _ => none

namespace Preparation

/-- What `nclav_backend.tf` is going to link to: a file of that name in the partition's directory, or
else what it links to already. -/
def backendTarget (call : Preparation) (t : FileTree) : Option String :=
  match call.source.entries.find? (·.name = "nclav_backend.tf") with
  | some entry => entry.canonical.toOption
  | none => t.linkTarget "nclav_backend.tf"

/-- In a raw setup whose links can all be made: where one of the two files that are written links to
a file of the partition's directory, that one has the written text already. -/
def Spares (call : Preparation) (t : FileTree) : Prop :=
  call.setup = .raw →
  (∀ entry ∈ call.source.entries, entry.name.endsWith ".tf" = true → entry.canonical.isOk = true) →
  ∀ entry ∈ call.source.entries, ∀ path, entry.canonical = .ok path →
    (t.linkTarget "nclav_context.auto.tfvars" = some path → t.files path = some call.texts.tfvars) ∧
    (t.linkTarget "nclav_context.auto.tfvars" ≠ some path → call.backendTarget t = some path →
      t.files path = some backendTf)

end Preparation

def FileCall.Spares : FileCall → FileTree → Prop
  | .provision call, t => call.Spares t
  | .teardown _, _ => True

section

variable {t t' : FileTree} {call : Preparation} {name content path : String}

/-- What a write changes is what it goes through. -/
theorem write_files : (t.write name content).files path =
    if t.linkTarget name = some path then some content else t.files path := by
  rw [FileTree.write, FileTree.linkTarget]
  rcases t.workspace name with _ | target | text
  · rfl
  · simp only [Option.some.injEq, eq_comm]
  · rfl

theorem linkTarget_congr (h : t'.workspace name = t.workspace name) :
    t'.linkTarget name = t.linkTarget name := by
  rw [FileTree.linkTarget, FileTree.linkTarget, h]

/-- Links can be made for all `.tf` files iff all lead somewhere. -/
theorem symlinkTfFiles_ok_iff (dir : String) {entries : List SourceEntry} (t : FileTree) :
    (t.symlinkTfFiles dir entries).2 = .ok () ↔
      ∀ entry ∈ entries, entry.name.endsWith ".tf" = true → entry.canonical.isOk = true := by
  induction entries generalizing t with
  | nil => exact iff_of_true rfl (List.forall_mem_nil _)
  | cons entry entries ih =>
    rw [FileTree.symlinkTfFiles, List.forall_mem_cons]
    split
    · rename_i htf
      rcases hcanonical : entry.canonical with e | target
      · exact iff_of_false (by rintro ⟨⟩) fun h => Bool.false_ne_true (h.1 htf)
      · simp only [ih]
        exact ⟨fun h => ⟨fun _ => rfl, h⟩, fun h => h.2⟩
    · rename_i htf
      rw [ih]
      exact ⟨fun h => ⟨fun h' => absurd h' htf, h⟩, fun h => h.2⟩

theorem cleanupRawTfArtifacts_linkTarget (h : name.endsWith ".tf" = true) :
    t.cleanupRawTfArtifacts.linkTarget name = none := by
  rw [FileTree.linkTarget, FileTree.cleanupRawTfArtifacts_of_tf h (tfvars_ne h)]
  rcases t.workspace name with _ | _ | _ <;> rfl

/-- Writing an entry that is no link leaves the others' links. -/
theorem linkTarget_write (h : t.linkTarget name = none) (name' : String) :
    (t.write name content).linkTarget name' = t.linkTarget name' := by
  by_cases hne : name' = name
  · subst hne
    have hnot : ∀ target, t.workspace name' ≠ some (.link target) := by
      intro target hlink
      rw [FileTree.linkTarget, hlink] at h
      cases h
    rw [h, FileTree.write_of_not_link hnot, FileTree.linkTarget, FileTree.setEntry_workspace,
      if_pos rfl]
  · exact linkTarget_congr (FileTree.write_workspace_of_ne hne)

/-- A module setup writes through no link. -/
theorem prepare_module_files (hsetup : call.setup = .module_) :
    (call.prepare t).1.files = t.files := by
  rw [Preparation.prepare, hsetup]
  dsimp only
  split
  · rfl
  have hlink : ∀ name : String, name.endsWith ".tf" = true →
      t.cleanupRawTfArtifacts.linkTarget name = none := fun _ => cleanupRawTfArtifacts_linkTarget
  have hbackend := hlink "nclav_backend.tf" (by decide +kernel)
  have hmodule : (t.cleanupRawTfArtifacts.write "nclav_backend.tf" backendTf).linkTarget
      "nclav_module.tf" = none := by
    rw [linkTarget_write hbackend]
    exact hlink _ (by decide +kernel)
  funext path
  rw [write_files, linkTarget_write hmodule, linkTarget_write hbackend,
    hlink "nclav_outputs.tf" (by decide +kernel), if_neg (by rintro ⟨⟩), write_files, hmodule,
    if_neg (by rintro ⟨⟩), write_files, hbackend, if_neg (by rintro ⟨⟩)]
  rfl

/-- What a raw setup neither removes nor links is what it was. -/
theorem symlinkTfFiles_linkTarget {t₁ : FileTree} {r : Except DriverError Unit}
    (hrun : t.cleanupModuleArtifacts.symlinkTfFiles call.source.path call.source.entries = (t₁, r))
    (hmodule : name ∉ FileTree.moduleNames)
    (hmem : name.endsWith ".tf" = true → name ∉ call.source.names) :
    t₁.linkTarget name = t.linkTarget name := by
  have hsame := FileTree.symlinkTfFiles_of_not_mem call.source.path hmem t.cleanupModuleArtifacts
  rw [hrun, FileTree.cleanupModuleArtifacts_workspace, if_neg fun h => hmodule h.1] at hsame
  exact linkTarget_congr hsame

/-- Where `nclav_backend.tf` links to behind the links of a raw setup. -/
theorem symlinkTfFiles_backend {t₁ : FileTree}
    (hrun : t.cleanupModuleArtifacts.symlinkTfFiles call.source.path call.source.entries =
      (t₁, .ok ())) : t₁.linkTarget "nclav_backend.tf" = call.backendTarget t := by
  rw [Preparation.backendTarget]
  split
  · rename_i entry hfind
    have hname : entry.name = "nclav_backend.tf" := by
      simpa using List.find?_some hfind
    obtain ⟨target, hcanonical, hlink⟩ := FileTree.symlinkTfFiles_of_mem call.source.nodup hrun
      (List.mem_of_find?_eq_some hfind) (by rw [hname]; decide +kernel)
    rw [hname] at hlink
    rw [FileTree.linkTarget, hlink, hcanonical]
    rfl
  · rename_i hfind
    refine symlinkTfFiles_linkTarget hrun (by decide) fun _ hmem => ?_
    obtain ⟨entry, hentry, hname⟩ := List.mem_map.mp hmem
    exact absurd (decide_eq_true hname) (List.find?_eq_none.mp hfind entry hentry)

/-- What a raw setup writes to. -/
theorem prepare_raw_files (hsetup : call.setup = .raw)
    (hlinks : ∀ entry ∈ call.source.entries, entry.name.endsWith ".tf" = true →
      entry.canonical.isOk = true) :
    (call.prepare t).1.files path =
      if t.linkTarget "nclav_context.auto.tfvars" = some path then some call.texts.tfvars
      else if call.backendTarget t = some path then some backendTf
      else t.files path := by
  have hfiles := FileTree.symlinkTfFiles_files call.source.path call.source.entries
    t.cleanupModuleArtifacts
  have hok := (symlinkTfFiles_ok_iff call.source.path t.cleanupModuleArtifacts).mpr hlinks
  rw [Preparation.prepare, hsetup]
  dsimp only
  rcases hrun : t.cleanupModuleArtifacts.symlinkTfFiles call.source.path call.source.entries
    with ⟨t₁, r⟩
  rw [hrun] at hfiles hok
  obtain rfl : r = .ok () := hok
  have htfvars : t₁.linkTarget "nclav_context.auto.tfvars" =
      t.linkTarget "nclav_context.auto.tfvars" :=
    symlinkTfFiles_linkTarget hrun (by decide) fun htf => absurd rfl (tfvars_ne htf)
  have hbackend := symlinkTfFiles_backend hrun
  have hother : (t₁.write "nclav_backend.tf" backendTf).linkTarget "nclav_context.auto.tfvars" =
      t₁.linkTarget "nclav_context.auto.tfvars" :=
    linkTarget_congr (FileTree.write_workspace_of_ne (by decide))
  dsimp only
  rw [write_files, hother, htfvars, write_files, hbackend, hfiles,
    FileTree.cleanupModuleArtifacts_files]

/-- A call that cannot make its links writes nothing. -/
theorem prepare_unlinked_files (hsetup : call.setup = .raw)
    (hlinks : ¬ ∀ entry ∈ call.source.entries, entry.name.endsWith ".tf" = true →
      entry.canonical.isOk = true) : (call.prepare t).1.files = t.files := by
  have hfiles := FileTree.symlinkTfFiles_files call.source.path call.source.entries
    t.cleanupModuleArtifacts
  have hok := mt (symlinkTfFiles_ok_iff call.source.path t.cleanupModuleArtifacts).mp hlinks
  rw [Preparation.prepare, hsetup]
  dsimp only
  rcases hrun : t.cleanupModuleArtifacts.symlinkTfFiles call.source.path call.source.entries
    with ⟨t₁, e | ⟨⟩⟩
  · rw [hrun, FileTree.cleanupModuleArtifacts_files] at hfiles
    exact hfiles
  · rw [hrun] at hok
    exact absurd rfl hok

end

/-- **The user's files are kept** by a call iff it spares them. -/
theorem files_kept_iff (call : FileCall) (t : FileTree) : call.KeepsFiles t ↔ call.Spares t := by
  cases call with
  | teardown => exact iff_of_true (fun _ _ _ _ => rfl) trivial
  | provision call =>
    show (∀ entry ∈ call.source.entries, ∀ path, entry.canonical = .ok path →
      (call.prepare t).1.files path = t.files path) ↔ call.Spares t
    rcases hsetup : call.setup with _ | _
    · by_cases hlinks : ∀ entry ∈ call.source.entries, entry.name.endsWith ".tf" = true →
          entry.canonical.isOk = true
      · rw [Preparation.Spares]
        constructor
        · intro hkeeps _ _ entry hentry path hpath
          have hfile := hkeeps entry hentry path hpath
          rw [prepare_raw_files hsetup hlinks] at hfile
          constructor
          · intro htfvars
            rw [if_pos htfvars] at hfile
            exact hfile.symm
          · intro htfvars hbackend
            rw [if_neg htfvars, if_pos hbackend] at hfile
            exact hfile.symm
        · intro hspares entry hentry path hpath
          obtain ⟨htfvars, hbackend⟩ := hspares hsetup hlinks entry hentry path hpath
          rw [prepare_raw_files hsetup hlinks]
          split
          · rename_i h
            exact (htfvars h).symm
          · rename_i hnot
            split
            · rename_i h
              exact (hbackend hnot h).symm
            · rfl
      · refine iff_of_true (fun _ _ path _ => ?_) fun _ h => absurd h hlinks
        rw [prepare_unlinked_files hsetup hlinks]
    · refine iff_of_true (fun _ _ path _ => ?_) fun h => ?_
      · rw [prepare_module_files hsetup]
      · rw [hsetup] at h
        cases h

/-! ### A file with the name of nclav's own -/

/-- A directory with a backend of its own. -/
def ownBackend : FileTree :=
  ⟨fun path => if path = "a/p/nclav_backend.tf" then some "terraform \x7b\x7d" else none, fun _ => none⟩

/-- **A file is overwritten** whose name is the one of nclav's backend. -/
theorem backend_overwritten :
    ¬ (FileCall.provision (rawCall ["nclav_backend.tf"] (by decide))).KeepsFiles ownBackend := by
  intro hkeeps
  have hfile := hkeeps ⟨"nclav_backend.tf", .ok "a/p/nclav_backend.tf"⟩ (List.mem_cons_self ..)
    "a/p/nclav_backend.tf" rfl
  have hwritten : ((rawCall ["nclav_backend.tf"] (by decide)).prepare ownBackend).1.files
      "a/p/nclav_backend.tf" = some backendTf := by decide +kernel
  rw [show (FileCall.provision (rawCall ["nclav_backend.tf"] (by decide))).run ownBackend =
    ((rawCall ["nclav_backend.tf"] (by decide)).prepare ownBackend).1 from rfl, hwritten] at hfile
  exact absurd hfile (by decide +kernel)

end Nclav
