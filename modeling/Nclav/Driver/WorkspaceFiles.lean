import Nclav.Driver.SourceFiles

/-!
# The files of a workspace

The workspace of a partition outlives the calls that use it. Each call links the `.tf` files of the
partition's directory into it or writes a module, takes away what the other way of doing it left,
and writes its own files. A write goes through a link.
-/

namespace Nclav

/-! ## Files -/

/-- An entry of the workspace. -/
inductive WsEntry : Type where
  | link (target : String)
  | file (content : String)
  deriving DecidableEq

/-- The contents of files by their canonical paths, and the entries of a workspace. -/
structure FileTree : Type where
  files : String → Option String
  workspace : String → Option WsEntry

/-- An entry of a partition's directory, with what `canonicalize` makes of it. -/
structure SourceEntry : Type where
  name : String
  canonical : Except String String

/-- A partition's directory, in the order in which it is read. -/
structure SourceDir : Type where
  path : String
  entries : List SourceEntry
  nodup : (entries.map (·.name)).Nodup

namespace FileTree

variable (t : FileTree)

def setEntry (name : String) (entry : Option WsEntry) : FileTree :=
  { t with workspace := fun n => if n = name then entry else t.workspace n }

/-- `Path::exists`, which follows a link. -/
def exists_ (name : String) : Bool :=
  match t.workspace name with
  | some (.link target) => (t.files target).isSome
  | some (.file _) => true
  | none => false

/-- `std::fs::write` -/
def write (name content : String) : FileTree :=
  match t.workspace name with
  | some (.link target) =>
    { t with files := fun path => if path = target then some content else t.files path }
  | _ => t.setEntry name (some (.file content))

def cleanupRawTfArtifacts : FileTree :=
  { t with workspace := fun name =>
      match t.workspace name with
      | some (.link target) =>
        if name.endsWith ".tf" ∨ name = "nclav_context.auto.tfvars" then none
        else some (.link target)
      | entry => if name = "nclav_context.auto.tfvars" then none else entry }

def cleanupModuleArtifacts : FileTree :=
  ["nclav_module.tf", "nclav_outputs.tf"].foldl
    (fun t name => if t.exists_ name then t.setEntry name none else t) t

/-- A link for each `.tf` file; an entry of its name is replaced. -/
def symlinkTfFiles (dir : String) : List SourceEntry → FileTree → FileTree × Except DriverError Unit
  | [], t => (t, .ok ())
  | entry :: entries, t =>
    if entry.name.endsWith ".tf" then
      match entry.canonical with
      | .error e => (t, .error (.internal s!"canonicalize {joinPath dir entry.name}: {e}"))
      | .ok target => symlinkTfFiles dir entries (t.setEntry entry.name (some (.link target)))
    else symlinkTfFiles dir entries t

end FileTree

/-- Ensure the partition's directory contains no `.tf` files. -/
def SourceDir.checkNoTfFiles (source : SourceDir) : Except DriverError Unit :=
  match source.entries.find? (·.name.endsWith ".tf") with
  | some entry => .error (.tfFilesWithModuleSource source.path entry.name)
  | none => .ok ()

/-- Whether the user writes the `.tf` files or names a module. -/
inductive Setup : Type where
  | raw
  | module_
  deriving DecidableEq

/-- The texts of the files that nclav writes, but for `nclav_backend.tf`. -/
structure Generated : Type where
  tfvars : String
  moduleTf : String
  outputsTf : String

/-- What a call of `provision` finds and writes. -/
structure Preparation : Type where
  setup : Setup
  source : SourceDir
  texts : Generated

/-- The workspace made ready. A call that gets through it goes on with `init`. -/
def Preparation.prepare (call : Preparation) (t : FileTree) : FileTree × Except DriverError Unit :=
  match call.setup with
  | .module_ =>
    match call.source.checkNoTfFiles with
    | .error e => (t, .error e)
    | .ok () =>
      let t := t.cleanupRawTfArtifacts
      let t := t.write "nclav_backend.tf" backendTf
      let t := t.write "nclav_module.tf" call.texts.moduleTf
      (t.write "nclav_outputs.tf" call.texts.outputsTf, .ok ())
  | .raw =>
    let t := t.cleanupModuleArtifacts
    match t.symlinkTfFiles call.source.path call.source.entries with
    | (t, .error e) => (t, .error e)
    | (t, .ok ()) =>
      let t := t.write "nclav_backend.tf" backendTf
      (t.write "nclav_context.auto.tfvars" call.texts.tfvars, .ok ())

/-! ## What each step does to an entry -/

namespace FileTree

variable {t : FileTree} {name name' : String} {content : String}

@[simp] theorem setEntry_files (entry : Option WsEntry) : (t.setEntry name entry).files = t.files :=
  rfl

theorem setEntry_workspace (entry : Option WsEntry) :
    (t.setEntry name entry).workspace name' = if name' = name then entry else t.workspace name' :=
  rfl

/-- A write makes an entry of its name where there is none, and changes no other. -/
theorem write_workspace_of_ne (h : name' ≠ name) :
    (t.write name content).workspace name' = t.workspace name' := by
  rw [write]
  split
  · rfl
  · rw [setEntry_workspace, if_neg h]

theorem write_of_not_link (h : ∀ target, t.workspace name ≠ some (.link target)) :
    t.write name content = t.setEntry name (some (.file content)) := by
  rw [write]
  split
  · rename_i target htarget
    exact absurd htarget (h target)
  · rfl

/-- The file is there after a write. -/
theorem isSome_write : ((t.write name content).workspace name).isSome = true := by
  rw [write]
  split
  · rename_i target htarget
    dsimp only
    rw [htarget]
    rfl
  · rw [setEntry_workspace, if_pos rfl]
    rfl

theorem cleanupRawTfArtifacts_of_tf (h : name.endsWith ".tf" = true)
    (htfvars : name ≠ "nclav_context.auto.tfvars") :
    t.cleanupRawTfArtifacts.workspace name =
      match t.workspace name with
      | some (.link _) => none
      | entry => entry := by
  simp only [cleanupRawTfArtifacts, h, htfvars, true_or, if_true, if_false]

theorem cleanupRawTfArtifacts_tfvars :
    t.cleanupRawTfArtifacts.workspace "nclav_context.auto.tfvars" = none := by
  simp only [cleanupRawTfArtifacts, or_true, if_true]
  rcases t.workspace "nclav_context.auto.tfvars" with _ | _ | _ <;> rfl

/-- The names of a module setup. -/
def moduleNames : List String := ["nclav_module.tf", "nclav_outputs.tf"]

theorem cleanupModuleArtifacts_files : t.cleanupModuleArtifacts.files = t.files := by
  have hstep : ∀ (t : FileTree) (name : String),
      (if t.exists_ name then t.setEntry name none else t).files = t.files := by
    intro t name
    split
    · rfl
    · rfl
  rw [cleanupModuleArtifacts, List.foldl_cons, List.foldl_cons, List.foldl_nil, hstep, hstep]

/-- A file of a module setup goes, unless it is a link that leads nowhere. -/
theorem cleanupModuleArtifacts_workspace : t.cleanupModuleArtifacts.workspace name =
    if name ∈ moduleNames ∧ t.exists_ name = true then none else t.workspace name := by
  have hstep : ∀ (t : FileTree) (n : String),
      (if t.exists_ n then t.setEntry n none else t).workspace name =
        if name = n ∧ t.exists_ n = true then none else t.workspace name := by
    intro t n
    by_cases hexists : t.exists_ n = true
    · simp only [hexists, if_true, and_true, setEntry_workspace]
    · simp only [hexists, Bool.false_eq_true, if_false, and_false]
  have hother : ∀ (t : FileTree) (n n' : String), n' ≠ n →
      (if t.exists_ n then t.setEntry n none else t).exists_ n' = t.exists_ n' := by
    intro t n n' hne
    split
    · rw [exists_, exists_, setEntry_workspace, if_neg hne, setEntry_files]
    · rfl
  rw [cleanupModuleArtifacts, List.foldl_cons, List.foldl_cons, List.foldl_nil, hstep,
    hother _ _ _ (by decide), hstep, moduleNames]
  by_cases hmodule : name = "nclav_module.tf"
  · subst hmodule
    simp
  · by_cases houtputs : name = "nclav_outputs.tf"
    · subst houtputs
      simp
    · simp [hmodule, houtputs]

theorem symlinkTfFiles_files (dir : String) (entries : List SourceEntry) (t : FileTree) :
    (t.symlinkTfFiles dir entries).1.files = t.files := by
  induction entries generalizing t with
  | nil => rfl
  | cons entry entries ih =>
    rw [symlinkTfFiles]
    split
    · split
      · rfl
      · exact ih _
    · exact ih t

/-- A name that no `.tf` file has is not linked. -/
theorem symlinkTfFiles_of_not_mem (dir : String) {entries : List SourceEntry}
    (h : name.endsWith ".tf" = true → name ∉ entries.map (·.name)) (t : FileTree) :
    (t.symlinkTfFiles dir entries).1.workspace name = t.workspace name := by
  induction entries generalizing t with
  | nil => rfl
  | cons entry entries ih =>
    have hrest : name.endsWith ".tf" = true → name ∉ entries.map (·.name) :=
      fun htf hmem => h htf (List.mem_cons_of_mem _ hmem)
    rw [symlinkTfFiles]
    split
    · rename_i htf
      split
      · rfl
      · rw [ih hrest, setEntry_workspace, if_neg]
        rintro rfl
        exact h htf (List.mem_cons_self ..)
    · exact ih hrest t

/-- Where all links can be made there is one for each `.tf` file. -/
theorem symlinkTfFiles_of_mem {dir : String} {entries : List SourceEntry} {t t' : FileTree}
    (hnodup : (entries.map (·.name)).Nodup)
    (h : t.symlinkTfFiles dir entries = (t', .ok ())) {entry : SourceEntry}
    (hentry : entry ∈ entries) (htf : entry.name.endsWith ".tf" = true) :
    ∃ target, entry.canonical = .ok target ∧ t'.workspace entry.name = some (.link target) := by
  induction entries generalizing t with
  | nil => cases hentry
  | cons first entries ih =>
    obtain ⟨hfirst, hnodup⟩ := List.nodup_cons.mp hnodup
    rw [symlinkTfFiles] at h
    rcases List.mem_cons.mp hentry with rfl | hentry
    · rw [if_pos htf] at h
      rcases hcanonical : entry.canonical with e | target
      · rw [hcanonical] at h
        cases h
      · rw [hcanonical] at h
        refine ⟨target, rfl, ?_⟩
        have hlinked := symlinkTfFiles_of_not_mem dir (fun _ => hfirst)
          (t.setEntry entry.name (some (.link target)))
        dsimp only at h
        rw [h] at hlinked
        rw [hlinked, setEntry_workspace, if_pos rfl]
    · split at h
      · split at h
        · cases h
        · exact ih hnodup h hentry
      · exact ih hnodup h hentry

end FileTree

end Nclav
