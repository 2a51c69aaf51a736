import Nclav.Driver.Workspace

/-!
# What an apply reads

`TerraformBackend::provision` makes a workspace for the partition before it runs `init` and `apply`
in it. The `.tf` files that the user wrote are linked into it, not copied, and `nclav_backend.tf` is
written next to them. So an apply reads the files of the partition's directory as they are when it
runs (`reads_of_prepare`).
-/

namespace Nclav

/-- A file of a workspace: a link to the file of its name in a directory, or one that nclav wrote. -/
inductive WorkspaceFile : Type where
  | link (dir : String)
  | generated
  deriving DecidableEq

/-- The directories of the partitions and the workspaces, by path; files by name. -/
structure Disk : Type where
  sources : String → HashMap String String
  workspaces : String → HashMap String WorkspaceFile

/-- The text of `nclav_backend.tf`. -/
def backendTf : String :=
  "# Generated by nclav — do not edit\nterraform \x7b\n  backend \"http\" \x7b\x7d\n\x7d\n"

namespace Disk

def setSources (d : Disk) (dir : String) (files : HashMap String String) : Disk :=
  { d with sources := fun path => if path = dir then files else d.sources path }

def setWorkspace (d : Disk) (workspace : String) (files : HashMap String WorkspaceFile) : Disk :=
  { d with workspaces := fun path => if path = workspace then files else d.workspaces path }

/-- `Path::exists` of a file of a workspace; it follows a link. -/
def exists_ (d : Disk) (workspace name : String) : Bool :=
  match (d.workspaces workspace)[name]? with
  | some (.link dir) => (d.sources dir).contains name
  | some .generated => true
  | none => false

def removeFile (d : Disk) (workspace name : String) : Disk :=
  d.setWorkspace workspace ((d.workspaces workspace).erase name)

/-- Write a file of nclav's whose name no link has; its text is not looked at here. -/
def generate (d : Disk) (workspace name : String) : Disk :=
  d.setWorkspace workspace ((d.workspaces workspace).insert name .generated)

/-- Write a file of nclav's into a workspace. Where there is a link of its name the write goes
through it. -/
def write (d : Disk) (workspace name content : String) : Disk :=
  match (d.workspaces workspace)[name]? with
  | some (.link dir) => d.setSources dir ((d.sources dir).insert name content)
  | _ => d.generate workspace name

/-- Ensure the partition source directory contains no `.tf` files. -/
def checkNoTfFiles (d : Disk) (dir : String) : Except DriverError Unit :=
  match (d.sources dir).toList.find? (·.1.endsWith ".tf") with
  | some (file, _) => .error (.tfFilesWithModuleSource dir file)
  | none => .ok ()

/-- Remove the links and the variables of a previous raw setup. -/
def cleanupRawTfArtifacts (d : Disk) (workspace : String) : Disk :=
  d.setWorkspace workspace ((d.workspaces workspace).filter fun name file =>
    !((name.endsWith ".tf" && file ≠ .generated) || name == "nclav_context.auto.tfvars"))

/-- Remove the files of a previous module setup. -/
def cleanupModuleArtifacts (d : Disk) (workspace : String) : Disk :=
  ["nclav_module.tf", "nclav_outputs.tf"].foldl
    (fun d name => if d.exists_ workspace name then d.removeFile workspace name else d) d

/-- Link all `.tf` files of a directory into a workspace; a link of the name is replaced. -/
def symlinkTfFiles (d : Disk) (workspace sourceDir : String) : Disk :=
  d.setWorkspace workspace
    (((d.sources sourceDir).toList.filter (·.1.endsWith ".tf")).foldl
      (fun files entry => files.insert entry.1 (.link sourceDir)) (d.workspaces workspace))

/-- The workspace of a partition, made ready for `init` and `apply`. -/
def prepare (host : Host) (d : Disk) (enc : Enclave) (part : Partition) :
    Except DriverError Disk :=
  let workspace := TerraformBackend.workspaceDir host enc.id.val part.id.val
  let tfConfig := (TerraformBackend.extractTfConfig part).2
  match tfConfig.source with
  | some _ => do
    d.checkNoTfFiles tfConfig.dir
    let d := d.cleanupRawTfArtifacts workspace
    let d := d.write workspace "nclav_backend.tf" backendTf
    let d := d.generate workspace "nclav_module.tf"
    return d.generate workspace "nclav_outputs.tf"
  | none =>
    let d := d.cleanupModuleArtifacts workspace
    let d := d.symlinkTfFiles workspace tfConfig.dir
    let d := d.write workspace "nclav_backend.tf" backendTf
    return d.generate workspace "nclav_context.auto.tfvars"

/-- What a subprocess in the workspace reads of a file of a directory. -/
def reads (d : Disk) (workspace dir name : String) : Option String :=
  if (d.workspaces workspace)[name]? = some (.link dir) then (d.sources dir)[name]? else none

end Disk

/-! ## The files that are read -/

/-- A file that the user wrote: `nclav_backend.tf` is nclav's wherever it is. -/
def IsSource (name : String) : Prop := name.endsWith ".tf" = true ∧ name ≠ "nclav_backend.tf"

namespace Disk

section

variable {host : Host} {d d' : Disk} {enc : Enclave} {part : Partition} {workspace dir name : String}

/-- Between the two nothing changed that a user wrote. -/
def SameSources (d d' : Disk) : Prop :=
  ∀ dir name, IsSource name → (d'.sources dir)[name]? = (d.sources dir)[name]?

theorem SameSources.refl (d : Disk) : d.SameSources d := fun _ _ _ => rfl

theorem SameSources.trans {d'' : Disk} (h : d.SameSources d') (h' : d'.SameSources d'') :
    d.SameSources d'' := fun dir name hname => (h' dir name hname).trans (h dir name hname)

@[simp] theorem setWorkspace_sources (files : HashMap String WorkspaceFile) :
    (d.setWorkspace workspace files).sources = d.sources := rfl

@[simp] theorem setWorkspace_workspaces (files : HashMap String WorkspaceFile) :
    (d.setWorkspace workspace files).workspaces workspace = files := if_pos rfl

theorem setSources_self (files : HashMap String String) :
    (d.setSources dir files).sources dir = files := if_pos rfl

theorem setSources_of_ne {dir' : String} (h : dir ≠ dir') (files : HashMap String String) :
    (d.setSources dir' files).sources dir = d.sources dir := if_neg h

theorem sources_cleanupModuleArtifacts :
    (d.cleanupModuleArtifacts workspace).sources = d.sources := by
  have hstep : ∀ (d : Disk) (name : String),
      (if d.exists_ workspace name then d.removeFile workspace name else d).sources = d.sources := by
    intro d name
    split
    · rfl
    · rfl
  rw [cleanupModuleArtifacts, List.foldl_cons, List.foldl_cons, List.foldl_nil, hstep, hstep]

/-- `nclav_backend.tf` is no source, so what is written is none. -/
theorem sameSources_writeBackend :
    d.SameSources (d.write workspace "nclav_backend.tf" backendTf) := by
  intro dir name hname
  rw [write]
  split
  · rename_i dir' _
    by_cases hdir : dir = dir'
    · rw [hdir, setSources_self, HashMap.get?_insert, if_neg hname.2]
    · rw [setSources_of_ne hdir]
  · rfl

/-- What is linked of a directory stays linked: nclav writes over no link of a source. -/
theorem reads_writeBackend (hname : IsSource name) :
    (d.write workspace "nclav_backend.tf" backendTf).reads workspace dir name =
      d.reads workspace dir name := by
  rw [reads, reads, sameSources_writeBackend dir name hname, write]
  split
  · rfl
  · rw [generate, setWorkspace_workspaces, HashMap.get?_insert, if_neg hname.2]

theorem reads_generate {file : String} (hne : name ≠ file) :
    (d.generate workspace file).reads workspace dir name = d.reads workspace dir name := by
  rw [reads, reads, generate, setWorkspace_workspaces, setWorkspace_sources, HashMap.get?_insert,
    if_neg hne]

theorem get?_foldl_insert {V : Type} (entries : List (String × String)) (v : V)
    (m : HashMap String V) :
    (entries.foldl (fun m entry => m.insert entry.1 v) m)[name]? =
      if name ∈ entries.map (·.1) then some v else m[name]? := by
  induction entries generalizing m with
  | nil => rfl
  | cons entry entries ih =>
    rw [List.foldl_cons, ih, HashMap.get?_insert, List.map_cons]
    by_cases hrest : name ∈ entries.map (·.1)
    · rw [if_pos hrest, if_pos (List.mem_cons_of_mem _ hrest)]
    · rw [if_neg hrest]
      by_cases hhead : name = entry.1
      · rw [if_pos hhead, if_pos (by rw [hhead]; exact List.mem_cons_self ..)]
      · rw [if_neg hhead, if_neg fun h => (List.mem_cons.mp h).elim hhead hrest]

/-- After linking, the workspace reads the directory: a file that is there is linked, and the link
of one that is gone leads nowhere. -/
theorem reads_symlinkTfFiles (hname : name.endsWith ".tf" = true) :
    (d.symlinkTfFiles workspace dir).reads workspace dir name = (d.sources dir)[name]? := by
  rw [reads, symlinkTfFiles, setWorkspace_workspaces, setWorkspace_sources, get?_foldl_insert]
  rcases hfile : (d.sources dir)[name]? with _ | content
  · exact ite_self none
  · have hmem : name ∈ ((d.sources dir).toList.filter (·.1.endsWith ".tf")).map (·.1) := by
      refine List.mem_map.mpr ⟨(name, content), List.mem_filter.mpr ⟨?_, hname⟩, rfl⟩
      exact Std.ExtTreeMap.mem_toList_iff_getElem?_eq_some.mpr hfile
    rw [if_pos hmem, if_pos rfl]

theorem sameSources_prepare (h : d.prepare host enc part = .ok d') : d.SameSources d' := by
  simp only [prepare] at h
  split at h
  · rcases hcheck : d.checkNoTfFiles (TerraformBackend.extractTfConfig part).2.dir with e | ⟨⟩
    · rw [hcheck] at h
      cases h
    · rw [hcheck] at h
      obtain rfl := Except.ok.inj h
      exact sameSources_writeBackend
  · obtain rfl := Except.ok.inj h
    intro dir name hname
    refine (sameSources_writeBackend dir name hname).trans ?_
    rw [symlinkTfFiles, setWorkspace_sources, sources_cleanupModuleArtifacts]

/-- **What an apply reads** of the partition's directory is what is there, when the user writes the
`.tf` files. -/
theorem reads_of_prepare (h : d.prepare host enc part = .ok d')
    (hraw : (TerraformBackend.extractTfConfig part).2.source = none) (hname : IsSource name) :
    d'.reads (TerraformBackend.workspaceDir host enc.id.val part.id.val)
      (TerraformBackend.extractTfConfig part).2.dir name =
        (d.sources (TerraformBackend.extractTfConfig part).2.dir)[name]? := by
  have hvars : name ≠ "nclav_context.auto.tfvars" := by
    rintro rfl
    exact absurd hname.1 (by decide +kernel)
  simp only [prepare, hraw] at h
  obtain rfl := Except.ok.inj h
  rw [reads_generate hvars, reads_writeBackend hname, reads_symlinkTfFiles hname.1,
    sources_cleanupModuleArtifacts]

/-- The workspace of a partition whose files the user writes is always made. -/
theorem exists_prepare (d : Disk) (hraw : (TerraformBackend.extractTfConfig part).2.source = none) :
    ∃ d', d.prepare host enc part = .ok d' := by
  simp only [prepare, hraw]
  exact ⟨_, rfl⟩

end

end Disk

end Nclav
