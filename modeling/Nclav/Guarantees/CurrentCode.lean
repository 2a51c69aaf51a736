import Nclav.Driver.WorkspaceFiles

/-!
# The current code

Terraform reads every `.tf` file of the workspace. A call that is about to run it has taken away
what another setup left, but no link of a file that the user has removed or renamed since.
-/

namespace Nclav

/-! ## The workspace before `init` -/

/-- The names of the files in a partition's directory. -/
def SourceDir.names (source : SourceDir) : List String := source.entries.map (·.name)

namespace Preparation

/-- The `.tf` entries are one link for each `.tf` file and the generated files of the setup; the
variables are there in a raw setup only. -/
def Exact (call : Preparation) (t : FileTree) : Prop :=
  match call.setup with
  | .raw =>
    (∀ name : String, name.endsWith ".tf" = true → (t.workspace name).isSome = true →
      name = "nclav_backend.tf" ∨ name ∈ call.source.names) ∧
    (∀ entry ∈ call.source.entries, entry.name.endsWith ".tf" = true →
      ∃ target, entry.canonical = .ok target ∧ t.workspace entry.name = some (.link target)) ∧
    t.workspace "nclav_backend.tf" = some (.file backendTf) ∧
    (t.workspace "nclav_context.auto.tfvars").isSome = true
  | .module_ =>
    (∀ name : String, name.endsWith ".tf" = true → (t.workspace name).isSome = true →
      name = "nclav_backend.tf" ∨ name ∈ FileTree.moduleNames) ∧
    t.workspace "nclav_backend.tf" = some (.file backendTf) ∧
    t.workspace "nclav_module.tf" = some (.file call.texts.moduleTf) ∧
    t.workspace "nclav_outputs.tf" = some (.file call.texts.outputsTf) ∧
    t.workspace "nclav_context.auto.tfvars" = none

/-- In a raw setup no file of the user has nclav's name for its backend, and every linked `.tf` file
is still there, or has one of the names that are cleaned up and leads somewhere. -/
def Current (call : Preparation) (t : FileTree) : Prop :=
  call.setup = .raw → "nclav_backend.tf" ∉ call.source.names ∧
    ∀ (name : String) target, t.workspace name = some (.link target) → name.endsWith ".tf" = true →
      name ∈ call.source.names ∨ (name ∈ FileTree.moduleNames ∧ (t.files target).isSome = true)

end Preparation

/-- The workspaces that calls lead to which find current code. Between them the user may change all
files, and Terraform what is no `.tf` file and not the variables. -/
inductive Prepared : FileTree → Prop
  | start (files : String → Option String) : Prepared ⟨files, fun _ => none⟩
  | edit {t t' : FileTree} (h : Prepared t)
    (hkept : ∀ name : String, (name.endsWith ".tf" = true ∨ name = "nclav_context.auto.tfvars") →
      t'.workspace name = t.workspace name) : Prepared t'
  | call {t : FileTree} (h : Prepared t) (call : Preparation) (hcurrent : call.Current t) :
    Prepared (call.prepare t).1

/-! ## What is no link -/

/-- The `.tf` entries that are no links are nclav's, and its backend is none. -/
structure OwnFiles (t : FileTree) : Prop where
  file : ∀ (name : String) content, name.endsWith ".tf" = true →
    t.workspace name = some (.file content) → name = "nclav_backend.tf" ∨ name ∈ FileTree.moduleNames
  backend : ∀ target, t.workspace "nclav_backend.tf" ≠ some (.link target)

theorem tfvars_ne {name : String} (h : name.endsWith ".tf" = true) :
    name ≠ "nclav_context.auto.tfvars" := by
  rintro rfl
  exact absurd h (by decide +kernel)

section

variable {t t' : FileTree} {call : Preparation} {name : String}

theorem OwnFiles.cleanupRaw (h : OwnFiles t) : OwnFiles t.cleanupRawTfArtifacts where
  file name content htf hfile := by
    rw [FileTree.cleanupRawTfArtifacts_of_tf htf (tfvars_ne htf)] at hfile
    rcases hentry : t.workspace name with _ | target | text
    · rw [hentry] at hfile
      cases hfile
    · rw [hentry] at hfile
      cases hfile
    · exact h.file name text htf hentry
  backend target hlink := by
    rw [FileTree.cleanupRawTfArtifacts_of_tf (by decide +kernel) (by decide)] at hlink
    rcases hentry : t.workspace "nclav_backend.tf" with _ | target' | text
    · rw [hentry] at hlink
      cases hlink
    · exact h.backend target' hentry
    · rw [hentry] at hlink
      cases hlink

theorem OwnFiles.cleanupModule (h : OwnFiles t) : OwnFiles t.cleanupModuleArtifacts where
  file name content htf hfile := by
    rw [FileTree.cleanupModuleArtifacts_workspace] at hfile
    split at hfile
    · cases hfile
    · exact h.file name content htf hfile
  backend target hlink := by
    rw [FileTree.cleanupModuleArtifacts_workspace, if_neg fun hname => absurd hname.1 (by decide)]
      at hlink
    exact h.backend target hlink

/-- Writing a file of nclav's keeps them. -/
theorem OwnFiles.write (h : OwnFiles t) (content : String)
    (hname : name.endsWith ".tf" = true → name = "nclav_backend.tf" ∨ name ∈ FileTree.moduleNames) :
    OwnFiles (t.write name content) where
  file name' text htf hfile := by
    by_cases hne : name' = name
    · rw [hne] at htf ⊢
      exact hname htf
    · rw [FileTree.write_workspace_of_ne hne] at hfile
      exact h.file name' text htf hfile
  backend target hlink := by
    by_cases hne : "nclav_backend.tf" = name
    · rw [← hne, FileTree.write_of_not_link h.backend, FileTree.setEntry_workspace, if_pos rfl]
        at hlink
      cases hlink
    · rw [FileTree.write_workspace_of_ne hne] at hlink
      exact h.backend target hlink

theorem OwnFiles.symlink (h : OwnFiles t) (dir : String) {entries : List SourceEntry}
    (hbackend : "nclav_backend.tf" ∉ entries.map (·.name)) :
    OwnFiles (t.symlinkTfFiles dir entries).1 := by
  induction entries generalizing t with
  | nil => exact h
  | cons entry entries ih =>
    have hrest : "nclav_backend.tf" ∉ entries.map (·.name) :=
      fun hmem => hbackend (List.mem_cons_of_mem _ hmem)
    rw [FileTree.symlinkTfFiles]
    split
    · split
      · exact h
      · refine ih ⟨fun name text htf hfile => ?_, fun target hlink => ?_⟩ hrest
        · rw [FileTree.setEntry_workspace] at hfile
          split at hfile
          · cases hfile
          · exact h.file name text htf hfile
        · rw [FileTree.setEntry_workspace, if_neg] at hlink
          · exact h.backend target hlink
          · intro heq
            exact hbackend (by rw [heq]; exact List.mem_cons_self ..)
    · exact ih h hrest

theorem OwnFiles.prepare (h : OwnFiles t) (hcurrent : call.Current t) :
    OwnFiles (call.prepare t).1 := by
  rw [Preparation.prepare]
  rcases hsetup : call.setup with _ | _
  · have hlinked := h.cleanupModule.symlink call.source.path (hcurrent hsetup).1
    dsimp only
    rcases hlinks : t.cleanupModuleArtifacts.symlinkTfFiles call.source.path call.source.entries
      with ⟨t', e | ⟨⟩⟩
    · rw [hlinks] at hlinked
      exact hlinked
    · rw [hlinks] at hlinked
      exact (hlinked.write _ fun _ => .inl rfl).write _ fun htf => absurd rfl (tfvars_ne htf)
  · dsimp only
    split
    · exact h
    · have hbackend := h.cleanupRaw.write backendTf fun _ => .inl rfl
      exact (hbackend.write _ fun _ => .inr (List.mem_cons_self ..)).write _
        fun _ => .inr (List.mem_cons_of_mem _ (List.mem_cons_self ..))

theorem Prepared.ownFiles (h : Prepared t) : OwnFiles t := by
  induction h with
  | start => exact ⟨nofun, nofun⟩
  | edit _ hkept ih =>
    refine ⟨fun name content htf hfile => ?_, fun target hlink => ?_⟩
    · rw [hkept name (.inl htf)] at hfile
      exact ih.file name content htf hfile
    · rw [hkept _ (.inl (by decide +kernel))] at hlink
      exact ih.backend target hlink
  | call _ call hcurrent ih => exact ih.prepare hcurrent

/-! ## A call that gets through -/

/-- A module setup leaves its three files. -/
theorem OwnFiles.exact_module (h : OwnFiles t) (hsetup : call.setup = .module_)
    (hrun : call.prepare t = (t', .ok ())) : call.Exact t' := by
  rw [Preparation.prepare, hsetup] at hrun
  dsimp only at hrun
  split at hrun
  · cases hrun
  obtain ⟨rfl, -⟩ := Prod.mk.inj hrun
  -- no entry that is written is a link any more
  have hlink : ∀ name : String, name.endsWith ".tf" = true →
      ∀ target, t.cleanupRawTfArtifacts.workspace name ≠ some (.link target) := by
    intro name htf target hlink
    rw [FileTree.cleanupRawTfArtifacts_of_tf htf (tfvars_ne htf)] at hlink
    rcases hentry : t.workspace name with _ | _ | _ <;> rw [hentry] at hlink <;> cases hlink
  have hwrites : ∀ name : String, ((((t.cleanupRawTfArtifacts.write "nclav_backend.tf" backendTf).write
      "nclav_module.tf" call.texts.moduleTf).write "nclav_outputs.tf"
        call.texts.outputsTf).workspace name) =
      if name = "nclav_outputs.tf" then some (.file call.texts.outputsTf)
      else if name = "nclav_module.tf" then some (.file call.texts.moduleTf)
      else if name = "nclav_backend.tf" then some (.file backendTf)
      else t.cleanupRawTfArtifacts.workspace name := by
    intro name
    have hbackend : t.cleanupRawTfArtifacts.write "nclav_backend.tf" backendTf = _ :=
      FileTree.write_of_not_link (hlink "nclav_backend.tf" (by decide +kernel))
    rw [hbackend, FileTree.write_of_not_link, FileTree.write_of_not_link]
    · simp only [FileTree.setEntry_workspace]
    · intro target
      rw [FileTree.setEntry_workspace, if_neg (by decide)]
      exact hlink _ (by decide +kernel) target
    · intro target
      rw [FileTree.write_workspace_of_ne (by decide), FileTree.setEntry_workspace,
        if_neg (by decide)]
      exact hlink _ (by decide +kernel) target
  rw [Preparation.Exact, hsetup]
  refine ⟨fun name htf hsome => ?_, ?_, ?_, ?_, ?_⟩
  · rw [hwrites] at hsome
    split at hsome
    · rename_i heq
      exact .inr (by rw [heq]; decide)
    · split at hsome
      · rename_i heq
        exact .inr (by rw [heq]; decide)
      · split at hsome
        · rename_i heq
          exact .inl heq
        · obtain ⟨entry, hentry⟩ := Option.isSome_iff_exists.mp hsome
          cases entry with
          | link target => exact absurd hentry (hlink name htf target)
          | file content => exact h.cleanupRaw.file name content htf hentry
  · rw [hwrites]
    rfl
  · rw [hwrites]
    rfl
  · rw [hwrites]
    rfl
  · rw [hwrites]
    exact FileTree.cleanupRawTfArtifacts_tfvars

/-- A raw setup that gets through: the links are made, and nclav's two files written over them. -/
structure Preparation.Linked (call : Preparation) (t t₁ t' : FileTree) : Prop where
  links : t.cleanupModuleArtifacts.symlinkTfFiles call.source.path call.source.entries = (t₁, .ok ())
  written : t' =
    (t₁.write "nclav_backend.tf" backendTf).write "nclav_context.auto.tfvars" call.texts.tfvars

theorem Preparation.exists_linked (hsetup : call.setup = .raw)
    (hrun : call.prepare t = (t', .ok ())) : ∃ t₁, call.Linked t t₁ t' := by
  rw [Preparation.prepare, hsetup] at hrun
  dsimp only at hrun
  rcases hlinks : t.cleanupModuleArtifacts.symlinkTfFiles call.source.path call.source.entries
    with ⟨t₁, e | ⟨⟩⟩
  · rw [hlinks] at hrun
    cases hrun
  rw [hlinks] at hrun
  exact ⟨t₁, hlinks, (Prod.mk.inj hrun).1.symm⟩

namespace Preparation.Linked

variable {t₁ : FileTree}

/-- The links are made for the files only. -/
theorem of_not_mem (h : call.Linked t t₁ t') (hmem : name ∉ call.source.names) :
    t₁.workspace name = t.cleanupModuleArtifacts.workspace name := by
  have hsame := FileTree.symlinkTfFiles_of_not_mem call.source.path (fun _ => hmem)
    t.cleanupModuleArtifacts
  rw [h.links] at hsame
  exact hsame

theorem of_ne (h : call.Linked t t₁ t') (htf : name.endsWith ".tf" = true)
    (hne : name ≠ "nclav_backend.tf") : t'.workspace name = t₁.workspace name := by
  rw [h.written, FileTree.write_workspace_of_ne (tfvars_ne htf), FileTree.write_workspace_of_ne hne]

/-- A link that is not one of the files' keeps the workspace from being exact. -/
theorem current_of_exact (h : call.Linked t t₁ t') (hfiles : OwnFiles t) (hsetup : call.setup = .raw)
    (hexact : call.Exact t') : call.Current t := by
  rw [Preparation.Exact, hsetup] at hexact
  obtain ⟨hnames, hentries, hbackend, -⟩ := hexact
  intro _
  have hown : "nclav_backend.tf" ∉ call.source.names := by
    intro hmem
    obtain ⟨entry, hentry, hname⟩ := List.mem_map.mp hmem
    have htf : entry.name.endsWith ".tf" = true := by rw [hname]; decide +kernel
    obtain ⟨target, -, hlink⟩ := hentries entry hentry htf
    rw [hname, hbackend] at hlink
    cases hlink
  refine ⟨hown, fun name target hlink htf => ?_⟩
  by_contra hstale
  rw [not_or] at hstale
  have hne : name ≠ "nclav_backend.tf" := by
    rintro rfl
    exact hfiles.backend target hlink
  -- a stale link is still there
  have hkept : t'.workspace name = some (.link target) := by
    rw [h.of_ne htf hne, h.of_not_mem hstale.1, FileTree.cleanupModuleArtifacts_workspace,
      if_neg, hlink]
    rintro ⟨hmodule, hexists⟩
    rw [FileTree.exists_, hlink] at hexists
    exact hstale.2 ⟨hmodule, hexists⟩
  rcases hnames name htf (by rw [hkept]; rfl) with heq | hmem
  · exact hne heq
  · exact hstale.1 hmem

/-- Every entry that is left is a link of one of the files, or nclav's backend. -/
theorem exact_of_current (h : call.Linked t t₁ t') (hfiles : OwnFiles t) (hsetup : call.setup = .raw)
    (hcurrent : call.Current t) : call.Exact t' := by
  have hbackendTf : ("nclav_backend.tf" : String).endsWith ".tf" = true := by decide +kernel
  rw [Preparation.Exact, hsetup]
  obtain ⟨hown, hlinked⟩ := hcurrent hsetup
  have hbackend : ∀ target, t₁.workspace "nclav_backend.tf" ≠ some (.link target) := by
    intro target hlink
    rw [h.of_not_mem hown] at hlink
    exact hfiles.cleanupModule.backend target hlink
  refine ⟨fun name htf hsome => ?_, fun entry hentry htf => ?_, ?_,
    h.written ▸ FileTree.isSome_write⟩
  · by_contra hnot
    rw [not_or] at hnot
    rw [h.of_ne htf hnot.1, h.of_not_mem hnot.2,
      FileTree.cleanupModuleArtifacts_workspace] at hsome
    split at hsome
    · cases hsome
    rename_i hgone
    obtain ⟨entry, hentry⟩ := Option.isSome_iff_exists.mp hsome
    cases entry with
    | link target =>
      rcases hlinked name target hentry htf with hmem | ⟨hmodule, hexists⟩
      · exact hnot.2 hmem
      · exact hgone ⟨hmodule, by rw [FileTree.exists_, hentry]; exact hexists⟩
    | file content =>
      rcases hfiles.file name content htf hentry with heq | hmodule
      · exact hnot.1 heq
      · exact hgone ⟨hmodule, by rw [FileTree.exists_, hentry]⟩
  · obtain ⟨target, hcanonical, hlink⟩ :=
      FileTree.symlinkTfFiles_of_mem call.source.nodup h.links hentry htf
    refine ⟨target, hcanonical, ?_⟩
    rw [h.of_ne htf, hlink]
    intro heq
    exact hown (by rw [← heq]; exact List.mem_map_of_mem hentry)
  · rw [h.written, FileTree.write_workspace_of_ne (tfvars_ne hbackendTf),
      FileTree.write_of_not_link hbackend, FileTree.setEntry_workspace, if_pos rfl]

end Preparation.Linked

/-- A raw setup leaves the links of its files iff it found current code. -/
theorem OwnFiles.exact_raw_iff (h : OwnFiles t) (hsetup : call.setup = .raw)
    (hrun : call.prepare t = (t', .ok ())) : call.Exact t' ↔ call.Current t := by
  obtain ⟨t₁, hlinked⟩ := Preparation.exists_linked hsetup hrun
  exact ⟨hlinked.current_of_exact h hsetup, hlinked.exact_of_current h hsetup⟩

end

/-- **Current code.** In every history of calls that find current code, with edits of the user and
of Terraform between them: the next call that gets through leaves exactly the files of its setup iff
it finds current code as well. -/
theorem exact_iff_current {t t' : FileTree} {call : Preparation} (h : Prepared t)
    (hrun : call.prepare t = (t', .ok ())) : call.Exact t' ↔ call.Current t := by
  rcases hsetup : call.setup with _ | _
  · exact h.ownFiles.exact_raw_iff hsetup hrun
  · refine iff_of_true (h.ownFiles.exact_module hsetup hrun) fun hraw => ?_
    rw [hsetup] at hraw
    cases hraw

/-! ### A file that was removed -/

/-- A directory with these files. -/
def sourceOf (names : List String) (h : names.Nodup) : SourceDir where
  path := "a/p"
  entries := names.map fun name => ⟨name, .ok (joinPath "a/p" name)⟩
  nodup := by simpa [Function.comp_def] using h

def rawCall (names : List String) (h : names.Nodup) : Preparation :=
  ⟨.raw, sourceOf names h, ⟨"", "", ""⟩⟩

/-- Nothing is there yet. -/
def emptyTree : FileTree := ⟨fun _ => none, fun _ => none⟩

/-- The workspace after a first call. -/
def linkedTree : FileTree := ((rawCall ["main.tf", "old.tf"] (by decide)).prepare emptyTree).1

/-- A call with one file more. -/
def widerCall : Preparation := rawCall ["main.tf", "new.tf", "old.tf"] (by decide)

/-- The call after a first one that finds its files and a new one. -/
theorem exact_again : widerCall.Exact (widerCall.prepare linkedTree).1 := by
  have hempty : (rawCall ["main.tf", "old.tf"] (by decide)).Current emptyTree :=
    fun _ => ⟨by decide, nofun⟩
  have hlinked : (rawCall ["main.tf", "old.tf"] (by decide)).Exact linkedTree :=
    (exact_iff_current (t := emptyTree) (.start _) (Prod.ext rfl (by decide +kernel))).mpr hempty
  refine (exact_iff_current (.call (.start _) _ hempty)
    (Prod.ext rfl (by decide +kernel) : widerCall.prepare linkedTree = (_, .ok ()))).mpr
    fun _ => ⟨by decide, fun name target hlink htf => .inl ?_⟩
  obtain ⟨hnames, -, hbackend, -⟩ := hlinked
  have hlink' : linkedTree.workspace name = some (.link target) := hlink
  rcases hnames name htf (by rw [hlink']; rfl) with rfl | hname
  · rw [hbackend] at hlink'
    cases hlink'
  · rcases List.mem_cons.mp hname with rfl | hname
    · exact List.mem_cons_self ..
    · rw [List.mem_singleton.mp hname]
      decide

/-- **A file is removed** from the partition's directory, and its link is still in the workspace when
the next call gets through. -/
theorem stale_link : Prepared linkedTree ∧
    ∃ t', (rawCall ["main.tf"] (by decide)).prepare linkedTree = (t', .ok ()) ∧
      t'.workspace "old.tf" = some (.link "a/p/old.tf") ∧
      ¬ (rawCall ["main.tf"] (by decide)).Exact t' := by
  have hold : ((rawCall ["main.tf"] (by decide)).prepare linkedTree).1.workspace "old.tf" =
      some (.link "a/p/old.tf") := by decide +kernel
  refine ⟨.call (.start _) _ fun _ => ⟨by decide, nofun⟩, _, Prod.ext rfl (by decide +kernel), hold,
    fun hexact => ?_⟩
  rcases hexact.1 "old.tf" (by decide +kernel) (by rw [hold]; rfl) with h | h
  · exact absurd h (by decide)
  · exact absurd h (by decide)

end Nclav
