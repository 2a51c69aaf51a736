import Nclav.Guarantees.Schedule

/-!
# What validation accepts

The checks of a list of enclaves, laid out in the order of the loop: the required outputs of
each partition, the type of each enclave export, the imports of the enclave and those of its
partitions. With distinct ids a list is accepted exactly when no check is violated and the
imports have no cycle; otherwise the error names all violations.
-/

namespace Nclav

/-! ## The checks -/

/-- What is checked of a list of enclaves. -/
inductive Check : Type where
  /-- a partition declares an output that its kind requires -/
  | output (part : Partition) (produces : ProducesType) (key : String)
  /-- an enclave export has the type of what its target produces -/
  | exportType (enc : Enclave) (ex : Export)
  /-- an import, of the enclave itself or of a partition, is admitted -/
  | admission (enc : Enclave) (part : Option Partition) (im : Import)

/-- The imports of an enclave with the partition that declares them. -/
def Enclave.importSites (enc : Enclave) : List (Option Partition × Import) :=
  enc.imports.map (none, ·) ++ enc.partitions.flatMap fun part => part.imports.map (some part, ·)

/-- The checks of one enclave. -/
def Enclave.checks (enc : Enclave) : List Check :=
  (enc.partitions.flatMap fun part => part.produces.toList.flatMap fun produces =>
      produces.requiredOutputs.map (.output part produces)) ++
    enc.exports.map (.exportType enc) ++
    enc.importSites.map fun site => .admission enc site.1 site.2

/-- The error of a check that is violated. -/
def Check.violation (enclaves : List Enclave) : Check → Option GraphError
  | .output part produces key =>
    if key ∈ part.declaredOutputs then none
    else some (.missingRequiredOutput part.id (toString produces) key)
  | .exportType enc ex =>
    match enc.partitions.find? (·.id = ex.targetPartition) with
    | none => none
    | some part =>
      match part.produces with
      | none => none
      | some produces =>
        if ex.exportType = .ofProduces produces then none
        else some (.producesExportMismatch part.id (toString produces) ex.name
          (toString ex.exportType))
  | .admission enc _ im =>
    match enclaves.find? (·.id = im.from_) with
    | none => some (.danglingImportEnclave enc.id im.from_)
    | some source =>
      match source.exports.find? (·.name = im.exportName) with
      | none => some (.danglingImportExport enc.id im.from_ im.exportName)
      | some ex =>
        if ex.to_.permitted enc.id then none
        else some (.accessDenied enc.id im.from_ im.exportName)

/-- The violations of a list, in the order of the checks. -/
def violations (enclaves : List Enclave) : List GraphError :=
  (enclaves.flatMap Enclave.checks).filterMap (Check.violation enclaves)

/-- The wiring of a declared import. The level of an import is the id of its partition, and the
empty id stands for the enclave. -/
def siteWiring (enc : Enclave) (site : Option Partition × Import) : CrossEnclaveWiring where
  importerEnclave := enc.id
  importerPartition := (site.1.map (·.id)).filter (·.val ≠ "")
  exporterEnclave := site.2.from_
  exportName := site.2.exportName

/-- The wirings of a list, one for each declared import. -/
def declaredWiring (enclaves : List Enclave) : List CrossEnclaveWiring :=
  enclaves.flatMap fun enc => enc.importSites.map (siteWiring enc)

/-! ## The loop collects the violations -/

section

variable {enclaves : List Enclave}

/-- With distinct ids the last enclave of an id is the first. -/
theorem get?_byId_eq_find? (hnodup : (enclaves.map (·.id)).Nodup) (id : EnclaveId) :
    (byId enclaves)[id]? = enclaves.find? (·.id = id) := by
  rcases hfind : enclaves.find? (·.id = id) with _ | enc
  · rw [hfind, get?_byId, List.find?_eq_none]
    exact fun enc henc => List.find?_eq_none.mp hfind enc (List.mem_reverse.mp henc)
  · have hid : enc.id = id := by simpa using List.find?_some hfind
    rw [hfind, ← hid]
    exact get?_byId_of_mem hnodup (List.mem_of_find?_eq_some hfind)

theorem violations_output (part : Partition) :
    ((part.produces.toList.flatMap fun produces =>
      produces.requiredOutputs.map (Check.output part produces)).filterMap
        (Check.violation enclaves)) = outputErrors part := by
  rw [outputErrors]
  cases part.produces with
  | none => rfl
  | some produces =>
    simp only [Option.toList_some, List.flatMap_singleton]
    induction produces.requiredOutputs with
    | nil => rfl
    | cons key keys ih =>
      rw [List.map_cons, List.filterMap_cons, List.filter_cons, ih]
      by_cases hkey : key ∈ part.declaredOutputs
      · simp [Check.violation, hkey]
      · simp [Check.violation, hkey]

theorem violation_exportType (enc : Enclave) (ex : Export) :
    (Check.violation enclaves (.exportType enc ex)).toList = exportErrors enc ex := by
  rw [Check.violation, exportErrors]
  simp only [beq_eq_decide]
  cases enc.partitions.find? (·.id = ex.targetPartition) with
  | none => rfl
  | some part =>
    simp only
    cases part.produces with
    | none => rfl
    | some produces =>
      simp only
      by_cases htype : ex.exportType = .ofProduces produces
      · rw [if_pos htype, if_pos htype.symm]
        rfl
      · rw [if_neg htype, if_neg (Ne.symm htype)]
        rfl

/-- The check of an import, as the loop makes it. -/
def siteCheck (enclaves : List Enclave) (enc : Enclave) (site : Option Partition × Import) :
    Except GraphError CrossEnclaveWiring :=
  match site.1 with
  | none => checkImport enc site.2 (byId enclaves)
  | some part => checkImportPartition enc part.id site.2 (byId enclaves)

theorem importChecks_eq (enc : Enclave) :
    importChecks (byId enclaves) enc = enc.importSites.map (siteCheck enclaves enc) := by
  rw [importChecks, Enclave.importSites, List.map_append, List.map_map, List.map_flatMap]
  simp only [List.map_map]
  rfl

/-- The check of an import is refused with its violation, or wired. -/
theorem siteCheck_eq (hnodup : (enclaves.map (·.id)).Nodup) (enc : Enclave)
    (site : Option Partition × Import) :
    siteCheck enclaves enc site =
      match Check.violation enclaves (.admission enc site.1 site.2) with
      | some e => .error e
      | none => .ok (siteWiring enc site) := by
  obtain ⟨part, im⟩ := site
  have hcheck : ∀ pid : PartitionId, checkImportPartition enc pid im (byId enclaves) =
      match Check.violation enclaves (.admission enc part im) with
      | some e => .error e
      | none => .ok
        { importerEnclave := enc.id
          importerPartition := if pid.val.isEmpty then none else some pid
          exporterEnclave := im.from_
          exportName := im.exportName } := by
    intro pid
    rw [checkImportPartition, get?_byId_eq_find? hnodup, Check.violation]
    simp only [beq_eq_decide]
    cases enclaves.find? (·.id = im.from_) with
    | none => rfl
    | some source =>
      simp only
      cases source.exports.find? (·.name = im.exportName) with
      | none => rfl
      | some ex =>
        simp only
        by_cases hperm : ex.to_.permitted enc.id = true
        · rw [if_pos hperm, if_pos hperm]
        · rw [if_neg hperm, if_neg hperm]
  cases part with
  | none =>
    rw [siteCheck, checkImport, hcheck]
    cases Check.violation enclaves (.admission enc none im) with
    | none => rfl
    | some e => rfl
  | some part =>
    refine (hcheck part.id).trans ?_
    cases Check.violation enclaves (.admission enc (some part) im) with
    | none =>
      simp only [siteWiring, Option.map_some, Option.filter_some]
      by_cases hempty : part.id.val = ""
      · simp [hempty]
      · simp [hempty]
    | some e => rfl

theorem validationErrors_eq (hnodup : (enclaves.map (·.id)).Nodup) :
    validationErrors enclaves = violations enclaves := by
  rw [validationErrors, violations, List.filterMap_flatMap]
  refine List.flatMap_congr fun enc _ => ?_
  rw [Enclave.checks, List.filterMap_append, List.filterMap_append, List.filterMap_flatMap,
    importChecks_eq, List.filterMap_map, List.filterMap_map, List.filterMap_map]
  congr 1
  · congr 1
    · exact List.flatMap_congr fun part _ => (violations_output part).symm
    · rw [List.filterMap_eq_flatMap_toList]
      exact List.flatMap_congr fun ex _ => (violation_exportType enc ex).symm
  · refine List.filterMap_congr fun site _ => ?_
    rw [Function.comp_apply, Function.comp_apply, siteCheck_eq hnodup]
    cases Check.violation enclaves (.admission enc site.1 site.2) with
    | none => rfl
    | some e => rfl

/-- Without violations every import is wired. -/
theorem validWiring_eq (hnodup : (enclaves.map (·.id)).Nodup) (hnone : violations enclaves = []) :
    validWiring enclaves = declaredWiring enclaves := by
  refine List.flatMap_congr fun enc henc => ?_
  rw [importChecks_eq, List.filterMap_map]
  have hsite : ∀ site ∈ enc.importSites,
      (Except.toOption ∘ siteCheck enclaves enc) site = some (siteWiring enc site) := by
    intro site hsite
    have hcheck : Check.admission enc site.1 site.2 ∈ enclaves.flatMap Enclave.checks :=
      List.mem_flatMap.mpr ⟨enc, henc, List.mem_append_right _ (List.mem_map.mpr ⟨site, hsite, rfl⟩)⟩
    have hviolation := List.filterMap_eq_nil_iff.mp hnone _ hcheck
    rw [Function.comp_apply, siteCheck_eq hnodup, hviolation]
    rfl
  rw [List.filterMap_congr hsite, List.filterMap_eq_map']

/-! ## What the checks say -/

variable (enclaves) in
/-- Every partition declares the outputs that its kind requires. -/
def OutputsDeclared : Prop :=
  ∀ enc ∈ enclaves, ∀ part ∈ enc.partitions, ∀ produces, part.produces = some produces →
    ∀ key ∈ produces.requiredOutputs, key ∈ part.declaredOutputs

variable (enclaves) in
/-- Every enclave export has the type of what the first partition of its target's id produces. -/
def ExportTypesMatch : Prop :=
  ∀ enc ∈ enclaves, ∀ ex ∈ enc.exports, ∀ part,
    enc.partitions.find? (·.id = ex.targetPartition) = some part →
      ∀ produces, part.produces = some produces → ex.exportType = .ofProduces produces

variable (enclaves) in
/-- Every import finds an enclave, and the first export of its name there admits the importer. -/
def ImportsAdmitted : Prop :=
  ∀ enc ∈ enclaves, ∀ im ∈ enc.allImports, ∃ source ∈ enclaves, source.id = im.from_ ∧
    ∃ ex, source.exports.find? (·.name = im.exportName) = some ex ∧
      (ex.to_ = .public_ ∨ ex.to_ = .anyEnclave ∨ ex.to_ = .vpn ∨ ex.to_ = .enclave enc.id)

theorem permitted_iff {target : ExportTarget} {importer : EnclaveId} :
    target.permitted importer = true ↔
      target = .public_ ∨ target = .anyEnclave ∨ target = .vpn ∨ target = .enclave importer := by
  cases target with
  | enclave allowedId => simp [ExportTarget.permitted]
  | _ => simp [ExportTarget.permitted]

theorem violation_admission_eq_none {enc : Enclave} {part : Option Partition} {im : Import} :
    Check.violation enclaves (.admission enc part im) = none ↔
      ∃ source ex, enclaves.find? (·.id = im.from_) = some source ∧
        source.exports.find? (·.name = im.exportName) = some ex ∧
        ex.to_.permitted enc.id = true := by
  rw [Check.violation]
  cases enclaves.find? (·.id = im.from_) with
  | none => simp
  | some source =>
    simp only
    cases hex : source.exports.find? (·.name = im.exportName) with
    | none => simp [hex]
    | some ex => simp [hex]

theorem mem_importSites {enc : Enclave} {im : Import} :
    im ∈ enc.allImports ↔ ∃ part, (part, im) ∈ enc.importSites := by
  rw [Enclave.allImports, Enclave.importSites]
  simp only [List.mem_append, List.mem_map, List.mem_flatMap, Prod.mk.injEq]
  constructor
  · rintro (him | ⟨part, hpart, him⟩)
    · exact ⟨none, .inl ⟨im, him, rfl, rfl⟩⟩
    · exact ⟨some part, .inr ⟨part, hpart, im, him, rfl, rfl⟩⟩
  · rintro ⟨_, ⟨_, him, -, rfl⟩ | ⟨part, hpart, _, him, -, rfl⟩⟩
    · exact .inl him
    · exact .inr ⟨part, hpart, him⟩

/-- With distinct ids there is no violation exactly where each kind of check is passed. -/
theorem violations_eq_nil_iff (hnodup : (enclaves.map (·.id)).Nodup) :
    violations enclaves = [] ↔
      OutputsDeclared enclaves ∧ ExportTypesMatch enclaves ∧ ImportsAdmitted enclaves := by
  rw [violations, List.filterMap_eq_nil_iff]
  have hfind : ∀ {id source}, enclaves.find? (·.id = id) = some source ↔
      source ∈ enclaves ∧ source.id = id := by
    intro id source
    rw [← get?_byId_eq_find? hnodup]
    refine ⟨mem_of_get?_byId, ?_⟩
    rintro ⟨hmem, rfl⟩
    exact get?_byId_of_mem hnodup hmem
  constructor
  · intro h
    refine ⟨fun enc henc part hpart produces hproduces key hkey => ?_,
      fun enc henc ex hex part htarget produces hproduces => ?_, fun enc henc im him => ?_⟩
    · have hcheck := h (.output part produces key) (List.mem_flatMap.mpr ⟨enc, henc,
        List.mem_append_left _ (List.mem_append_left _ (List.mem_flatMap.mpr ⟨part, hpart,
          by simpa [hproduces] using hkey⟩))⟩)
      by_contra hnot
      simp [Check.violation, hnot] at hcheck
    · have hcheck := h (.exportType enc ex) (List.mem_flatMap.mpr ⟨enc, henc,
        List.mem_append_left _ (List.mem_append_right _ (List.mem_map.mpr ⟨ex, hex, rfl⟩))⟩)
      by_contra hnot
      simp [Check.violation, htarget, hproduces, hnot] at hcheck
    · obtain ⟨part, hsite⟩ := mem_importSites.mp him
      have hcheck := h (.admission enc part im) (List.mem_flatMap.mpr ⟨enc, henc,
        List.mem_append_right _ (List.mem_map.mpr ⟨_, hsite, rfl⟩)⟩)
      obtain ⟨source, ex, hsource, hex, hperm⟩ := violation_admission_eq_none.mp hcheck
      obtain ⟨hmem, hid⟩ := hfind.mp hsource
      exact ⟨source, hmem, hid, ex, hex, permitted_iff.mp hperm⟩
  · rintro ⟨houtputs, htypes, hadmitted⟩ check hcheck
    obtain ⟨enc, henc, hcheck⟩ := List.mem_flatMap.mp hcheck
    rcases List.mem_append.mp hcheck with hcheck | hcheck
    · rcases List.mem_append.mp hcheck with hcheck | hcheck
      · obtain ⟨part, hpart, hcheck⟩ := List.mem_flatMap.mp hcheck
        obtain ⟨produces, hproduces, hcheck⟩ := List.mem_flatMap.mp hcheck
        obtain ⟨key, hkey, rfl⟩ := List.mem_map.mp hcheck
        have hmem := houtputs enc henc part hpart produces (by simpa using hproduces) key hkey
        rw [Check.violation, if_pos hmem]
      · obtain ⟨ex, hex, rfl⟩ := List.mem_map.mp hcheck
        rw [Check.violation]
        split
        · rfl
        · rename_i part htarget
          split
          · rfl
          · rename_i produces hproduces
            rw [if_pos (htypes enc henc ex hex part htarget produces hproduces)]
    · obtain ⟨site, hsite, rfl⟩ := List.mem_map.mp hcheck
      obtain ⟨source, hmem, hid, ex, hex, hto⟩ :=
        hadmitted enc henc site.2 (mem_importSites.mpr ⟨site.1, hsite⟩)
      exact violation_admission_eq_none.mpr
        ⟨source, ex, hfind.mpr ⟨hmem, hid⟩, hex, permitted_iff.mpr hto⟩

end

/-- **What validation accepts.** With distinct ids a list is accepted exactly where the outputs are
declared, the types of the exports match, the imports are admitted and do not form a cycle. Otherwise,
where one of the first three fails, the error is the one violation or the list of all of them; and an
accepted list is wired as declared. -/
theorem validate_accepts_iff {topo : Topo.TopoSort} (hlawful : topo.Lawful)
    (enclaves : List Enclave) (hnodup : (enclaves.map (·.id)).Nodup) :
    ((∃ resolved, validate topo enclaves = .ok resolved) ↔
      OutputsDeclared enclaves ∧ ExportTypesMatch enclaves ∧ ImportsAdmitted enclaves ∧
        ¬ ∃ id, Relation.TransGen (Feeds enclaves) id id) ∧
    (¬ (OutputsDeclared enclaves ∧ ExportTypesMatch enclaves ∧ ImportsAdmitted enclaves) →
      ∃ e es, violations enclaves = e :: es ∧
        validate topo enclaves = .error (if es = [] then e else .multiple (e :: es))) ∧
    ∀ resolved, validate topo enclaves = .ok resolved →
      resolved.crossEnclaveWiring = declaredWiring enclaves := by
  have herrors := validationErrors_eq hnodup
  have hsound := violations_eq_nil_iff hnodup
  refine ⟨⟨?_, ?_⟩, fun hnot => ?_, fun resolved hvalid => ?_⟩
  · rintro ⟨resolved, hvalid⟩
    have hnone := (validate_eq_ok hvalid).1
    obtain ⟨houtputs, htypes, hadmitted⟩ := hsound.mp (herrors.symm.trans hnone)
    refine ⟨houtputs, htypes, hadmitted, fun hcycle => ?_⟩
    rw [(validate_cycle_iff hlawful hnone).mpr hcycle] at hvalid
    cases hvalid
  · rintro ⟨houtputs, htypes, hadmitted, hacyclic⟩
    have hnone := herrors.trans (hsound.mpr ⟨houtputs, htypes, hadmitted⟩)
    have hnocycle := mt (validate_cycle_iff hlawful hnone).mp hacyclic
    rw [validate, hnone] at hnocycle ⊢
    simp only at hnocycle ⊢
    split at hnocycle
    · exact absurd rfl hnocycle
    · rename_i hcyc
      rw [if_neg hcyc]
      rcases horder : topo.toposort (dependencyGraph enclaves) with _ | order
      · rw [horder] at hnocycle
        exact absurd rfl hnocycle
      · exact ⟨_, rfl⟩
  · rcases hviolations : violations enclaves with _ | ⟨e, es⟩
    · exact absurd (hsound.mp hviolations) hnot
    · refine ⟨e, es, rfl, ?_⟩
      rw [validate, herrors, hviolations]
      cases es with
      | nil => rfl
      | cons e' es => rfl
  · obtain ⟨hnone, -, order, -, rfl⟩ := validate_eq_ok hvalid
    exact validWiring_eq hnodup (herrors.symm.trans hnone)

/-- The importer is refused without the exporter, and wired as it declares next to it. -/
theorem importer_needs_exporter :
    (∃ e es, violations [importer "x" "y"] = e :: es ∧
      validate Topo.kahn [importer "x" "y"] = .error (if es = [] then e else .multiple (e :: es))) ∧
    ∃ resolved, validate Topo.kahn [exporter, importer "x" "y"] = .ok resolved ∧
      resolved.crossEnclaveWiring = declaredWiring [exporter, importer "x" "y"] := by
  constructor
  · refine (validate_accepts_iff Topo.kahn_lawful [importer "x" "y"] (by decide)).2.1 fun h => ?_
    obtain ⟨source, hsource, hid, -⟩ := h.2.2 (importer "x" "y") (List.mem_singleton_self _)
      ⟨⟨"a"⟩, "x", "x"⟩ (List.mem_cons_self ..)
    rw [List.mem_singleton.mp hsource] at hid
    exact absurd hid (by decide)
  · exact ⟨_, rfl, (validate_accepts_iff Topo.kahn_lawful [exporter, importer "x" "y"]
      (by decide)).2.2 _ rfl⟩

/-! ### A partition without an id -/

/-- An import of a partition whose id is empty. -/
def unnamed : Enclave := plainEnclave "b" [] [plainPartition "" [⟨⟨"a"⟩, "x", "x"⟩]]

/-- **The empty id.** The import of a partition is wired as if it were the enclave's. -/
theorem unnamed_wired_as_enclave :
    ([exporter, unnamed].map (·.id)).Nodup ∧ (∀ enc ∈ [exporter, unnamed], enc.imports = []) ∧
      ∃ resolved, validate Topo.kahn [exporter, unnamed] = .ok resolved ∧
        resolved.crossEnclaveWiring = [⟨⟨"b"⟩, none, ⟨"a"⟩, "x"⟩] := by
  refine ⟨by decide, by decide, _, rfl, by decide⟩

end Nclav
