import Nclav.Guarantees.StoredRecords
import Nclav.Store.RunLog

/-!
# The run index agrees with a scan

The file lists the runs of a partition as the store in memory does: its keys are in the order of time
within a partition, and those of a partition are the ones with its prefix.
-/

namespace Nclav

/-! ## Keys -/

/-- A text is split at its first slash in one way. -/
theorem split_at_slash : ∀ {a b r r' : List Char}, '/' ∉ a → '/' ∉ b →
    a ++ '/' :: r = b ++ '/' :: r' → a = b ∧ r = r'
  | [], [], _, _, _, _, h => ⟨rfl, (List.cons.inj h).2⟩
  | [], c :: b, _, _, _, hb, h => by
    obtain ⟨rfl, -⟩ := List.cons.inj h
    exact absurd List.mem_cons_self hb
  | c :: a, [], _, _, ha, _, h => by
    obtain ⟨rfl, -⟩ := List.cons.inj h
    exact absurd List.mem_cons_self ha
  | c :: a, d :: b, _, _, ha, hb, h => by
    obtain ⟨rfl, hrest⟩ := List.cons.inj h
    obtain ⟨rfl, hr⟩ := split_at_slash (fun hmem => ha (List.mem_cons_of_mem _ hmem))
      (fun hmem => hb (List.mem_cons_of_mem _ hmem)) hrest
    exact ⟨rfl, hr⟩

/-- Ids without a slash. -/
def NoSlash (enclaveId : EnclaveId) (partitionId : PartitionId) : Prop :=
  '/' ∉ enclaveId.val.toList ∧ '/' ∉ partitionId.val.toList

namespace RedbRuns

variable (F : Formats) {run run' : IacRun}

theorem indexKey_toList (run : IacRun) : (indexKey F run).toList =
    run.enclaveId.val.toList ++ '/' :: (run.partitionId.val.toList ++ '/' ::
      (Text.rfc3339 run.startedAt ++ '/' :: (F.uuid run.id).toList)) := by
  have htime : (String.ofList (Text.rfc3339 run.startedAt)).toList = Text.rfc3339 run.startedAt :=
    String.toList_ofList
  have hslash : ("/" : String).toList = ['/'] := rfl
  have hkey : indexKey F run = run.enclaveId.val ++ "/" ++ run.partitionId.val ++ "/" ++
      String.ofList (Text.rfc3339 run.startedAt) ++ "/" ++ F.uuid run.id := rfl
  rw [hkey]
  simp only [String.toList_append, htime, hslash, List.append_assoc, List.cons_append,
    List.nil_append]

theorem iacRunPrefix_toList (enclaveId : EnclaveId) (partitionId : PartitionId) :
    (iacRunPrefix enclaveId partitionId).toList =
      enclaveId.val.toList ++ '/' :: (partitionId.val.toList ++ ['/']) := by
  have hslash : ("/" : String).toList = ['/'] := rfl
  have hbegins : iacRunPrefix enclaveId partitionId =
      enclaveId.val ++ "/" ++ partitionId.val ++ "/" := rfl
  rw [hbegins]
  simp only [String.toList_append, hslash, List.append_assoc, List.cons_append,
    List.nil_append]

variable {F}

/-- A key tells the run. -/
theorem indexKey_inj (h : NoSlash run.enclaveId run.partitionId)
    (h' : NoSlash run'.enclaveId run'.partitionId) (hkey : indexKey F run = indexKey F run') :
    run.id = run'.id := by
  have hlist := congrArg String.toList hkey
  rw [indexKey_toList, indexKey_toList] at hlist
  obtain ⟨-, hlist⟩ := split_at_slash h.1 h'.1 hlist
  obtain ⟨-, hlist⟩ := split_at_slash h.2 h'.2 hlist
  obtain ⟨-, hlist⟩ := split_at_slash (Text.slash_not_mem_rfc3339 _)
    (Text.slash_not_mem_rfc3339 _) hlist
  have huuid := F.parseUuid_uuid run.id
  rw [String.toList_inj.mp hlist, F.parseUuid_uuid] at huuid
  exact (Option.some.inj huuid).symm

/-- The keys with the prefix of a partition are those of its runs. -/
theorem prefix_iff {enclaveId : EnclaveId} {partitionId : PartitionId}
    (h : NoSlash enclaveId partitionId) (hrun : NoSlash run.enclaveId run.partitionId) :
    (iacRunPrefix enclaveId partitionId).toList <+: (indexKey F run).toList ↔
      run.enclaveId = enclaveId ∧ run.partitionId = partitionId := by
  rw [indexKey_toList, iacRunPrefix_toList]
  constructor
  · rintro ⟨rest, hrest⟩
    rw [List.append_assoc, List.cons_append, List.append_assoc] at hrest
    obtain ⟨henclave, hrest⟩ := split_at_slash h.1 hrun.1 hrest
    obtain ⟨hpartition, -⟩ := split_at_slash h.2 hrun.2 hrest
    exact ⟨EnclaveId.ext (String.toList_inj.mp henclave).symm,
      PartitionId.ext (String.toList_inj.mp hpartition).symm⟩
  · rintro ⟨rfl, rfl⟩
    refine ⟨Text.rfc3339 run.startedAt ++ '/' :: (F.uuid run.id).toList, ?_⟩
    rw [List.append_assoc, List.cons_append, List.append_assoc]
    rfl

/-- Within a partition the keys are in the order of time. -/
theorem indexKey_lt (henclave : run.enclaveId = run'.enclaveId)
    (hpartition : run.partitionId = run'.partitionId) (h : run.startedAt < run'.startedAt)
    (hyear : Text.FourDigits run.startedAt) (hyear' : Text.FourDigits run'.startedAt) :
    indexKey F run < indexKey F run' := by
  rw [String.lt_iff, indexKey_toList, indexKey_toList, henclave, hpartition]
  refine List.append_left_lt (List.cons_lt_cons_iff.mpr (.inr ⟨rfl, ?_⟩))
  refine List.append_left_lt (List.cons_lt_cons_iff.mpr (.inr ⟨rfl, ?_⟩))
  exact Text.rfc3339_lt h hyear hyear' _ _

end RedbRuns

/-! ## The latest version of a run -/

/-- The run is the last one of its id. -/
def Latest (calls : List IacRun) (run : IacRun) : Prop :=
  ∃ before after, calls = before ++ run :: after ∧ ∀ r ∈ after, r.id ≠ run.id

theorem Latest.mem {calls : List IacRun} {run : IacRun} (h : Latest calls run) : run ∈ calls := by
  obtain ⟨before, after, rfl, -⟩ := h
  exact List.mem_append_right _ List.mem_cons_self

theorem latest_concat {calls : List IacRun} {run last : IacRun} :
    Latest (calls ++ [last]) run ↔ run = last ∨ run.id ≠ last.id ∧ Latest calls run := by
  constructor
  · rintro ⟨before, after, hcalls, hafter⟩
    obtain rfl | ⟨after, x, rfl⟩ := List.eq_nil_or_concat' after
    · exact .inl (List.cons.inj (List.append_inj' hcalls rfl).2).1.symm
    · rw [← List.cons_append, ← List.append_assoc] at hcalls
      obtain ⟨rfl, hlast⟩ := List.append_inj' hcalls rfl
      obtain rfl := (List.cons.inj hlast).1
      refine .inr ⟨fun h => hafter last (List.mem_append_right _ List.mem_cons_self) h.symm,
        before, after, rfl, fun r hr => hafter r (List.mem_append_left _ hr)⟩
  · rintro (rfl | ⟨hne, before, after, rfl, hafter⟩)
    · exact ⟨calls, [], rfl, List.forall_mem_nil _⟩
    · refine ⟨before, after ++ [last], by rw [List.append_assoc, List.cons_append], ?_⟩
      exact List.forall_mem_append.mpr ⟨hafter, List.forall_mem_cons.mpr
        ⟨hne.symm, List.forall_mem_nil _⟩⟩

/-- Two latest versions of one run are one. -/
theorem Latest.unique {calls : List IacRun} {run run' : IacRun} (h : Latest calls run)
    (h' : Latest calls run') (hid : run.id = run'.id) : run = run' := by
  induction calls using List.reverseRecOn with
  | nil => exact absurd h.mem List.not_mem_nil
  | append_singleton calls last ih =>
    obtain rfl | ⟨hne, h⟩ := latest_concat.mp h
    · obtain rfl | ⟨hne, -⟩ := latest_concat.mp h'
      · rfl
      · exact absurd hid.symm hne
    · obtain rfl | ⟨-, h'⟩ := latest_concat.mp h'
      · exact absurd hid hne
      · exact ih h h'

/-! ## What the stores hold -/

/-- A run keeps its partition and its start. -/
def SameRun (calls : List IacRun) : Prop :=
  ∀ run ∈ calls, ∀ run' ∈ calls, run.id = run'.id → run.enclaveId = run'.enclaveId ∧
    run.partitionId = run'.partitionId ∧ run.startedAt = run'.startedAt

/-- The store in memory holds the latest runs. -/
theorem inMemoryRuns_get? (calls : List IacRun) (id : Uuid) (run : IacRun) :
    (calls.foldl InMemoryRuns.upsertIacRun ∅)[id]? = some run ↔ run.id = id ∧ Latest calls run := by
  induction calls using List.reverseRecOn with
  | nil =>
    refine ⟨fun h => ?_, fun h => absurd h.2.mem List.not_mem_nil⟩
    rw [List.foldl_nil, Std.ExtTreeMap.getElem?_empty] at h
    cases h
  | append_singleton calls last ih =>
    rw [List.foldl_append, List.foldl_cons, List.foldl_nil, InMemoryRuns.upsertIacRun,
      HashMap.get?_insert, latest_concat]
    split
    · rename_i hid
      rw [Option.some.injEq]
      constructor
      · rintro rfl
        exact ⟨hid.symm, .inl rfl⟩
      · rintro ⟨rfl, rfl | ⟨hne, -⟩⟩
        · rfl
        · exact absurd hid hne
    · rename_i hid
      rw [ih]
      constructor
      · rintro ⟨rfl, h⟩
        exact ⟨rfl, .inr ⟨hid, h⟩⟩
      · rintro ⟨rfl, rfl | ⟨-, h⟩⟩
        · exact absurd rfl hid
        · exact ⟨rfl, h⟩

/-- The tables hold the latest runs, and the index their keys. -/
structure RedbRuns.Holds (F : Formats) (db : RedbRuns) (calls : List IacRun) : Prop where
  runs : ∀ run, Latest calls run → db.iacRuns[F.uuid run.id]? = some (run.encode F)
  index : ∀ key v, db.iacRunsByPart[key]? = some v ↔
    ∃ run, Latest calls run ∧ key = RedbRuns.indexKey F run ∧ v = F.uuid run.id

theorem uuid_injective (F : Formats) : Function.Injective F.uuid := by
  intro u u' h
  have hread := F.parseUuid_uuid u
  rw [h, F.parseUuid_uuid] at hread
  exact (Option.some.inj hread).symm

theorem RedbRuns.Holds.upsert {F : Formats} {db : RedbRuns} {calls : List IacRun} {last : IacRun}
    (h : db.Holds F calls) (hsame : SameRun (calls ++ [last]))
    (hids : ∀ run ∈ calls ++ [last], NoSlash run.enclaveId run.partitionId) :
    (db.upsertIacRun F last).Holds F (calls ++ [last]) where
  runs run hrun := by
    rw [upsertIacRun, HashMap.get?_insert]
    obtain rfl | ⟨hne, hrun⟩ := latest_concat.mp hrun
    · rw [if_pos rfl]
    · rw [if_neg fun huuid => hne (uuid_injective F huuid)]
      exact h.runs run hrun
  index key v := by
    have hlast : last ∈ calls ++ [last] := List.mem_append_right _ List.mem_cons_self
    have hmem : ∀ {run}, Latest calls run → run ∈ calls ++ [last] :=
      fun hrun => List.mem_append_left _ hrun.mem
    rw [upsertIacRun, HashMap.get?_insert]
    constructor
    · intro hget
      split at hget
      · rename_i hkey
        exact ⟨last, latest_concat.mpr (.inl rfl), hkey, (Option.some.inj hget).symm⟩
      · rename_i hkey
        obtain ⟨run, hrun, rfl, rfl⟩ := (h.index key v).mp hget
        refine ⟨run, latest_concat.mpr (.inr ⟨fun hid => hkey ?_, hrun⟩), rfl, rfl⟩
        obtain ⟨henclave, hpartition, hstart⟩ := hsame run (hmem hrun) last hlast hid
        rw [indexKey, indexKey, henclave, hpartition, hstart, hid]
    · rintro ⟨run, hrun, rfl, rfl⟩
      obtain rfl | ⟨hne, hrun⟩ := latest_concat.mp hrun
      · rw [if_pos rfl]
      · rw [if_neg fun hkey => hne (indexKey_inj (hids run (hmem hrun)) (hids last hlast) hkey)]
        exact (h.index _ _).mpr ⟨run, hrun, rfl, rfl⟩

theorem redbRuns_holds (F : Formats) {calls : List IacRun} (hsame : SameRun calls)
    (hids : ∀ run ∈ calls, NoSlash run.enclaveId run.partitionId) :
    (calls.foldl (RedbRuns.upsertIacRun F) .empty).Holds F calls := by
  induction calls using List.reverseRecOn with
  | nil =>
    refine ⟨fun run hrun => absurd hrun.mem List.not_mem_nil, fun key v => ⟨fun h => ?_, ?_⟩⟩
    · rw [List.foldl_nil, RedbRuns.empty, Std.ExtTreeMap.getElem?_empty] at h
      cases h
    · rintro ⟨run, hrun, -⟩
      exact absurd hrun.mem List.not_mem_nil
  | append_singleton calls last ih =>
    rw [List.foldl_append, List.foldl_cons, List.foldl_nil]
    refine (ih (fun run hrun run' hrun' => ?_) fun run hrun => ?_).upsert hsame hids
    · exact hsame run (List.mem_append_left _ hrun) run' (List.mem_append_left _ hrun')
    · exact hids run (List.mem_append_left _ hrun)

/-! ## Listings -/

theorem exists_map_eq {α β : Type} {f : β → α} {P : β → Prop} : ∀ {l : List α},
    (∀ a ∈ l, ∃ b, P b ∧ f b = a) → ∃ bs : List β, (∀ b ∈ bs, P b) ∧ bs.map f = l
  | [], _ => ⟨[], List.forall_mem_nil _, rfl⟩
  | a :: l, h => by
    obtain ⟨⟨b, hb, rfl⟩, hrest⟩ := List.forall_mem_cons.mp h
    obtain ⟨bs, hbs, rfl⟩ := exists_map_eq hrest
    exact ⟨b :: bs, List.forall_mem_cons.mpr ⟨hb, hbs⟩, rfl⟩

/-- The latest run of a partition. -/
def LatestIn (calls : List IacRun) (enclaveId : EnclaveId) (partitionId : PartitionId)
    (run : IacRun) : Prop :=
  Latest calls run ∧ run.enclaveId = enclaveId ∧ run.partitionId = partitionId

/-- What is assumed of the runs that are recorded. -/
structure IndexedRuns (calls : List IacRun) : Prop where
  ids : ∀ run ∈ calls, NoSlash run.enclaveId run.partitionId
  same : SameRun calls
  years : ∀ run ∈ calls, Text.FourDigits run.startedAt
  starts : ∀ run ∈ calls, ∀ run' ∈ calls, run.enclaveId = run'.enclaveId →
    run.partitionId = run'.partitionId → run.startedAt = run'.startedAt → run.id = run'.id
  codes : ∀ run ∈ calls, run.Storable

section

variable {calls : List IacRun} {enclaveId : EnclaveId} {partitionId : PartitionId}

/-- Two latest runs of a partition have started at different times. -/
theorem IndexedRuns.latest_eq (h : IndexedRuns calls) {run run' : IacRun}
    (hrun : LatestIn calls enclaveId partitionId run)
    (hrun' : LatestIn calls enclaveId partitionId run')
    (hstart : run.startedAt = run'.startedAt) : run = run' :=
  hrun.1.unique hrun'.1 (h.starts run hrun.1.mem run' hrun'.1.mem (hrun.2.1.trans hrun'.2.1.symm)
    (hrun.2.2.trans hrun'.2.2.symm) hstart)

/-- The entries of a partition in the index. -/
theorem prefix_entries (db : RedbRuns) (start : String) :
    (db.iacRunsByPart.toList.filter fun kv => !decide (kv.1 < start)).filter
        (fun kv => start.toList.isPrefixOf kv.1.toList) =
      db.iacRunsByPart.toList.filter fun kv => start.toList.isPrefixOf kv.1.toList := by
  have hle : ∀ {a b : List Char}, a <+: b → ¬ b < a := by
    intro a
    induction a with
    | nil => exact fun _ => List.not_lt_nil _
    | cons c a ih =>
      rintro _ ⟨rest, rfl⟩
      rw [List.cons_append, List.cons_lt_cons_iff]
      rintro (hlt | ⟨-, hlt⟩)
      · exact absurd hlt (lt_irrefl c)
      · exact ih (List.prefix_append a rest) hlt
  rw [List.filter_filter]
  refine List.filter_congr fun kv _ => ?_
  cases hbegins : start.toList.isPrefixOf kv.1.toList with
  | false => rfl
  | true =>
    have hnlt : ¬ kv.1 < start := hle (List.isPrefixOf_iff_prefix.mp hbegins)
    rw [decide_eq_false hnlt]
    rfl

/-- The file lists the latest runs of the partition, newest first. -/
theorem RedbRuns.listIacRuns_eq (F : Formats) {db : RedbRuns} (hdb : db.Holds F calls)
    (h : IndexedRuns calls) (hids : NoSlash enclaveId partitionId) :
    ∃ runs : List IacRun, db.listIacRuns F enclaveId partitionId = some (runs.reverse.take 100) ∧
      runs.Pairwise (·.startedAt < ·.startedAt) ∧
      ∀ run, run ∈ runs ↔ LatestIn calls enclaveId partitionId run := by
  have hentry : ∀ kv, kv ∈ db.iacRunsByPart.toList ↔ db.iacRunsByPart[kv.1]? = some kv.2 :=
    fun kv => Std.ExtTreeMap.mem_toList_iff_getElem?_eq_some
  generalize hentries : (db.iacRunsByPart.toList.filter fun kv =>
    (iacRunPrefix enclaveId partitionId).toList.isPrefixOf kv.1.toList) = entries
  have hmem : ∀ kv, kv ∈ entries ↔ ∃ run, LatestIn calls enclaveId partitionId run ∧
      (indexKey F run, F.uuid run.id) = kv := by
    intro kv
    rw [← hentries, List.mem_filter, hentry, hdb.index, List.isPrefixOf_iff_prefix]
    constructor
    · rintro ⟨⟨run, hrun, hkey, huuid⟩, hbegins⟩
      rw [hkey, prefix_iff hids (h.ids run hrun.mem)] at hbegins
      exact ⟨run, ⟨hrun, hbegins⟩, Prod.ext hkey.symm huuid.symm⟩
    · rintro ⟨run, ⟨hrun, hpartition⟩, rfl⟩
      exact ⟨⟨run, hrun, rfl, rfl⟩, (prefix_iff hids (h.ids run hrun.mem)).mpr hpartition⟩
  obtain ⟨runs, hruns, hmap⟩ := exists_map_eq fun kv hkv => (hmem kv).mp hkv
  have hall : ∀ run, run ∈ runs ↔ LatestIn calls enclaveId partitionId run := by
    refine fun run => ⟨hruns run, fun hrun => ?_⟩
    have hin := (hmem (indexKey F run, F.uuid run.id)).mpr ⟨run, hrun, rfl⟩
    rw [← hmap] at hin
    obtain ⟨run', hrun', heq⟩ := List.mem_map.mp hin
    have hid := uuid_injective F (congrArg Prod.snd heq)
    rw [← (hruns run' hrun').1.unique hrun.1 hid]
    exact hrun'
  refine ⟨runs, ?_, ?_, hall⟩
  · have hids : ((entries.map (·.2)).reverse.take 100) =
        (runs.reverse.take 100).map fun run => F.uuid run.id := by
      rw [← hmap, List.map_map, ← List.map_reverse, ← List.map_take]
      rfl
    have hread : ∀ part : List IacRun, (∀ run ∈ part, run ∈ runs) →
        ((part.map fun run => F.uuid run.id).filterMap (db.iacRuns[·]?)).mapM (IacRun.decode F) =
          some part := by
      intro part hpart
      induction part with
      | nil => rfl
      | cons run part ih =>
        obtain ⟨hrun, hrest⟩ := List.forall_mem_cons.mp hpart
        have hlatest := (hruns run hrun).1
        rw [List.map_cons, List.filterMap_cons_some (hdb.runs run hlatest), List.mapM_cons,
          IacRun.decode_encode F (h.codes run hlatest.mem), ih hrest]
        rfl
    rw [listIacRuns]
    simp only [prefix_entries, hentries, hids]
    exact hread _ fun run hrun => List.mem_reverse.mp (List.mem_of_mem_take hrun)
  · have hkeys : entries.Pairwise fun a b => compare a.1 b.1 = .lt := by
      rw [← hentries]
      exact Std.ExtTreeMap.ordered_keys_toList.filter _
    rw [← hmap, List.pairwise_map] at hkeys
    refine hkeys.imp_of_mem fun {run run'} hrun hrun' hlt => ?_
    have hlt : indexKey F run < indexKey F run' := compareOfLessAndEq_eq_lt.mp hlt
    have hlatest := hruns run hrun
    have hlatest' := hruns run' hrun'
    obtain hstart | hstart | hstart := lt_trichotomy run.startedAt run'.startedAt
    · exact hstart
    · rw [h.latest_eq hlatest hlatest' hstart] at hlt
      exact absurd hlt (String.lt_irrefl _)
    · have hgt := indexKey_lt (F := F) (hlatest'.2.1.trans hlatest.2.1.symm)
        (hlatest'.2.2.trans hlatest.2.2.symm) hstart (h.years run' hlatest'.1.mem)
        (h.years run hlatest.1.mem)
      exact absurd hgt (String.lt_asymm hlt)

/-- The store in memory lists them in the same order, in whatever order its map gives them. -/
theorem InMemoryRuns.listIacRuns_eq (h : IndexedRuns calls) {values runs : List IacRun}
    (hvalues : values.Perm ((calls.foldl InMemoryRuns.upsertIacRun ∅).toList.map (·.2)))
    (hsorted : runs.Pairwise (·.startedAt < ·.startedAt))
    (hruns : ∀ run, run ∈ runs ↔ LatestIn calls enclaveId partitionId run) :
    listIacRuns values enclaveId partitionId = runs.reverse.take 100 := by
  have hentry : ∀ kv, kv ∈ (calls.foldl InMemoryRuns.upsertIacRun ∅).toList ↔
      kv.2.id = kv.1 ∧ Latest calls kv.2 := by
    intro kv
    rw [Std.ExtTreeMap.mem_toList_iff_getElem?_eq_some]
    exact inMemoryRuns_get? calls kv.1 kv.2
  have hmem : ∀ run, run ∈ values ↔ Latest calls run := by
    intro run
    rw [hvalues.mem_iff, List.mem_map]
    constructor
    · rintro ⟨kv, hkv, rfl⟩
      exact ((hentry kv).mp hkv).2
    · exact fun hrun => ⟨(run.id, run), (hentry _).mpr ⟨rfl, hrun⟩, rfl⟩
  have hnodup : values.Nodup := by
    have hkeys : (calls.foldl InMemoryRuns.upsertIacRun ∅).keys.Nodup := Std.ExtTreeMap.nodup_keys
    have hsame : ((calls.foldl InMemoryRuns.upsertIacRun ∅).toList.map (·.2)).map (·.id) =
        (calls.foldl InMemoryRuns.upsertIacRun ∅).keys := by
      rw [← Std.ExtTreeMap.map_fst_toList_eq_keys, List.map_map]
      exact List.map_congr_left fun kv hkv => ((hentry kv).mp hkv).1
    exact hvalues.nodup_iff.mpr (List.Nodup.of_map _ (hsame ▸ hkeys))
  have hperm : (values.filter fun r => r.enclaveId = enclaveId && r.partitionId = partitionId).Perm
      runs.reverse := by
    have hdistinct : runs.Nodup := hsorted.imp fun {a b} hlt heq => absurd (heq ▸ hlt) (lt_irrefl _)
    refine (List.perm_ext_iff_of_nodup (hnodup.filter _) (List.nodup_reverse.mpr hdistinct)).mpr
      fun run => ?_
    rw [List.mem_filter, List.mem_reverse, hmem, hruns, LatestIn, Bool.and_eq_true,
      decide_eq_true_eq, decide_eq_true_eq]
  rw [listIacRuns]
  refine congrArg (List.take 100) ?_
  have hmerge := List.mergeSort_perm
    (values.filter fun r => r.enclaveId = enclaveId && r.partitionId = partitionId)
    fun a b => decide (b.startedAt ≤ a.startedAt)
  have hmerged : ((values.filter fun r => r.enclaveId = enclaveId &&
      r.partitionId = partitionId).mergeSort fun a b => b.startedAt ≤ a.startedAt).Pairwise
        fun a b => b.startedAt ≤ a.startedAt := by
    refine (List.pairwise_mergeSort (fun a b c hab hbc => ?_) (fun a b => ?_) _).imp
      fun {a b} hle => of_decide_eq_true hle
    · exact decide_eq_true (le_trans (of_decide_eq_true hbc) (of_decide_eq_true hab))
    · rw [Bool.or_eq_true, decide_eq_true_eq, decide_eq_true_eq]
      exact le_total _ _
  have hreversed : runs.reverse.Pairwise fun a b => b.startedAt ≤ a.startedAt :=
    List.pairwise_reverse.mpr (hsorted.imp fun hlt => hlt.le)
  refine (hmerge.trans hperm).eq_of_pairwise (fun a b ha hb hab hba => ?_) hmerged hreversed
  have hin := (hmerge.trans hperm).mem_iff.mp ha
  exact h.latest_eq ((hruns a).mp (List.mem_reverse.mp hin))
    ((hruns b).mp (List.mem_reverse.mp hb)) (le_antisymm hba hab)

end

/-- **The index lists what a scan lists**: after any runs the file and the store in memory give the
same runs of a partition, the latest version of each, newest first, and a hundred at most. -/
theorem list_iac_runs_agree (F : Formats) {calls values : List IacRun} (h : IndexedRuns calls)
    {enclaveId : EnclaveId} {partitionId : PartitionId} (hids : NoSlash enclaveId partitionId)
    (hvalues : values.Perm ((calls.foldl InMemoryRuns.upsertIacRun ∅).toList.map (·.2))) :
    (calls.foldl (RedbRuns.upsertIacRun F) .empty).listIacRuns F enclaveId partitionId =
      some (InMemoryRuns.listIacRuns values enclaveId partitionId) ∧
    ∃ newest : List IacRun,
      InMemoryRuns.listIacRuns values enclaveId partitionId = newest.take 100 ∧
      newest.Pairwise (fun a b => b.startedAt < a.startedAt) ∧
      ∀ run, run ∈ newest ↔ LatestIn calls enclaveId partitionId run := by
  obtain ⟨runs, hlist, hsorted, hruns⟩ :=
    RedbRuns.listIacRuns_eq F (redbRuns_holds F h.same h.ids) h hids
  have hscan := InMemoryRuns.listIacRuns_eq h hvalues hsorted hruns
  refine ⟨by rw [hlist, hscan], runs.reverse, hscan, List.pairwise_reverse.mpr hsorted, fun run => ?_⟩
  rw [List.mem_reverse, hruns]

/-- A run of one partition as it starts and when it has finished, and one of another partition. -/
def recordedRuns : List IacRun :=
  [{ storedRun with finishedAt := none, status := .running },
    { storedRun with id := 1, partitionId := ⟨"web"⟩ }, storedRun]

theorem recordedRuns_recorded : IndexedRuns recordedRuns := by
  have hstart : ∀ run ∈ recordedRuns, run.startedAt = 0 :=
    List.forall_mem_cons.mpr ⟨rfl, List.forall_mem_cons.mpr ⟨rfl, List.forall_mem_cons.mpr
      ⟨rfl, List.forall_mem_nil _⟩⟩⟩
  have hyear : Text.FourDigits 0 := Text.fourDigits_of_le (by decide) (by decide)
  refine ⟨?_, ?_, fun run hrun => hstart run hrun ▸ hyear, ?_, ?_⟩
  · simp [recordedRuns, storedRun, NoSlash]
  · simp [SameRun, recordedRuns, storedRun]
  · simp [recordedRuns, storedRun]
  · simp [recordedRuns, storedRun, IacRun.Storable]

theorem list_iac_runs_agree_recorded :
    (recordedRuns.foldl (RedbRuns.upsertIacRun someFormats) .empty).listIacRuns someFormats
      ⟨"data"⟩ ⟨"db"⟩ = some (InMemoryRuns.listIacRuns
        ((recordedRuns.foldl InMemoryRuns.upsertIacRun ∅).toList.map (·.2)) ⟨"data"⟩ ⟨"db"⟩) :=
  (list_iac_runs_agree someFormats recordedRuns_recorded
    (by simp [NoSlash] : NoSlash ⟨"data"⟩ ⟨"db"⟩) (.refl _)).1

end Nclav
