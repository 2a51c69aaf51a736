import Nclav.Guarantees.AliasScope

/-!
# The order of teardowns

Enclaves are provisioned in the order of their imports, exporters first. Removed enclaves are torn
down in the order in which a hash set lists their ids, so an exporter may go before an enclave that
imports from it. Importers go first in every run exactly where no two of the enclaves that are torn
down are joined by an import
(`importers_first_iff`).
-/

namespace Nclav

open Effect

/-- A teardown of the enclave or of one of its partitions. -/
def Call.Tears (id : EnclaveId) (c : Call) : Prop := c.TearsDown id ∧ c.isQuiet = false

/-- The stored enclave, or one of its partitions, imports from the other. -/
def StoredImport (st : Store) (b a : EnclaveId) : Prop :=
  ∃ s im, st.get? b = some s ∧ im.from_ = a ∧ (im ∈ s.desired.allImports ∨
    ∃ (pid : PartitionId) (ps : PartitionState), s.partitions[pid]? = some ps ∧
      im ∈ ps.desired.imports)

/-- Every teardown of an importer precedes every teardown of its exporter; the log is newest
first. -/
def ImportersFirst (st : Store) (desired : List Enclave) (log : List Event) : Prop :=
  ∀ a b s s', Removed st desired a s → Removed st desired b s' → a ≠ b → StoredImport st b a →
    ∀ newer ev older, log = newer ++ ev :: older → ev.1.Tears a → ∀ ev' ∈ newer, ¬ev'.1.Tears b

/-- Importers are torn down before their exporters in every run from the store. -/
def TearsImportersFirst (host : Host) (req : ReconcileRequest) (registry : DriverRegistry)
    (desired : List Enclave) (st : Store) : Prop :=
  ∀ r w', Prog.Exec (system anyAnswer) (reconcileLoaded host req registry desired).run
    (.ofStore st) r w' → ImportersFirst st desired w'.log

/-- No chain of imports among the removed enclaves leads back to where it starts. -/
def AcyclicImports (st : Store) (desired : List Enclave) : Prop :=
  ∀ a, ¬Relation.TransGen (fun b a => (∃ s, Removed st desired b s) ∧
    (∃ s, Removed st desired a s) ∧ StoredImport st b a) a a

/-- A removed enclave that is torn down: it has a driver and a handle, and something is called. -/
def TornDown (registry : DriverRegistry) (resourcesOnly : Bool) (st : Store)
    (desired : List Enclave) (id : EnclaveId) : Prop :=
  ∃ s, Removed st desired id s ∧ Tearable registry s ∧
    (resourcesOnly = false ∨ s.partitions.toList ≠ [])

/-! ## What was called since -/

/-- A call of this kind was made since. -/
def World.Since (w : World) (p : Event → Prop) (w' : World) : Prop :=
  ∃ newer, w'.log = newer ++ w.log ∧ ∃ ev ∈ newer, p ev

section

variable {A : (c : Call) → Resp c → Prop} {w w' w'' : World} {p : Event → Prop} {α ε : Type}

theorem log_suffix {q : Sys α} {a : α} (h : Prog.Exec (system A) q w a w') : w.log <:+ w'.log :=
  log_suffix_visits h.visits

theorem World.since_next (h : w.log <:+ w'.log) {c : Call} {r : Resp c} (hp : p ⟨c, r⟩) :
    w.Since p (w'.next c r) := by
  obtain ⟨newer, hlog⟩ := h
  exact ⟨⟨c, r⟩ :: newer, by rw [next_log, ← hlog]; rfl, _, List.mem_cons_self .., hp⟩

theorem World.Since.suffix (h : w.Since p w') (h' : w'.log <:+ w''.log) : w.Since p w'' := by
  obtain ⟨newer, hlog, ev, hev, hp⟩ := h
  obtain ⟨newest, hlog'⟩ := h'
  exact ⟨newest ++ newer, by rw [← hlog', hlog, List.append_assoc], ev,
    List.mem_append_right _ hev, hp⟩

/-- What the first part has called was called by the whole. -/
theorem wpE_bind_since {β : Type} {x : ExceptT ε Sys α} {f : α → ExceptT ε Sys β} {w₀ w : World}
    (h : Prog.wpE (system A) x (fun r w' => ∀ a, r = .ok a → w₀.Since p w') w) :
    Prog.wpE (system A) (x >>= f) (fun r w' => ∀ b, r = .ok b → w₀.Since p w') w := by
  refine Prog.wpE_bind_ok (Q := fun _ w => w₀.Since p w) (Prog.wpE_mono h fun r w₁ h₁ a hr => ?_)
  exact Prog.wp_iff.mpr fun _ _ hrest _ _ => (h₁ a hr).suffix (log_suffix hrest)

end

/-! ## What is called on a removed enclave -/

section

variable {A : (c : Call) → Resp c → Prop} {host : Host} {req : ReconcileRequest}
  {registry : DriverRegistry} {desired : List Enclave} {st : Store} {run : Run}
  {resolved : ResolvedGraph} {removed : List EnclaveId} {id : EnclaveId} {s : EnclaveState}

/-- Destroying a partition is called first. -/
theorem wpE_teardownRemovedPartition_since (hid : s.desired.id = id) {driver : Driver}
    {authEnv : HashMap String String} (errors : List ReportError)
    (entry : PartitionId × PartitionState) {w₀ w : World} (hw : w₀.log <:+ w.log) :
    Prog.wpE (system A) (teardownRemovedPartition run id driver s authEnv errors entry)
      (fun _ w' => w₀.Since (·.1.Tears id) w') w := by
  rw [teardownRemovedPartition, TerraformBackend.teardown, Prog.wpE_bind, Prog.wpE_monadLift,
    Prog.wp_perform]
  intro destroyed _
  refine Prog.wp_iff.mpr fun r w' hrest => ?_
  exact (World.since_next hw ⟨.tfTeardown _ _ _ _ _ hid, rfl⟩).suffix (log_suffix hrest)

theorem wpE_teardownRemovedResources_since (hid : s.desired.id = id) {driver : Driver}
    {handle : Handle} (hcalls : run.req.resourcesOnly = false ∨ s.partitions.toList ≠ [])
    (errors : List ReportError) (w : World) :
    Prog.wpE (system A) (teardownRemovedResources run id driver s handle errors)
      (fun r w' => ∀ errors', r = .ok errors' → w.Since (·.1.Tears id) w') w := by
  rw [teardownRemovedResources]
  refine Prog.wpE_bind_ok (Q := fun _ w' => w.Since (·.1.Tears id) w') ?_
  rw [Prog.wpE_monadLift, Prog.wp_perform]
  intro entries _ entries' hentries'
  obtain rfl := Except.ok.inj hentries'
  have hsuffix : w.log <:+ (w.next (.partitionOrder s.partitions.toList) entries).log :=
    List.suffix_cons _ _
  rcases hcalls with hfull | hparts
  · refine Prog.wpE_bind_ok (Q := fun _ w' => w.Since (·.1.Tears id) w') ?_
    refine Prog.wp_iff.mpr fun _ w₁ hloop errors' _ => ?_
    rw [hfull, if_neg Bool.false_ne_true]
    refine wpE_bind_since ?_
    rw [wpE_orFail, Prog.wp_perform]
    intro r _ _ _
    exact World.since_next (hsuffix.trans (log_suffix hloop)) ⟨.teardownEnclave _ _ _ hid, rfl⟩
  · obtain ⟨entry, rest, hentries⟩ : ∃ entry rest, entries.val = entry :: rest :=
      List.exists_cons_of_ne_nil fun hnil => hparts (by
        have hperm := entries.property
        rw [hnil] at hperm
        exact List.nil_perm.mp hperm)
    rw [hentries, List.foldlM_cons]
    refine wpE_bind_since (wpE_bind_since ?_)
    exact Prog.wpE_mono (wpE_teardownRemovedPartition_since hid errors entry hsuffix)
      fun _ _ h _ _ => h

/-- Past a removed enclave that is torn down a teardown of it was called. -/
theorem wpE_teardownRemoved_since
    (hstart : RunStart host req registry desired (.ofStore st) run resolved removed)
    (htorn : TornDown registry req.resourcesOnly st desired id) (errors : List ReportError)
    (w : World) :
    Prog.wpE (system A) (teardownRemoved run errors id)
      (fun r w' => ∀ errors', r = .ok errors' → w.Since (·.1.Tears id) w') w := by
  obtain ⟨s, hremoved, ⟨driver, handle, hdriver, hhandle⟩, hcalls⟩ := htorn
  have hrec : run.existing id = some s := (hstart.existing id).trans hremoved.1
  rw [← hstart.req_eq] at hcalls
  rw [← hstart.registry_eq] at hdriver
  rw [teardownRemoved, hrec]
  simp only
  rw [teardownRemovedEnclave_of_tearable hdriver hhandle]
  exact wpE_bind_since
    (wpE_teardownRemovedResources_since (hstart.keyed hrec) hcalls errors w)

/-- Teardowns are called on the enclaves that are torn down. -/
def TearsTornDown (registry : DriverRegistry) (resourcesOnly : Bool) (st : Store)
    (desired : List Enclave) (c : Call) : Prop :=
  ∀ id, c.Tears id → TornDown registry resourcesOnly st desired id

theorem Call.not_tears_of_isQuiet {c : Call} (hc : c.isQuiet = true) (id : EnclaveId) :
    ¬c.Tears id := fun h => by
  rw [h.2] at hc
  cases hc

/-- Nothing is called on a removed enclave that is not torn down, but to delete its record. -/
theorem teardownRemovedEnclave_untorn {P : Call → Prop} (hquiet : ∀ c, c.isQuiet = true → P c)
    (h : Tearable run.registry s →
      ¬(run.req.resourcesOnly = false ∨ s.partitions.toList ≠ [])) (errors : List ReportError) :
    Prog.CallsE P (fun _ => True) (teardownRemovedEnclave run id s errors) := by
  by_cases htear : Tearable run.registry s
  · obtain ⟨honly, hparts⟩ := not_or.mp (h htear)
    rw [Bool.not_eq_false] at honly
    obtain ⟨driver, handle, hdriver, hhandle⟩ := htear
    rw [teardownRemovedEnclave_of_tearable hdriver hhandle, teardownRemovedResources]
    refine Prog.CallsE.bind (callsE_perform (hquiet _ rfl)) fun entries _ => ?_
    have hperm : entries.val.Perm s.partitions.toList := entries.property
    have hnil : entries.val = [] := List.perm_nil.mp (hperm.trans (.of_eq (not_not.mp hparts)))
    rw [hnil, honly]
    exact Prog.CallsE.pure trivial
  · rw [teardownRemovedEnclave_of_not_tearable htear]
    exact Prog.CallsE.pure trivial

theorem teardownRemoved_tornDown
    (hstart : RunStart host req registry desired (.ofStore st) run resolved removed)
    (hid : id ∈ removed) (errors : List ReportError) :
    Prog.CallsE (TearsTornDown registry req.resourcesOnly st desired) (fun _ => True)
      (teardownRemoved run errors id) := by
  obtain ⟨hstored, hnot⟩ := (hstart.mem_removed id).mp hid
  obtain ⟨s, hs⟩ := Option.isSome_iff_exists.mp hstored
  have hrec : run.existing id = some s := (hstart.existing id).trans hs
  have hdelete : TearsTornDown registry req.resourcesOnly st desired (.deleteEnclave id) := by
    rintro id' ⟨htears, -⟩
    cases htears
  by_cases htorn : TornDown registry req.resourcesOnly st desired id
  · refine (teardownRemoved_calls (fun s hs => hstart.keyed hs) errors).mono
      (fun c hc id' htears => ?_) fun _ _ => trivial
    rcases hc with hc | rfl
    · rw [hc.destroys (htears.1.to_destroys htears.2)]
      exact htorn
    · exact hdelete id' htears
  · rw [teardownRemoved, hrec]
    refine (teardownRemovedEnclave_untorn (fun c hc id' htears =>
      absurd htears (Call.not_tears_of_isQuiet hc id')) (fun htear hcalls => ?_) errors).bind
        fun errors' _ => (callsE_deleteEnclave hdelete).bind fun _ _ => Prog.CallsE.pure trivial
    rw [hstart.registry_eq] at htear
    rw [hstart.req_eq] at hcalls
    exact htorn ⟨s, ⟨hs, hnot⟩, htear, hcalls⟩

theorem tornDown_of_run (hdry : req.dryRun = false)
    {r : Except ReconcileError ReconcileReport} {w' : World}
    (hrun : Prog.Exec (system A) (reconcileLoaded host req registry desired).run
      (.ofStore st) r w') :
    ∀ ev ∈ w'.log, TearsTornDown registry req.resourcesOnly st desired ev.1 := by
  let I (w : World) : Prop :=
    ∀ ev ∈ w.log, TearsTornDown registry req.resourcesOnly st desired ev.1
  refine (hrun.wp (wpE_reconcileLoaded_keeps (I := I) (J := fun _ _ => True) hdry ?_
    (fun _ _ _ _ _ => trivial) ?_ fun _ h => absurd h List.not_mem_nil)).1
  · intro w w' hw hquiet ev hev id htears
    exact hw ev (hquiet.mem_log hev htears.2) id htears
  intro run resolved removed w₁ hstart _ hw₁
  have hcalls : Prog.CallsE (TearsTornDown registry req.resourcesOnly st desired) (fun _ => True)
      (passes run removed (orderedDesired resolved desired)) := by
    refine passes_callsE (fun errors id hid _ => teardownRemoved_tornDown hstart hid errors)
      (fun errors enc _ _ => ?_) (fun errors enc _ _ => ?_) trivial
    · refine (provisionEnclave_calls errors).mono (fun c hc id htears => ?_) fun _ _ => trivial
      cases hc <;> cases htears.1
    · refine (wireEnclave_calls errors).mono (fun c hc id htears => ?_) fun _ _ => trivial
      cases hc <;> cases htears.1
  refine Prog.wpE_mono (hcalls.wpE (M := system A) (I := I) ?_ hw₁)
    fun _ _ h => ⟨h.2, fun _ _ => trivial⟩
  intro w c r hc _ hw
  exact List.forall_mem_cons.mpr ⟨hc, hw⟩

end

/-! ## An exporter first -/

section

variable {host : Host} {req : ReconcileRequest} {registry : DriverRegistry}
  {desired : List Enclave} {st : Store} {a b : EnclaveId}

/-- No call fails, and the removed ids begin with `a`. -/
def listsFirst (a : EnclaveId) : (c : Call) → Resp c → Prop
  | .enclaveOrder ids, r => a ∈ ids → r.val.head? = some a
  | c, r => allOk c r

theorem exists_answer_listsFirst (a : EnclaveId) (w : World) (c : Call) :
    ∃ r, answers w c r ∧ listsFirst a c r := by
  cases c with
  | enclaveOrder ids =>
    by_cases ha : a ∈ ids
    · exact ⟨⟨a :: ids.erase a, (List.perm_cons_erase ha).symm⟩, trivial, fun _ => rfl⟩
    · exact ⟨⟨ids, .refl _⟩, trivial, fun h => absurd h ha⟩
  | _ => exact exists_answer_ok w _

theorem neverAborts_listsFirst (a : EnclaveId) : NeverAborts (listsFirst a) := by
  intro c r h hfatal
  cases c with
  | enclaveOrder ids => cases hfatal
  | _ => exact h

/-- A teardown of `b` after one of `a`. -/
def Inverted (a b : EnclaveId) (w : World) : Prop :=
  ∃ mid : World, mid.Logged (·.1.Tears a) ∧ mid.Since (·.1.Tears b) w

theorem Inverted.suffix {w w' : World} (h : Inverted a b w) (hsuffix : w.log <:+ w'.log) :
    Inverted a b w' := by
  obtain ⟨mid, ha, hb⟩ := h
  exact ⟨mid, ha, hb.suffix hsuffix⟩

theorem World.Since.logged {w w' : World} {p : Event → Prop} (h : w.Since p w') : w'.Logged p := by
  obtain ⟨newer, hlog, ev, hev, hp⟩ := h
  exact ⟨ev, hlog ▸ List.mem_append_left _ hev, hp⟩

theorem wpE_teardownPass_inverted {run : Run} {resolved : ResolvedGraph} {rest : List EnclaveId}
    (hstart : RunStart host req registry desired (.ofStore st) run resolved (a :: rest))
    (ha : TornDown registry req.resourcesOnly st desired a)
    (hb : TornDown registry req.resourcesOnly st desired b) (hmem : b ∈ rest) (w : World) :
    Prog.wpE (system (listsFirst a)) (teardownPass run (a :: rest))
      (fun r w' => ∀ errors, r = .ok errors → Inverted a b w') w := by
  rw [teardownPass, List.foldlM_cons]
  refine Prog.wpE_bind_ok (Prog.wpE_mono (wpE_teardownRemoved_since hstart ha [] w)
    fun r w₁ h₁ errors hr => ?_)
  refine Prog.wp_foldlM_ok (fun pre _ w => w.Logged (·.1.Tears a) ∧ (b ∈ pre → Inverted a b w))
    (fun pre id post errors w _ hI => ?_) (fun _ _ hI => hI.2 hmem)
    ⟨(h₁ errors hr).logged, fun h => absurd h List.not_mem_nil⟩
  by_cases hid : id = b
  · subst hid
    refine Prog.wp_iff.mpr fun r w₂ hrun errors' hr => ⟨hI.1.exec hrun, fun _ => ⟨w, hI.1, ?_⟩⟩
    exact hrun.wp (wpE_teardownRemoved_since hstart hb errors w) errors' hr
  · refine Prog.wp_iff.mpr fun r w₂ hrun errors' _ => ⟨hI.1.exec hrun, fun hpre => ?_⟩
    have hpre' := (List.mem_append.mp hpre).resolve_right fun h =>
      hid (List.mem_singleton.mp h).symm
    exact (hI.2 hpre').suffix (log_suffix hrun)

/-- Where the ids begin with `a`, every run tears `b` down after it. -/
theorem inverted_of_run (hdry : req.dryRun = false) {resolved : ResolvedGraph}
    (hvalid : validate host.topo desired = .ok resolved)
    (ha : TornDown registry req.resourcesOnly st desired a)
    (hb : TornDown registry req.resourcesOnly st desired b) (hne : a ≠ b)
    {r : Except ReconcileError ReconcileReport} {w' : World}
    (hrun : Prog.Exec (system (listsFirst a)) (reconcileLoaded host req registry desired).run
      (.ofStore st) r w') :
    Inverted a b w' := by
  have hsafe := (neverAborts_listsFirst a).storeSafe
  refine hrun.wp (Q := fun _ => Inverted a b) (wpE_reconcileLoaded_ordered hdry (fun e he => ?_)
    (fun h => absurd hsafe.quietSafe h) ?_)
  · rw [hvalid] at he
    cases he
  intro run resolved' removed w₁ hstart ⟨ids, hperm, hhead⟩ _
  have hmem {id : EnclaveId} (h : TornDown registry req.resourcesOnly st desired id) :
      id ∈ removed := by
    obtain ⟨s, hremoved, -⟩ := h
    exact (hstart.mem_removed id).mpr ⟨Option.isSome_iff_exists.mpr ⟨s, hremoved.1⟩, hremoved.2⟩
  obtain ⟨rest, rfl⟩ : ∃ rest, removed = a :: rest :=
    ⟨_, (List.eq_cons_of_mem_head? (hhead (hperm.mem_iff.mp (hmem ha))))⟩
  have hrest : b ∈ rest := (List.mem_cons.mp (hmem hb)).resolve_left (Ne.symm hne)
  refine wpE_applyPasses (fun h => absurd hsafe h) fun w₂ _ =>
    (succeeds_passes (neverAborts_listsFirst a)).wpE ?_
  rw [passes]
  refine Prog.wpE_bind_ok (Prog.wpE_mono (wpE_teardownPass_inverted hstart ha hb hrest w₂)
    fun r w₃ h₃ errors hr => ?_)
  refine Prog.wp_iff.mpr fun r' w₄ hpasses errors' _ w₅ hquiet => ?_
  exact ⟨((h₃ errors hr).suffix (log_suffix hpasses)).suffix hquiet.log_suffix,
    fun h => absurd hsafe h⟩

/-- Some run tears `b` down after `a`. -/
theorem exists_inverted (hdry : req.dryRun = false) {resolved : ResolvedGraph}
    (hvalid : validate host.topo desired = .ok resolved)
    (ha : TornDown registry req.resourcesOnly st desired a)
    (hb : TornDown registry req.resourcesOnly st desired b) (hne : a ≠ b) :
    ∃ r w', Prog.Exec (system anyAnswer) (reconcileLoaded host req registry desired).run
      (.ofStore st) r w' ∧ Inverted a b w' := by
  obtain ⟨r, w', hrun⟩ := Prog.exists_exec (M := system (listsFirst a))
    (exists_answer_listsFirst a) (reconcileLoaded host req registry desired).run (.ofStore st)
  exact ⟨r, w', exec_anyAnswer hrun, inverted_of_run hdry hvalid ha hb hne hrun⟩

theorem Inverted.not_importersFirst {w : World} (h : Inverted a b w) {s s' : EnclaveState}
    (ha : Removed st desired a s) (hb : Removed st desired b s') (hne : a ≠ b)
    (himport : StoredImport st b a) : ¬ImportersFirst st desired w.log := by
  intro hfirst
  obtain ⟨mid, ⟨ev, hev, htears⟩, newer, hlog, ev', hev', htears'⟩ := h
  obtain ⟨between, older, hmid⟩ := List.append_of_mem hev
  rw [hmid, ← List.append_assoc] at hlog
  exact hfirst a b s s' ha hb hne himport _ ev older hlog htears ev'
    (List.mem_append_left _ hev') htears'

/-- Importers are torn down before their exporters in every run iff no two of the enclaves that
are torn down are joined by an import. -/
theorem importers_first_iff (hdry : req.dryRun = false) :
    TearsImportersFirst host req registry desired st ↔
      ∀ resolved, validate host.topo desired = .ok resolved → ∀ a b,
        TornDown registry req.resourcesOnly st desired a →
        TornDown registry req.resourcesOnly st desired b → a ≠ b → ¬StoredImport st b a := by
  refine ⟨fun hfirst resolved hvalid a b ha hb hne himport => ?_, fun happart r w' hrun => ?_⟩
  · obtain ⟨r, w', hrun, hinverted⟩ := exists_inverted hdry hvalid ha hb hne
    obtain ⟨s, hremoved, -⟩ := ha
    obtain ⟨s', hremoved', -⟩ := hb
    exact hinverted.not_importersFirst hremoved hremoved' hne himport (hfirst r w' hrun)
  · rcases hvalid : validate host.topo desired with e | resolved
    · have hfails : reconcileLoaded host req registry desired = throw (.graph e) := by
        rw [reconcileLoaded, hvalid]
      rw [hfails] at hrun
      cases hrun
      exact fun _ _ _ _ _ _ _ _ newer _ _ hlog _ =>
        absurd hlog.symm (List.append_ne_nil_of_right_ne_nil _ (List.cons_ne_nil _ _))
    · intro a b s s' _ _ hne himport newer ev older hlog htears ev' hev' htears'
      have htorn := tornDown_of_run hdry hrun
      rw [hlog] at htorn
      exact happart resolved hvalid a b
        (htorn ev (List.mem_append_right _ (List.mem_cons_self ..)) a htears)
        (htorn ev' (List.mem_append_left _ hev') b htears') hne himport

end

/-- What has been applied of this enclave by the driver of `gcpOnly`. -/
def appliedOf (enc : Enclave) : EnclaveState :=
  { EnclaveState.new enc with
    enclaveHandle := some .null
    resolvedCloud := some .gcp }

/-- The enclave that exports has been applied, and the one that imports from it. -/
def sharedStore : Store :=
  (Store.empty.upsert (appliedOf exporter)).upsert (appliedOf (importer "x" "y"))

theorem of_storedImport_shared {b a : EnclaveId} (h : StoredImport sharedStore b a) :
    b = ⟨"b"⟩ ∧ a = ⟨"a"⟩ := by
  obtain ⟨s, im, hs, rfl, him⟩ := h
  rw [sharedStore, Store.get?_upsert, Store.get?_upsert, Store.get?_empty] at hs
  split at hs
  · rename_i hid
    obtain rfl := Option.some.inj hs
    refine ⟨hid, ?_⟩
    rcases him with him | ⟨pid, ps, hps, -⟩
    · have himports : (appliedOf (importer "x" "y")).desired.allImports =
          [⟨⟨"a"⟩, "x", "x"⟩, ⟨⟨"a"⟩, "y", "y"⟩] := rfl
      rw [himports] at him
      rcases List.mem_cons.mp him with rfl | him
      · rfl
      · rw [List.mem_singleton.mp him]
    · cases hps
  · split at hs
    · obtain rfl := Option.some.inj hs
      rcases him with him | ⟨pid, ps, hps, -⟩
      · exact absurd him List.not_mem_nil
      · cases hps
    · cases hs

/-- With the exporter kept nothing is out of order. -/
theorem importers_first_shared :
    TearsImportersFirst plainHost .default gcpOnly [exporter] sharedStore := by
  refine (importers_first_iff rfl).mpr fun resolved _ a b ha _ _ himport => ?_
  obtain ⟨s, ⟨-, hremoved⟩, -⟩ := ha
  exact hremoved (by rw [(of_storedImport_shared himport).2]; exact List.mem_cons_self ..)

theorem acyclicImports_shared (desired : List Enclave) : AcyclicImports sharedStore desired := by
  intro a hcycle
  have hends : a = ⟨"b"⟩ ∧ a = ⟨"a"⟩ := by
    refine hcycle.rec (motive := fun y _ => a = ⟨"b"⟩ ∧ y = ⟨"a"⟩)
      (fun h => of_storedImport_shared h.2.2) fun _ h ih => ?_
    exact ⟨ih.1, (of_storedImport_shared h.2.2).2⟩
  exact absurd (hends.1.symm.trans hends.2) (by decide)

theorem tornDown_shared {id : EnclaveId} {s : EnclaveState} (hs : sharedStore.get? id = some s)
    (hcloud : s.resolvedCloud = some .gcp) (hhandle : s.enclaveHandle = some .null) :
    TornDown gcpOnly false sharedStore [] id := by
  refine ⟨s, ⟨hs, List.not_mem_nil⟩, ⟨plainDriver, .null, ?_, hhandle⟩, .inl rfl⟩
  rw [DriverRegistry.stateCloud, hcloud]
  rfl

/-- With both removed the exporter may go first. -/
theorem exporter_first :
    AcyclicImports sharedStore [] ∧
      ¬TearsImportersFirst plainHost .default gcpOnly [] sharedStore := by
  have ha : sharedStore.get? ⟨"a"⟩ = some (appliedOf exporter) := rfl
  have hb : sharedStore.get? ⟨"b"⟩ = some (appliedOf (importer "x" "y")) := rfl
  refine ⟨acyclicImports_shared [], fun hfirst => ?_⟩
  obtain ⟨r, w', hrun, hinverted⟩ : ∃ r w', Prog.Exec (system anyAnswer)
      (reconcileLoaded plainHost .default gcpOnly []).run (.ofStore sharedStore) r w' ∧
        Inverted ⟨"a"⟩ ⟨"b"⟩ w' :=
    exists_inverted rfl rfl (tornDown_shared ha rfl rfl) (tornDown_shared hb rfl rfl) (by decide)
  have himport : StoredImport sharedStore ⟨"b"⟩ ⟨"a"⟩ :=
    ⟨_, ⟨⟨"a"⟩, "x", "x"⟩, hb, rfl, .inl (List.mem_cons_self ..)⟩
  exact hinverted.not_importersFirst (s := appliedOf exporter) ⟨ha, List.not_mem_nil⟩
    ⟨hb, List.not_mem_nil⟩ (by decide) himport (hfirst r w' hrun)

end Nclav
