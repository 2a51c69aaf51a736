import Nclav.Guarantees.AliasScope

/-!
# Import handles and what they were built from

An alias is bound once: an import whose alias the record binds already is passed over,
whatever it was bound to and whatever its exporter answers now. So after a run without errors
the import handles follow the declarations exactly when no handle that was bound before the
run is stale (`imports_follow_iff`).
-/

namespace Nclav

open Effect

section

variable (F : (c : Call) → Resp c) (registry : DriverRegistry)

/-- The handle that the driver of `e` answers for an import and the handle of its export. -/
def importAnswer (e : Enclave) (im : Import) (exportHandle : Option Handle) : Option Handle :=
  match registry.forEnclave e, exportHandle with
  | .ok driver, some xh =>
    match F (.provisionImport driver e im xh none) with
    | .ok result => some result.handle
    | .error _ => none
  | _, _ => none

/-- Every declared import is bound to what its driver answers for it and for the handle that
is stored under its export. -/
def ImportsFollow (desired : List Enclave) (w : World) : Prop :=
  ∀ e ∈ desired, ∀ im ∈ e.allImports, ∃ h,
    importAnswer F registry e im (w.store.exportHandle im.from_ im.exportName) = some h ∧
      w.store.importHandle e.id im.alias_ = some h

/-- What the driver of `e` answers for an import and for what `provision_export` answered its
exporter in the run. -/
def currentAnswer (w : World) (e : Enclave) (im : Import) : Option Handle :=
  importAnswer F registry e im ((w.lastExport im.from_ im.exportName).map (·.2))

/-- The alias of an import was bound before the run to what its driver answers now, or it was
not bound and the enclave taken for the id declares it with that answer. -/
def Current (st : Store) (desired : List Enclave) (w : World) (e : Enclave) (im : Import) : Prop :=
  ∃ h, currentAnswer F registry w e im = some h ∧
    (st.importHandle e.id im.alias_ = some h ∨
      st.importHandle e.id im.alias_ = none ∧ ∃ enc im', (byId desired)[e.id]? = some enc ∧
        im' ∈ enc.allImports ∧ im'.alias_ = im.alias_ ∧
        currentAnswer F registry w enc im' = some h)

end

section

variable {host : Host} {req : ReconcileRequest} {registry : DriverRegistry}
  {desired : List Enclave} {F : (c : Call) → Resp c}

/-- Of distinct aliases the first with a name is the only one. -/
theorem find?_alias {imports : List Import} (hnodup : (imports.map (·.alias_)).Nodup) {im : Import}
    (him : im ∈ imports) : imports.find? (·.alias_ = im.alias_) = some im := by
  rcases hfind : imports.find? (·.alias_ = im.alias_) with _ | im'
  · have hnone := List.find?_eq_none.mp hfind im him
    simp at hnone
  · have heq := List.inj_on_of_nodup_map hnodup (List.mem_of_find?_eq_some hfind) him
      (alias_of_find? hfind)
    rw [hfind, heq]

theorem importAnswer_of_ok {e : Enclave} {im : Import} {driver : Driver} {xh : Handle}
    {result : ProvisionResult} (hdriver : registry.forEnclave e = .ok driver)
    (hF : F (.provisionImport driver e im xh none) = .ok result) :
    importAnswer F registry e im (some xh) = some result.handle := by
  simp only [importAnswer, hdriver, hF]

/-- **Import handles follow their declarations** after a run without errors exactly where no
handle bound before the run is stale. -/
theorem imports_follow_iff (hlawful : host.topo.Lawful) (hdry : req.dryRun = false)
    (haliases : ∀ e ∈ desired, (e.allImports.map (·.alias_)).Nodup) {st : Store}
    {report : ReconcileReport} {w : World}
    (hrun : Prog.Exec (system (answersBy F)) (reconcileLoaded host req registry desired).run
      (.ofStore st) (.ok report) w) (herrors : report.errors = []) :
    ImportsFollow F registry desired w ↔
      ∀ e ∈ desired, ∀ im ∈ e.allImports, Current F registry st desired w e im := by
  obtain ⟨resolved, hvalid⟩ := validate_of_run hrun
  have hclean : ∀ enc, (byId desired)[enc.id]? = some enc →
      Clean registry (World.ofStore st).store enc w :=
    fun enc henc => clean_of_run hlawful hdry hrun herrors henc
  have hanswer : ∀ e ∈ desired, ∀ im ∈ e.allImports,
      importAnswer F registry e im (w.store.exportHandle im.from_ im.exportName) =
        currentAnswer F registry w e im := by
    intro e he im him
    obtain ⟨ex, xh, hlast, hxh⟩ := lastExport_of_exportHandle hclean hvalid he him
    rw [currentAnswer, hlast, hxh]
    rfl
  refine forall₂_congr fun e he => forall₂_congr fun im him => ?_
  rw [hanswer e he im him]
  refine exists_congr fun h => and_congr_right fun hcurrent => ?_
  obtain ⟨enc, henc⟩ := exists_get?_byId he
  obtain ⟨hmem, hid⟩ := mem_of_get?_byId henc
  rw [← hid] at henc ⊢
  have hst : (World.ofStore st).store = st := rfl
  rcases (hclean enc henc).wiring im.alias_ with ⟨h', hbound, hfinal⟩ | ⟨hbound, hnone, hno⟩ |
    ⟨hbound, first, h', hfind, ⟨driver, xh, result, hdriver, hxh, hlast, rfl⟩, hfinal⟩
  · rw [hst] at hbound
    rw [hfinal, hbound]
    exact ⟨fun heq => .inl heq, fun hor => hor.resolve_right fun hno => by cases hno.1⟩
  · rw [hst] at hbound
    rw [hnone, hbound]
    refine ⟨nofun, ?_⟩
    rintro (hor | ⟨-, enc', im', henc', him', halias, -⟩)
    · exact hor
    · rw [henc] at henc'
      obtain rfl := Option.some.inj henc'
      exact absurd halias (hno im' him')
  · rw [hst] at hbound
    have hfirst : first ∈ enc.allImports := List.mem_of_find?_eq_some hfind
    have hev := log_answers hrun (fun _ h => absurd h List.not_mem_nil) _
      (List.mem_of_find?_eq_some hlast)
    have hF : (.ok result : Resp (.provisionImport driver enc first xh none)) =
        F (.provisionImport driver enc first xh none) := hev rfl
    have hcur : currentAnswer F registry w enc first = some result.handle := by
      rw [← hanswer enc hmem first hfirst, hxh]
      exact importAnswer_of_ok hdriver hF.symm
    rw [hfinal, hbound]
    constructor
    · rintro ⟨⟩
      exact .inr ⟨rfl, enc, first, henc, hfirst, alias_of_find? hfind, hcur⟩
    · rintro (hno | ⟨-, enc', im', henc', him', halias, hcur'⟩)
      · cases hno
      · rw [henc] at henc'
        obtain rfl := Option.some.inj henc'
        have hfind' := find?_alias (haliases enc hmem) him'
        rw [halias, hfind] at hfind'
        obtain rfl := Option.some.inj hfind'
        rw [hcur] at hcur'
        exact hcur'

end

/-! ### Re-pointing an alias -/

/-- The outcome without errors is one of drivers that are functions of their arguments. -/
theorem answersBy_okAnswer (w : World) (c : Call) :
    answersBy (okAnswer .empty) c (okAnswer w c) := by
  cases c <;> first | exact fun _ => rfl | nofun

theorem exec_okRun_answersBy (desired : List Enclave) (w : World) :
    Prog.Exec (system (answersBy (okAnswer .empty)))
      (reconcileLoaded plainHost .default gcpOnly desired).run w (okRun desired w).1
      (okRun desired w).2 :=
  Prog.exec_run (M := system (answersBy (okAnswer .empty)))
    (fun w c => ⟨answers_okAnswer w c, answersBy_okAnswer w c⟩) _ _

/-- An enclave that imports one of the two exports as `db`. -/
def pointing (exportName : String) : Enclave :=
  plainEnclave "b" [] [plainPartition "p" [⟨⟨"a"⟩, exportName, "db"⟩]]

/-- The store after a first run in which the alias stood for `x`. -/
def pointedStore : Store := (okRun [exporter, pointing "x"] .empty).2.store

/-- A second run, in which the alias still stands for `x`, finds no stale handle. -/
theorem imports_follow_again :
    ImportsFollow (okAnswer .empty) gcpOnly [exporter, pointing "x"]
      (okRun [exporter, pointing "x"] (.ofStore pointedStore)).2 := by
  have hrun := exec_okRun_answersBy [exporter, pointing "x"] (.ofStore pointedStore)
  obtain ⟨report, hreport, herrors⟩ : ∃ report,
      (okRun [exporter, pointing "x"] (.ofStore pointedStore)).1 = .ok report ∧
        report.errors = [] :=
    ⟨_, rfl, rfl⟩
  rw [hreport] at hrun
  refine (imports_follow_iff Topo.kahn_lawful rfl ?_ hrun herrors).mpr fun e he im him => ?_
  · intro e he
    rcases List.mem_cons.mp he with rfl | he
    · exact List.nodup_nil
    · obtain rfl := List.mem_singleton.mp he
      exact List.nodup_singleton _
  · rcases List.mem_cons.mp he with rfl | he
    · exact absurd him List.not_mem_nil
    · obtain rfl := List.mem_singleton.mp he
      obtain rfl := List.mem_singleton.mp him
      have hbound : pointedStore.importHandle ⟨"b"⟩ "db" = some (.str "x") := rfl
      exact ⟨.str "x", rfl, .inl hbound⟩

/-- **The alias is re-pointed.** Two runs without errors, from the empty store on; the second
asks for `y` under the alias, which stays bound to the handle of `x`. -/
theorem repointed_alias_stale :
    (∃ report, Prog.Exec (system (answersBy (okAnswer .empty)))
        (reconcileLoaded plainHost .default gcpOnly [exporter, pointing "x"]).run .empty
        (.ok report) (okRun [exporter, pointing "x"] .empty).2 ∧ report.errors = []) ∧
      ∃ report w, Prog.Exec (system (answersBy (okAnswer .empty)))
          (reconcileLoaded plainHost .default gcpOnly [exporter, pointing "y"]).run
          (.ofStore pointedStore) (.ok report) w ∧
        report.errors = [] ∧
        ¬ ImportsFollow (okAnswer .empty) gcpOnly [exporter, pointing "y"] w := by
  refine ⟨⟨_, exec_okRun_answersBy [exporter, pointing "x"] .empty, rfl⟩,
    _, _, exec_okRun_answersBy [exporter, pointing "y"] (.ofStore pointedStore), rfl, fun hfollow => ?_⟩
  obtain ⟨h, hanswer, hbound⟩ := hfollow (pointing "y") (by simp) ⟨⟨"a"⟩, "y", "db"⟩
    (List.mem_cons_self ..)
  have hy : importAnswer (okAnswer .empty) gcpOnly (pointing "y") ⟨⟨"a"⟩, "y", "db"⟩
      ((okRun [exporter, pointing "y"] (.ofStore pointedStore)).2.store.exportHandle ⟨"a"⟩ "y") =
        some (.str "y") := rfl
  have hx : (okRun [exporter, pointing "y"] (.ofStore pointedStore)).2.store.importHandle
      ⟨"b"⟩ "db" = some (.str "x") := rfl
  have heq := hx.symm.trans (hbound.trans (hanswer.symm.trans hy))
  exact absurd heq (by decide)

end Nclav
