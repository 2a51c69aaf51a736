import Nclav.Guarantees.Removal
import Nclav.Reconciler.Handles

/-!
# The scope of an alias

An import is declared by one partition, and the templates of that partition look its alias
up. The aliases of an enclave and of all its partitions share one map, in which the first
declaration wins. So after a run without errors from the empty store a partition finds the
export it imports exactly when the first declaration of the alias is for the same export
(`aliases_scoped_iff`).
-/

namespace Nclav

open Effect

/-- The alias of the import is bound in the record of the enclave, by the newest call for it,
to a handle built from the export that the import names. -/
def BuiltFromOwn (w : World) (id : EnclaveId) (im : Import) : Prop :=
  ∃ driver enc im' xh existing result,
    w.lastImport id im.alias_ =
      some ⟨.provisionImport driver enc im' xh existing, .ok result⟩ ∧
    im'.from_ = im.from_ ∧ im'.exportName = im.exportName ∧
    (∃ ex, w.lastExport im.from_ im.exportName = some (ex, xh)) ∧
    w.store.importHandle id im.alias_ = some result.handle

/-- Every partition's imports are what their aliases stand for. -/
def AliasesScoped (desired : List Enclave) (w : World) : Prop :=
  ∀ e ∈ desired, ∀ part ∈ e.partitions, ∀ im ∈ part.imports, BuiltFromOwn w e.id im

/-- The first import of the enclave that declares the alias is for the same export. -/
def FirstDeclaration (enc : Enclave) (im : Import) : Prop :=
  ∃ first, enc.allImports.find? (·.alias_ = im.alias_) = some first ∧
    first.from_ = im.from_ ∧ first.exportName = im.exportName

theorem mem_allImports {enc : Enclave} {part : Partition} (hpart : part ∈ enc.partitions)
    {im : Import} (him : im ∈ part.imports) : im ∈ enc.allImports :=
  List.mem_append_right _ (List.mem_flatMap.mpr ⟨part, hpart, him⟩)

section

variable {A : (c : Call) → Resp c → Prop} {host : Host} {req : ReconcileRequest}
  {registry : DriverRegistry} {desired : List Enclave}

theorem validate_of_run {w w' : World} {report : ReconcileReport}
    (hrun : Prog.Exec (system A) (reconcileLoaded host req registry desired).run w
      (.ok report) w') : ∃ resolved, validate host.topo desired = .ok resolved := by
  rcases hvalid : validate host.topo desired with e | resolved
  · rw [reconcileLoaded_of_invalid hvalid] at hrun
    cases hrun
  · exact ⟨resolved, rfl⟩

/-- The handle that an import was built from is the newest of its export. -/
theorem lastExport_of_exportHandle {st : Store} {w : World}
    (hclean : ∀ enc, (byId desired)[enc.id]? = some enc → Clean registry st enc w)
    {topo : Topo.TopoSort} {resolved : ResolvedGraph}
    (hvalid : validate topo desired = .ok resolved) {e : Enclave} (he : e ∈ desired)
    {im : Import} (him : im ∈ e.allImports) :
    ∃ ex xh, w.lastExport im.from_ im.exportName = some (ex, xh) ∧
      w.store.exportHandle im.from_ im.exportName = some xh := by
  obtain ⟨source, ex, hsource, hex, -⟩ := validate_import hvalid he him
  have hid : source.id = im.from_ := (mem_of_get?_byId hsource).2
  have hname : ex.name = im.exportName := by simpa using List.find?_some hex
  rw [← hid] at hsource ⊢
  rw [← hname]
  exact (hclean source hsource).exports ex (List.mem_of_find?_eq_some hex)

/-- **The scope of an alias.** After a run without errors from the empty store the aliases of
all partitions stand for their own imports exactly when each is first declared, in the
enclave that the run took for the id, for the same export. -/
theorem aliases_scoped_iff (hlawful : host.topo.Lawful) (hdry : req.dryRun = false)
    {report : ReconcileReport} {w : World}
    (hrun : Prog.Exec (system anyAnswer) (reconcileLoaded host req registry desired).run .empty
      (.ok report) w) (herrors : report.errors = []) :
    AliasesScoped desired w ↔
      ∀ e ∈ desired, ∀ part ∈ e.partitions, ∀ im ∈ part.imports,
        ∃ enc, (byId desired)[e.id]? = some enc ∧ FirstDeclaration enc im := by
  obtain ⟨resolved, hvalid⟩ := validate_of_run hrun
  have hclean : ∀ enc, (byId desired)[enc.id]? = some enc →
      Clean registry World.empty.store enc w :=
    fun enc henc => clean_of_run hlawful hdry hrun herrors henc
  have hbound : ∀ e ∈ desired, ∀ im ∈ e.allImports,
      BuiltFromOwn w e.id im ↔
        ∃ enc, (byId desired)[e.id]? = some enc ∧ FirstDeclaration enc im := by
    intro e he im him
    obtain ⟨enc, henc⟩ := exists_get?_byId he
    have hid := (mem_of_get?_byId henc).2
    rw [← hid] at henc ⊢
    have hempty : World.empty.store.importHandle enc.id im.alias_ = none := by
      simp [Store.importHandle, World.empty]
    rcases (hclean enc henc).wiring im.alias_ with ⟨h, hst, -⟩ | ⟨-, hnone, hno⟩ |
      ⟨-, first, h, hfind, ⟨driver, xh, result, -, hxh, hlast, rfl⟩, hhandle⟩
    · rw [hempty] at hst
      cases hst
    · constructor
      · rintro ⟨_, _, _, _, _, _, -, -, -, -, hsome⟩
        rw [hnone] at hsome
        cases hsome
      · rintro ⟨enc', henc', first, hfind, -⟩
        rw [henc] at henc'
        obtain rfl := Option.some.inj henc'
        exact absurd (alias_of_find? hfind) (hno first (List.mem_of_find?_eq_some hfind))
    · rw [alias_of_find? hfind] at hlast
      constructor
      · rintro ⟨_, _, im', _, _, _, hlast', hfrom, hname, -⟩
        rw [hlast] at hlast'
        cases hlast'
        exact ⟨enc, henc, first, hfind, hfrom, hname⟩
      · rintro ⟨enc', henc', first', hfind', hfrom, hname⟩
        rw [henc] at henc'
        obtain rfl := Option.some.inj henc'
        rw [hfind] at hfind'
        obtain rfl := Option.some.inj hfind'
        obtain ⟨ex, xh', hexport, hxh'⟩ := lastExport_of_exportHandle hclean hvalid he him
        rw [hfrom, hname, hxh'] at hxh
        obtain rfl := Option.some.inj hxh
        exact ⟨driver, enc, first, xh', none, result, hlast, hfrom, hname, ⟨ex, hexport⟩, hhandle⟩
  exact forall₂_congr fun e he => forall₂_congr fun part hpart => forall₂_congr fun im him =>
    hbound e he im (mem_allImports hpart him)

end

/-! ### One alias for two exports -/

def plainPartition (id : String) (imports : List Import) : Partition :=
  ⟨⟨id⟩, id, none, imports, [], ∅, [], .terraform ⟨none, none, ""⟩⟩

def plainExport (name : String) (to_ : ExportTarget) : Export :=
  ⟨name, ⟨"p"⟩, .http, to_, .none, none, none⟩

def plainEnclave (id : String) (exports : List Export) (partitions : List Partition) : Enclave :=
  ⟨⟨id⟩, id, none, "r", none, none, none, [], exports, partitions⟩

/-- An enclave that exports `x` and `y` to everyone. -/
def exporter : Enclave :=
  plainEnclave "a" [plainExport "x" .anyEnclave, plainExport "y" .anyEnclave]
    [plainPartition "p" []]

/-- An enclave with two partitions, one for each export, under these aliases. -/
def importer (alias₁ alias₂ : String) : Enclave :=
  plainEnclave "b" []
    [plainPartition "p" [⟨⟨"a"⟩, "x", alias₁⟩], plainPartition "q" [⟨⟨"a"⟩, "y", alias₂⟩]]

/-- The run without errors of a list from a world. -/
def okRun (desired : List Enclave) (w : World) : Except ReconcileError ReconcileReport × World :=
  Prog.run World.next okAnswer (reconcileLoaded plainHost .default gcpOnly desired).run w

theorem exec_okRun (desired : List Enclave) (w : World) :
    Prog.Exec (system anyAnswer) (reconcileLoaded plainHost .default gcpOnly desired).run w
      (okRun desired w).1 (okRun desired w).2 :=
  exec_okAnswer _ _

/-- With two aliases both partitions find their own export. -/
theorem two_aliases_scoped :
    AliasesScoped [exporter, importer "x" "y"] (okRun [exporter, importer "x" "y"] .empty).2 := by
  have hrun := exec_okRun [exporter, importer "x" "y"] .empty
  obtain ⟨report, hreport, herrors⟩ : ∃ report,
      (okRun [exporter, importer "x" "y"] .empty).1 = .ok report ∧ report.errors = [] :=
    ⟨_, rfl, rfl⟩
  rw [hreport] at hrun
  refine (aliases_scoped_iff Topo.kahn_lawful rfl hrun herrors).mpr fun e he part hpart im him => ?_
  rcases List.mem_cons.mp he with rfl | he
  · obtain rfl := List.mem_singleton.mp hpart
    exact absurd him List.not_mem_nil
  · obtain rfl := List.mem_singleton.mp he
    rcases List.mem_cons.mp hpart with rfl | hpart
    · obtain rfl := List.mem_singleton.mp him
      exact ⟨_, rfl, _, rfl, rfl, rfl⟩
    · obtain rfl := List.mem_singleton.mp hpart
      obtain rfl := List.mem_singleton.mp him
      exact ⟨_, rfl, _, rfl, rfl, rfl⟩

/-- **The same alias twice.** After a run without errors from the empty store the second
partition finds the export `x` under the alias of its import of `y`. -/
theorem alias_clash_not_scoped :
    ∃ report w, Prog.Exec (system anyAnswer)
        (reconcileLoaded plainHost .default gcpOnly [exporter, importer "db" "db"]).run .empty
        (.ok report) w ∧
      report.errors = [] ∧ ¬ AliasesScoped [exporter, importer "db" "db"] w := by
  have hrun := exec_okRun [exporter, importer "db" "db"] .empty
  obtain ⟨report, hreport, herrors⟩ : ∃ report,
      (okRun [exporter, importer "db" "db"] .empty).1 = .ok report ∧ report.errors = [] :=
    ⟨_, rfl, rfl⟩
  rw [hreport] at hrun
  refine ⟨report, _, hrun, herrors, fun hscoped => ?_⟩
  obtain ⟨driver, enc, im, xh, existing, result, hlast, -, hname, -⟩ :=
    hscoped (importer "db" "db") (by simp) (plainPartition "q" [⟨⟨"a"⟩, "y", "db"⟩])
      (List.mem_cons_of_mem _ (List.mem_cons_self ..)) ⟨⟨"a"⟩, "y", "db"⟩ (List.mem_cons_self ..)
  have hfirst : (okRun [exporter, importer "db" "db"] .empty).2.lastImport ⟨"b"⟩ "db" =
      some ⟨.provisionImport plainDriver (importer "db" "db") ⟨⟨"a"⟩, "x", "db"⟩ (.str "x") none,
        .ok ⟨.str "x", ∅⟩⟩ := rfl
  have heq := hfirst.symm.trans hlast
  cases heq
  exact absurd hname (by decide)

end Nclav
