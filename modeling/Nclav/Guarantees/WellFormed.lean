import Nclav.Api.History
import Nclav.Guarantees.Removal
import Nclav.Reconciler.Records

/-!
# Well-formed records

What the metadata of a stored record says goes together with its handle: an active resource has
one, an error has a message, a hash goes with a creation time, and partitions are only recorded
in an enclave that has a handle. This holds of every record ever stored, at each call of every
request.
-/

namespace Nclav

open Effect

/-- The metadata of a resource with this desired hash and this handle. -/
structure ResourceMeta.WellFormed (m : ResourceMeta) (hash : String) (handle : Option Handle) :
    Prop where
  active : m.status = .active → handle.isSome = true ∧ m.createdAt.isSome = true ∧
    m.updatedAt.isSome = true ∧ m.lastError = none ∧ m.desiredHash = some hash
  error : m.status = .error → m.lastError.isSome = true
  hash : m.desiredHash.isSome = true ↔ m.createdAt.isSome = true

def PartitionState.WellFormed (host : Host) (ps : PartitionState) : Prop :=
  ps.meta_.WellFormed (host.partitionHash ps.desired) ps.partitionHandle

/-- A stored record, with the partitions in it. -/
structure EnclaveState.WellFormed (host : Host) (s : EnclaveState) : Prop where
  enclave : s.meta_.WellFormed (host.enclaveHash s.desired) s.enclaveHandle
  cloud : s.meta_.status = .active → s.resolvedCloud.isSome = true
  partition : ∀ (pid : PartitionId) ps, s.partitions[pid]? = some ps → ps.WellFormed host
  handle : ∀ (pid : PartitionId) ps, s.partitions[pid]? = some ps → s.enclaveHandle.isSome = true

namespace ResourceMeta

variable {m : ResourceMeta} {hash hash' : String} {handle handle' : Option Handle}

theorem wellFormed_default : ResourceMeta.default.WellFormed hash handle :=
  ⟨nofun, nofun, ⟨nofun, nofun⟩⟩

/-- While a resource is in flight only its hash and its creation time go together. -/
theorem WellFormed.inFlight (h : m.WellFormed hash handle) {status : ProvisioningStatus}
    (hactive : status ≠ .active) (herror : status ≠ .error) :
    WellFormed { m with status } hash' handle' :=
  ⟨fun hs => absurd hs hactive, fun hs => absurd hs herror, h.hash⟩

theorem WellFormed.markActive (now : DateTime) (h : Handle) :
    (m.markActive now hash).WellFormed hash (some h) := by
  refine ⟨fun _ => ⟨rfl, ?_, rfl, rfl, rfl⟩, nofun, ⟨fun _ => ?_, fun _ => rfl⟩⟩
  all_goals
    rcases hm : m.createdAt with _ | t
    · simp [ResourceMeta.markActive, hm]
    · simp [ResourceMeta.markActive, hm]

theorem WellFormed.markError (h : m.WellFormed hash handle) (now : DateTime) (msg : String) :
    (m.markError now msg).WellFormed hash' handle' :=
  ⟨nofun, fun _ => rfl, h.hash⟩

end ResourceMeta

/-! ## Partitions -/

section

variable {host : Host} {run : Run} {enc : Enclave} {part : Partition}

/-- Writing a well-formed partition into a well-formed record. -/
theorem EnclaveState.WellFormed.insert {s : EnclaveState} (h : s.WellFormed host)
    {pid : PartitionId} {ps : PartitionState} (hps : ps.WellFormed host)
    (hhandle : s.enclaveHandle.isSome = true) :
    EnclaveState.WellFormed host { s with partitions := s.partitions.insert pid ps } where
  enclave := h.enclave
  cloud := h.cloud
  partition pid' ps' hget := by
    rw [HashMap.get?_insert] at hget
    split at hget
    · obtain rfl := Option.some.inj hget
      exact hps
    · exact h.partition pid' ps' hget
  handle _ _ _ := hhandle

/-- The partition is in flight: in the record, with the declaration at hand. -/
structure Holding (host : Host) (part : Partition) (s : EnclaveState) : Prop where
  wellFormed : s.WellFormed host
  held : ∃ ps, s.partitions[part.id]? = some ps ∧ ps.desired = part

theorem Holding.withHandle {s : EnclaveState} (h : Holding host part s) :
    s.WellFormed host ∧ s.enclaveHandle.isSome = true := by
  obtain ⟨ps, hps, -⟩ := h.held
  exact ⟨h.wellFormed, h.wellFormed.handle part.id ps hps⟩

/-- Updating the partition in flight. -/
theorem Holding.update {s : EnclaveState} (h : Holding host part s)
    {f : PartitionState → PartitionState} (hdesired : ∀ ps, (f ps).desired = ps.desired)
    (hf : ∀ ps, ps.desired = part → ps.WellFormed host → (f ps).WellFormed host) :
    Holding host part (s.updatePartition part f) := by
  obtain ⟨ps, hps, hpart⟩ := h.held
  have hwf := h.wellFormed.partition part.id ps hps
  have hhandle := h.wellFormed.handle part.id ps hps
  rw [EnclaveState.updatePartition, hps, Option.getD_some]
  refine ⟨h.wellFormed.insert (hf ps hpart hwf) hhandle, f ps, ?_, (hdesired ps).trans hpart⟩
  simp only [HashMap.get?_insert, if_true]

/-- The visit of a partition keeps the record of an enclave with a handle well-formed. -/
theorem partitionSteps_wellFormed (hhost : run.host = host) :
    PartitionSteps run part
      (fun s => s.WellFormed host ∧ s.enclaveHandle.isSome = true) (Holding host part) where
  inFlight := by
    rintro s ⟨hs, hhandle⟩
    refine ⟨hs.insert ?_ hhandle, .inFlight s.partitions[part.id]? part, ?_, ?_⟩
    · have hstatus : ∀ handle : Option Handle,
          (if handle.isSome then .updating else .provisioning : ProvisioningStatus) ≠ .active ∧
          (if handle.isSome then .updating else .provisioning : ProvisioningStatus) ≠ .error := by
        rintro (_ | h) <;> exact ⟨nofun, nofun⟩
      rcases hex : s.partitions[part.id]? with _ | ps
      · have hnew : ResourceMeta.default.WellFormed "" none := ResourceMeta.wellFormed_default
        exact hnew.inFlight (hstatus _).1 (hstatus _).2
      · exact (hs.partition part.id ps hex).inFlight (hstatus _).1 (hstatus _).2
    · simp only [EnclaveState.withInFlight, HashMap.get?_insert, if_true]
    · rfl
  handle s h hs := by
    refine hs.update (fun _ => rfl) fun ps _ hps => ?_
    exact ⟨fun hactive => ⟨rfl, (hps.active hactive).2⟩, hps.error, hps.hash⟩
  applied s now result hs := by
    have h : Holding host part (s.withApplied run part now result) := by
      refine hs.update (fun _ => rfl) fun ps hpart _ => ?_
      rw [hhost, ← hpart]
      exact ResourceMeta.WellFormed.markActive now result.handle
    exact h.withHandle
  failed s now msg hs := by
    have h : Holding host part (s.withFailed part now msg) :=
      hs.update (fun _ => rfl) fun ps _ hps => ResourceMeta.WellFormed.markError hps now msg
    exact h.withHandle

/-! ## Enclaves -/

/-- The visit of an enclave whose record in the snapshot is well-formed. -/
theorem enclaveSteps_wellFormed (hhost : run.host = host)
    (hexisting : ∀ s, run.existing enc.id = some s → s.WellFormed host) :
    EnclaveSteps run enc (EnclaveState.WellFormed host)
      fun s => s.WellFormed host ∧ s.enclaveHandle.isSome = true := by
  -- the record in flight, whose metadata may be replaced
  have hinFlight : ∀ m handle, m.WellFormed (host.enclaveHash enc) handle →
      ((EnclaveState.inFlight run enc).enclaveHandle.isSome = true → handle.isSome = true) →
      EnclaveState.WellFormed host
        { EnclaveState.inFlight run enc with enclaveHandle := handle, meta_ := m } := by
    intro m handle hm hhandle
    have hparts : ∀ (pid : PartitionId) ps,
        (EnclaveState.inFlight run enc).partitions[pid]? = some ps →
          ps.WellFormed host ∧ (EnclaveState.inFlight run enc).enclaveHandle.isSome = true := by
      intro pid ps hps
      rw [EnclaveState.inFlight] at hps ⊢
      rcases hex : run.existing enc.id with _ | s
      · simp [hex, EnclaveState.new] at hps
      · rw [hex] at hps
        exact ⟨(hexisting s hex).partition pid ps hps, (hexisting s hex).handle pid ps hps⟩
    exact ⟨hm, fun _ => rfl, fun pid ps hps => (hparts pid ps hps).1,
      fun pid ps hps => hhandle (hparts pid ps hps).2⟩
  have hmeta : ∃ hash handle, (EnclaveState.inFlight run enc).meta_.WellFormed hash handle ∧
      (EnclaveState.inFlight run enc).meta_.status ≠ .active ∧
      (EnclaveState.inFlight run enc).meta_.status ≠ .error := by
    rw [EnclaveState.inFlight]
    rcases hex : run.existing enc.id with _ | s
    · have hnew : ResourceMeta.default.WellFormed "" none := ResourceMeta.wellFormed_default
      exact ⟨"", none, hnew.inFlight (by rintro ⟨⟩) (by rintro ⟨⟩), by rintro ⟨⟩, by rintro ⟨⟩⟩
    · exact ⟨"", none, (hexisting s hex).enclave.inFlight (by rintro ⟨⟩) (by rintro ⟨⟩),
        by rintro ⟨⟩, by rintro ⟨⟩⟩
  obtain ⟨hash, handle, hm, hactive, herror⟩ := hmeta
  refine ⟨?_, fun now msg => ?_, fun now h => ?_, fun part _ => ?_, ?_, fun _ hs => hs.1⟩
  · exact hinFlight _ _ ⟨fun h => absurd h hactive, fun h => absurd h herror, hm.hash⟩ fun h => h
  · exact hinFlight _ _ (hm.markError now msg) fun h => h
  · refine ⟨hinFlight _ _ ?_ fun _ => rfl, rfl⟩
    rw [hhost]
    exact .markActive now h
  · exact ⟨Holding host part, partitionSteps_wellFormed hhost, fun _ hs => hs.wellFormed⟩
  · rintro s ⟨hs, hhandle⟩ ex _ h
    exact ⟨⟨hs.enclave, hs.cloud, hs.partition, hs.handle⟩, hhandle⟩

end

/-! ## Histories -/

section

variable {host : Host}

theorem stores_wellFormed :
    Stores (EnclaveState.WellFormed host)
      (World.Always (World.Records (EnclaveState.WellFormed host))) where
  records h _ _ hs := h.now _ _ hs
  next c r h hupsert hdelete :=
    h.next (h.now.next c r hupsert fun id pid hc => absurd hc (hdelete id pid))

/-- Deleting keeps what is left well-formed. -/
theorem keeps_wellFormed_of_deletes {ε α : Type} {id : EnclaveId} {Q : α → Prop}
    {x : ExceptT ε Sys α} (hx : Prog.CallsE (Call.Deletes id) Q x) :
    Prog.Keeps (system anyAnswer)
      (World.Always (World.Records (EnclaveState.WellFormed host))) x := by
  refine hx.keeps _ fun w c r hc _ h => h.next (h.now.next c r ?_ fun id' pid _ s hs => ?_)
  · rintro s rfl
    cases hc
  · have herase : ∀ (pid' : PartitionId) ps, (s.partitions.erase pid)[pid']? = some ps →
        s.partitions[pid']? = some ps := by
      intro pid' ps hps
      rw [HashMap.get?_erase] at hps
      split at hps
      · cases hps
      · exact hps
    exact ⟨hs.enclave, hs.cloud, fun pid' ps hps => hs.partition pid' ps (herase pid' ps hps),
      fun pid' ps hps => hs.handle pid' ps (herase pid' ps hps)⟩

end

/-- **Stored records are well-formed** in every reachable world: after any sequence of
reconciles and deletions, each possibly cut off, whatever the calls answered. -/
theorem records_wellFormed {host : Host} {w : World} (h : Reachable host w) (id : EnclaveId)
    (s : EnclaveState) (hs : w.store.get? id = some s) : s.WellFormed host := by
  refine Reachable.invariant (P := World.Records (EnclaveState.WellFormed host)) ?_
    (fun fs root req registry => ?_) (fun state id' resourcesOnly => ?_)
    (fun state id' pid => ?_) h id s hs
  · intro id' s' hs'
    rw [World.empty, Store.get?_empty] at hs'
    cases hs'
  · refine keeps_reconcile (fun _ _ => stores_wellFormed.quiet)
      fun desired _ run resolved removed w₁ w₂ hstart _ hw₁ hw₂ => ?_
    refine keeps_passes stores_wellFormed (fun id' s' hs' => hstart.keyed hs')
      (fun enc _ => ⟨_, enclaveSteps_wellFormed hstart.host_eq fun s' hs' => ?_⟩)
      (fun s' _ hs' => ⟨hs'.enclave, hs'.cloud, hs'.partition, hs'.handle⟩) hw₂
    rw [hstart.existing] at hs'
    exact hw₁.now _ _ hs'
  · exact keeps_wellFormed_of_deletes (deleteEnclave_calls resourcesOnly)
  · exact keeps_wellFormed_of_deletes (deletePartition_calls pid)

/-! ### After one apply -/

/-- Terraform fails on a partition that is called `q`; nothing else fails. -/
def refusingAnswer (w : World) : (c : Call) → Resp c
  | .tfProvision tf enc part inputs authEnv runId =>
    if part.name = "q" ∧ tf.testMode = false then .error (.provisionFailed "refused")
    else okAnswer w (.tfProvision tf enc part inputs authEnv runId)
  | c => okAnswer w c

theorem answers_refusingAnswer (w : World) (c : Call) : answers w c (refusingAnswer w c) := by
  cases c with
  | tfProvision tf enc part inputs authEnv runId =>
    intro htest
    simp only [refusingAnswer]
    rw [if_neg fun h => by rw [htest] at h; cases h.2]
    rfl
  | _ => exact answers_okAnswer w _

/-- The files of two enclaves: `a` has two partitions and exports the first, `b` imports that. -/
def sharedFiles : FileSystem where
  readConfig path :=
    if path = "enclaves/a/config.yml" then some (.ok "id: a")
    else if path = "enclaves/a/p/config.yml" then some (.ok "id: p")
    else if path = "enclaves/a/q/config.yml" then some (.ok "id: q")
    else if path = "enclaves/b/config.yml" then some (.ok "id: b")
    else none
  parseYaml text :=
    if text = "id: a" then
      some (.record [("id", .str "a"), ("name", .str "a"), ("region", .str "r"),
        ("partitions", .seq [.str "p", .str "q"]),
        ("exports", .seq [.record [("name", .str "x"), ("target_partition", .str "p"),
          ("type", .str "http"), ("to", .str "public"), ("auth", .str "none")]])])
    else if text = "id: p" then
      some (.record [("id", .str "p"), ("name", .str "p"), ("produces", .str "http"),
        ("declared_outputs", .seq [.str "hostname", .str "port"])])
    else if text = "id: q" then some (.record [("id", .str "q"), ("name", .str "q")])
    else if text = "id: b" then
      some (.record [("id", .str "b"), ("name", .str "b"), ("region", .str "r"),
        ("imports", .seq [.record [("from", .str "a"), ("export_name", .str "x"),
          ("alias", .str "y")]])])
    else none
  yamlError _ := ""

def sharedRoot : Dir := .readable [.dir "a" (.readable []), .dir "b" (.readable [])]

/-- The reconcile of these files in which Terraform refuses the second partition. -/
def sharedRun : Except ReconcileError ReconcileReport × World :=
  Prog.run World.next refusingAnswer
    (reconcile plainHost sharedFiles sharedRoot enclavesRequest gcpOnly).run .empty

def sharedWorld : World := sharedRun.2

theorem exec_sharedRun :
    Prog.Exec (system anyAnswer)
      (reconcile plainHost sharedFiles sharedRoot enclavesRequest gcpOnly).run .empty sharedRun.1
      sharedWorld :=
  Prog.exec_run (M := system anyAnswer) (fun w c => ⟨answers_refusingAnswer w c, trivial⟩) _ _

theorem reachable_sharedWorld : Reachable plainHost sharedWorld :=
  .reconcile sharedFiles sharedRoot enclavesRequest gcpOnly .empty exec_sharedRun.visits

/-- The record of the enclave with the two partitions, of which the one is active and the other
failed. -/
theorem sharedEnclave_wellFormed :
    ∃ s p q, sharedWorld.store.get? ⟨"a"⟩ = some s ∧
      s.partitions[(⟨"p"⟩ : PartitionId)]? = some p ∧ p.meta_.status = .active ∧
      s.partitions[(⟨"q"⟩ : PartitionId)]? = some q ∧ q.meta_.status = .error ∧
      s.WellFormed plainHost :=
  ⟨_, _, _, rfl, rfl, rfl, rfl, rfl, records_wellFormed reachable_sharedWorld ⟨"a"⟩ _ rfl⟩

end Nclav
