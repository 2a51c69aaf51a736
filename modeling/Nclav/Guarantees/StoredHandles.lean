import Nclav.Guarantees.AliasScope
import Nclav.Guarantees.Creation

/-!
# What becomes of a partition's handle

After a partition's Terraform run the handle that its driver returned is replaced by Terraform's,
into which the service account alone is merged. So the driver finds the fields that it reads again
exactly on GCP (`stored_handle_iff`); on the other two clouds the identity that was created for the
partition is never deleted.
-/

namespace Nclav

open Effect Serde

/-! ## What the drivers read -/

/-- The fields of a partition's handle that the driver of a cloud reads. -/
def CloudTarget.handleFields : CloudTarget → List String
  | .local => []
  | .gcp => ["partition_sa"]
  | .azure => ["subscription_id", "driver", "kind"]
  | .aws => ["account_id", "driver", "kind"]

/-- The handles agree on what the driver of the cloud reads. -/
def Handle.Agrees (cloud : CloudTarget) (h h' : Handle) : Prop :=
  ∀ k ∈ cloud.handleFields, h.idx k = h'.idx k

namespace CloudDrivers

variable (ds : CloudDrivers)

/-- `provision_partition` of the driver of a cloud. -/
def provisionPartition : CloudTarget → Enclave → Partition → HashMap String String →
    Option Handle → Cloud ProvisionResult
  | .local => fun enc part inputs existing =>
    ExceptT.mk (.ret (LocalDriver.provisionPartition enc part inputs existing))
  | .gcp => ds.gcp.provisionPartition
  | .azure => ds.azure.provisionPartition
  | .aws => ds.aws.provisionPartition

/-- `teardown_partition` of the driver of a cloud. -/
def teardownPartition : CloudTarget → Enclave → Partition → Handle → Cloud Unit
  | .local => fun enc part handle =>
    ExceptT.mk (.ret (LocalDriver.teardownPartition enc part handle))
  | .gcp => ds.gcp.teardownPartition
  | .azure => ds.azure.teardownPartition
  | .aws => ds.aws.teardownPartition

/-- The deletion of the identity that the handle is about. -/
def deletesIdentity (cloud : CloudTarget) (enc : Enclave) (part : Partition) (handle : Handle)
    (ev : CloudEvent) : Prop :=
  match cloud with
  | .local => False
  | .gcp => ∃ saEmail token r, handle.idx "partition_sa" = .str saEmail ∧
      ev = ⟨.delete (ds.gcp.serviceAccountUrl (ds.gcp.gcpProjectId enc.id.val) saEmail) token, r⟩
  | .azure => ∃ subId miName r, handle.idx "subscription_id" = .str subId ∧
      ds.azure.partitionMiName part.id.val = some miName ∧
      ev = ⟨.armDelete (ds.azure.identityUrl subId miName), r⟩
  | .aws => ∃ creds roleName r, ds.aws.partitionRoleName part.id.val = some roleName ∧
      ev = ⟨ds.aws.iamRequest creds "DeleteRole" roleName [], r⟩

/-- The calls of `provision_partition` in a run answer what the drivers make of their requests. -/
def Answers : (c : Call) → Resp c → Prop
  | .provisionPartition driver enc part inputs existing, r => ∀ cloud, driver = ds.driver cloud →
    ∃ log log', Prog.Exec recorder (ds.provisionPartition cloud enc part inputs existing).run log r
      log'
  | _, _ => True

variable {ds} {enc : Enclave} {part : Partition} {h h' : Handle} {inputs : HashMap String String}

/-- These fields are all that a teardown reads. -/
theorem teardownPartition_congr {cloud : CloudTarget} (hagrees : Handle.Agrees cloud h h') :
    ds.teardownPartition cloud enc part h = ds.teardownPartition cloud enc part h' := by
  cases cloud with
  | «local» => rfl
  | gcp =>
    have hsa := hagrees "partition_sa" (by decide)
    simp only [teardownPartition, GcpDriver.teardownPartition, hsa]
  | azure =>
    have hsub : strOr h "subscription_id" "" = strOr h' "subscription_id" "" := by
      rw [strOr, strOr, hagrees "subscription_id" (by decide)]
    simp only [teardownPartition, AzureDriver.teardownPartition]
    rw [hsub]
  | aws =>
    have haccount : strOr h "account_id" "" = strOr h' "account_id" "" := by
      rw [strOr, strOr, hagrees "account_id" (by decide)]
    simp only [teardownPartition, AwsDriver.teardownPartition]
    rw [haccount]

/-! ## What the drivers return -/

/-- What is in every handle of a partition that the driver of a cloud returns. -/
def Signed (cloud : CloudTarget) (h : Handle) : Prop :=
  match cloud with
  | .local => True
  | .gcp => ∃ saEmail, h.idx "partition_sa" = .str saEmail
  | .azure | .aws => h.idx "driver" = .str (toString cloud)

theorem asStr_eq_some {v : Value} {s : String} (h : v.asStr = some s) : v = .str s := by
  cases v with
  | str s' => rw [Option.some.inj h]
  | _ => cases h

theorem provisionPartition_signed (cloud : CloudTarget) (existing : Option Handle) :
    Returns (fun result => Signed cloud result.handle)
      (ds.provisionPartition cloud enc part inputs existing) := by
  cases cloud with
  | «local» => exact fun _ _ _ => trivial
  | gcp =>
    refine .bind_right fun token => .bind_right fun sa => .bind_right fun _ => .bind_right fun _ =>
      .bind_right fun _ => .pure ⟨s!"{sa}@{ds.gcp.gcpProjectId enc.id.val}.iam.gserviceaccount.com", ?_⟩
    simp [Value.idx_object, Value.lookup_cons_eq_ite]
  | azure =>
    simp only [provisionPartition, AzureDriver.provisionPartition]
    split
    · rename_i handle hreuse
      have hown := (Option.filter_eq_some_iff.mp hreuse).2
      simp only [AzureDriver.isPartitionHandle, Bool.and_eq_true, decide_eq_true_eq] at hown
      exact .pure (asStr_eq_some hown.2)
    · split
      · rintro log _ ⟨⟩
      · exact .bind_right fun mi => .bind_right fun ids => .bind_right fun _ =>
          .pure (Value.idx_object _ _)
  | aws =>
    simp only [provisionPartition, AwsDriver.provisionPartition]
    split
    · rename_i handle hreuse
      have hown := (Option.filter_eq_some_iff.mp hreuse).2
      simp only [AwsDriver.isPartitionHandle, Bool.and_eq_true, decide_eq_true_eq] at hown
      exact .pure (asStr_eq_some hown.1)
    · split
      · rintro log _ ⟨⟩
      · refine .bind_right fun creds => .bind_right fun role => .bind_right fun arn =>
          .bind_right fun _ => .pure ?_
        exact Value.idx_object _ _

end CloudDrivers

/-! ## What is stored -/

section

variable {host : Host} {tf : TerraformBackend} {enc : Enclave} {part : Partition} {sa : Handle}

/-- A field of the stored handle that Terraform's own does not have: the service account if the
driver's handle has one, and nothing else. -/
theorem idx_mergeSaHandle {k : String} (hk : k ∉ ["backend", "workspace", "enclave_id", "partition_id"]) :
    (mergeSaHandle sa (tf.handle host enc part)).idx k =
      if k = "partition_sa" then (((sa.idx k).asStr).map Value.str).getD .null else .null := by
  obtain ⟨fields, hfields⟩ := tf.exists_fields_handle host enc part
  have hnone : (Value.obj fields).get? k = none := by
    rw [← hfields]
    exact tf.handle_get? host enc part k hk
  rw [mergeSaHandle, hfields]
  split
  · rename_i email hemail
    have hset : ((Value.obj fields).set "partition_sa" (.str email)).get? k =
        if k = "partition_sa" then some (.str email) else (Value.obj fields).get? k :=
      Value.get?_set fields "partition_sa" k (.str email)
    rw [Value.idx, hset, hnone]
    split
    · rename_i hsa
      rw [hsa, hemail]
      rfl
    · rfl
  · rename_i hsa
    rw [Value.idx, hnone]
    split
    · rename_i heq
      rw [heq, hsa]
      rfl
    · rfl

/-- **On GCP alone** the stored handle agrees with the driver's on what the driver reads. -/
theorem CloudDrivers.Signed.agrees_iff {cloud : CloudTarget} (hcloud : cloud ≠ .local)
    (h : Signed cloud sa) :
    Handle.Agrees cloud (mergeSaHandle sa (tf.handle host enc part)) sa ↔ cloud = .gcp := by
  cases cloud with
  | «local» => exact absurd rfl hcloud
  | gcp =>
    refine iff_of_true (fun k hk => ?_) rfl
    obtain ⟨saEmail, hsa⟩ := h
    obtain rfl := List.mem_singleton.mp hk
    rw [idx_mergeSaHandle (by decide), if_pos rfl, hsa]
    rfl
  | azure =>
    refine iff_of_false (fun hagrees => ?_) (by decide)
    have hdriver := hagrees "driver" (by decide)
    rw [idx_mergeSaHandle (by decide), if_neg (by decide), h] at hdriver
    cases hdriver
  | aws =>
    refine iff_of_false (fun hagrees => ?_) (by decide)
    have hdriver := hagrees "driver" (by decide)
    rw [idx_mergeSaHandle (by decide), if_neg (by decide), h] at hdriver
    cases hdriver

variable {ds : CloudDrivers}

/-- On the other two clouds its teardown sends nothing. -/
theorem CloudDrivers.teardownPartition_stored {cloud : CloudTarget} (hcloud : cloud ≠ .local)
    (hgcp : cloud ≠ .gcp) :
    ds.teardownPartition cloud enc part (mergeSaHandle sa (tf.handle host enc part)) =
      pure () := by
  have hempty : ∀ k, k ∉ ["backend", "workspace", "enclave_id", "partition_id"] →
      k ≠ "partition_sa" → strOr (mergeSaHandle sa (tf.handle host enc part)) k "" = "" := by
    intro k hk hsa
    rw [strOr, idx_mergeSaHandle hk, if_neg hsa]
    rfl
  cases cloud with
  | «local» => exact absurd rfl hcloud
  | gcp => exact absurd rfl hgcp
  | azure =>
    simp only [CloudDrivers.teardownPartition, AzureDriver.teardownPartition]
    rw [hempty "subscription_id" (by decide) (by decide)]
    rfl
  | aws =>
    simp only [CloudDrivers.teardownPartition, AwsDriver.teardownPartition]
    rw [hempty "account_id" (by decide) (by decide)]
    rfl

/-- On GCP it deletes the service account. -/
theorem CloudDrivers.teardownPartition_gcp {saEmail : String}
    (hsa : sa.idx "partition_sa" = .str saEmail) :
    Records (ds.deletesIdentity .gcp enc part sa) (ds.teardownPartition .gcp enc part sa) := by
  refine .bind_right fun token => ?_
  simp only [hsa, Value.asStr]
  refine .bind_left fun log r _ a _ => ?_
  exact ⟨_, List.mem_cons_self .., saEmail, token, r, hsa, rfl⟩

end

/-- **The stored handle.** Of a partition that was applied without an error the reconciler stores a
handle that agrees with the one its driver returned in this visit, on the fields that the driver
reads, exactly on GCP; and exactly there a teardown of it deletes the identity that the driver's
handle is about. -/
theorem stored_handle_iff {ds : CloudDrivers} {cloud : CloudTarget} (hcloud : cloud ≠ .local)
    {run : Run} {enc : Enclave} {part : Partition} {acc acc' : EnclaveState × List ReportError}
    {w w' : World}
    (hrun : Prog.Exec (system ds.Answers) (provisionPartition run (ds.driver cloud) enc acc part).run
      w (.ok acc') w')
    (hhash : hashUnchanged ((acc.1.partitions[part.id]?).map (·.meta_))
      (run.host.partitionHash part) = false)
    (herrors : acc'.2 = acc.2) :
    ∃ inputs existing sa log log' ps stored,
      w'.lastProvision enc.id part.id =
        some ⟨.provisionPartition (ds.driver cloud) enc part inputs existing, .ok sa⟩ ∧
      Prog.Exec recorder (ds.provisionPartition cloud enc part inputs existing).run log (.ok sa) log' ∧
      acc'.1.partitions[part.id]? = some ps ∧ ps.meta_.status = .active ∧
      ps.partitionHandle = some stored ∧
      (Handle.Agrees cloud stored sa.handle ↔ cloud = .gcp) ∧
      (Records (ds.deletesIdentity cloud enc part sa.handle)
        (ds.teardownPartition cloud enc part stored) ↔ cloud = .gcp) := by
  refine hrun.wp (wpE_provisionPartition_ok (Q := fun acc' w' => acc'.2 = acc.2 →
    ∃ inputs existing sa log log' ps stored,
      w'.lastProvision enc.id part.id =
        some ⟨.provisionPartition (ds.driver cloud) enc part inputs existing, .ok sa⟩ ∧
      Prog.Exec recorder (ds.provisionPartition cloud enc part inputs existing).run log (.ok sa) log' ∧
      acc'.1.partitions[part.id]? = some ps ∧ ps.meta_.status = .active ∧
      ps.partitionHandle = some stored ∧
      (Handle.Agrees cloud stored sa.handle ↔ cloud = .gcp) ∧
      (Records (ds.deletesIdentity cloud enc part sa.handle)
        (ds.teardownPartition cloud enc part stored) ↔ cloud = .gcp)) ?_ ?_ ?_) acc' rfl herrors
  · intro hskip
    rw [hhash] at hskip
    cases hskip
  · intro _ m now sa existing authEnv outputs w₁ hsa hsent _ _
    obtain ⟨log, log', hexec⟩ := hsa cloud rfl
    have hsigned := hexec.wp (CloudDrivers.provisionPartition_signed cloud existing log) sa rfl
    let stored := mergeSaHandle sa.handle (run.req.tfBackend.handle run.host enc part)
    refine ⟨_, existing, sa, log, log', .applied run part m now (run.appliedResult enc part sa outputs),
      stored, hsent, hexec, ?_, rfl, rfl, hsigned.agrees_iff hcloud, ?_⟩
    · rw [HashMap.get?_insert, if_pos rfl]
    · constructor
      · intro hrecords
        by_contra hgcp
        rw [CloudDrivers.teardownPartition_stored hcloud hgcp] at hrecords
        obtain ⟨ev, hev, -⟩ := hrecords [] () rfl
        cases hev
      · rintro rfl
        have hagrees : Handle.Agrees .gcp stored sa.handle := (hsigned.agrees_iff hcloud).mpr rfl
        obtain ⟨saEmail, hemail⟩ := hsigned
        rw [CloudDrivers.teardownPartition_congr hagrees]
        exact CloudDrivers.teardownPartition_gcp hemail
  · intro s msg w₁ herrors
    exact absurd herrors (by simp)

/-! ### A first apply on two clouds -/

/-- The clouds accept everything. -/
def cloudAccepts : (c : CloudCall) → Option (CloudResp c)
  | .bearer => some (.ok "token")
  | .postJson _ _ _ => some (.ok (.object []))
  | .newUuid => some 0
  | c => azureAccepts c

/-- No call fails; partitions are provisioned by the drivers of GCP and Azure. -/
def cloudAnswer (w : World) : (c : Call) → Option (Resp c)
  | .provisionPartition driver enc part inputs existing =>
    ([CloudTarget.gcp, .azure].find? fun cloud => toString cloud = driver.name).bind fun cloud =>
      (Prog.tryRun recorder.next (fun _ => cloudAccepts)
        (plainClouds.provisionPartition cloud enc part inputs existing).run []).map (·.1)
  | c => some (okAnswer w c)

theorem adm_cloudAnswer (w : World) (c : Call) (r : Resp c) (h : cloudAnswer w c = some r) :
    (system plainClouds.Answers).adm w c r := by
  cases c with
  | provisionPartition driver enc part inputs existing =>
    refine ⟨trivial, ?_⟩
    rintro cloud rfl
    obtain ⟨cloud', hfind, hr⟩ := Option.bind_eq_some_iff.mp h
    have hname := List.find?_some hfind
    obtain rfl : cloud' = cloud := by
      rw [CloudDrivers.name_driver, decide_eq_true_eq] at hname
      cases cloud <;> cases cloud' <;> first | rfl | exact absurd hname (by decide)
    obtain ⟨⟨r', log'⟩, hrun, rfl⟩ := Option.map_eq_some_iff.mp hr
    exact ⟨[], log', Prog.exec_tryRun (fun _ _ _ _ => trivial) hrun⟩
  | _ =>
    obtain rfl := Option.some.inj h
    exact ⟨answers_okAnswer w _, trivial⟩

def applyRun : Run := ⟨plainHost, .default, gcpOnly, ∅, 0⟩

/-- An enclave with an identity, which on Azure is its subscription. -/
def identityEnclave : Enclave := { plainEnclave "a" [] [plainPartition "p" []] with identity := some "s" }

/-- The first apply of its partition. -/
def firstApply (cloud : CloudTarget) :
    Option (Except ReconcileError (EnclaveState × List ReportError) × World) :=
  Prog.tryRun World.next cloudAnswer
    (provisionPartition applyRun (plainClouds.driver cloud) identityEnclave
      (.new identityEnclave, []) (plainPartition "p" [])).run .empty

theorem exec_firstApply {cloud : CloudTarget} {w : World}
    {r : Except ReconcileError (EnclaveState × List ReportError)}
    (h : firstApply cloud = some (r, w)) :
    Prog.Exec (system plainClouds.Answers)
      (provisionPartition applyRun (plainClouds.driver cloud) identityEnclave
        (.new identityEnclave, []) (plainPartition "p" [])).run .empty r w :=
  Prog.exec_tryRun adm_cloudAnswer h

/-- On GCP the stored handle still names the service account that the driver answered. -/
theorem stored_handle_gcp :
    ∃ acc w inputs existing sa ps stored, firstApply .gcp = some (.ok acc, w) ∧
      w.lastProvision ⟨"a"⟩ ⟨"p"⟩ = some ⟨.provisionPartition (plainClouds.driver .gcp) identityEnclave
        (plainPartition "p" []) inputs existing, .ok sa⟩ ∧
      acc.1.partitions[(⟨"p"⟩ : PartitionId)]? = some ps ∧ ps.partitionHandle = some stored ∧
      Handle.Agrees .gcp stored sa.handle ∧
      Records (plainClouds.deletesIdentity .gcp identityEnclave (plainPartition "p" []) sa.handle)
        (plainClouds.teardownPartition .gcp identityEnclave (plainPartition "p" []) stored) := by
  obtain ⟨acc, w, hrun, herrors⟩ : ∃ acc w,
      firstApply .gcp = some (.ok acc, w) ∧ acc.2 = [] := ⟨_, _, rfl, rfl⟩
  obtain ⟨inputs, existing, sa, _, _, ps, stored, hsent, -, hps, -, hstored, hagrees, hdeletes⟩ :=
    stored_handle_iff (by decide) (exec_firstApply hrun) rfl herrors
  exact ⟨acc, w, inputs, existing, sa, ps, stored, hrun, hsent, hps, hstored, hagrees.mpr rfl,
    hdeletes.mpr rfl⟩

/-- **On Azure it names no subscription.** The driver answered a handle of the subscription, and a
teardown of the stored one sends nothing. -/
theorem subscription_dropped :
    ∃ acc w sa ps stored,
      Prog.Exec (system plainClouds.Answers)
        (provisionPartition applyRun (plainClouds.driver .azure) identityEnclave
          (.new identityEnclave, []) (plainPartition "p" [])).run .empty (.ok acc) w ∧ acc.2 = [] ∧
      w.lastProvision ⟨"a"⟩ ⟨"p"⟩ = some ⟨.provisionPartition (plainClouds.driver .azure)
        identityEnclave (plainPartition "p" []) ∅ none, .ok sa⟩ ∧
      acc.1.partitions[(⟨"p"⟩ : PartitionId)]? = some ps ∧ ps.partitionHandle = some stored ∧
      sa.handle.idx "subscription_id" = .str "s" ∧ stored.idx "subscription_id" = .null ∧
      AzureDriver.isPartitionHandle sa.handle = true ∧
      AzureDriver.isPartitionHandle stored = false ∧
      ¬ Handle.Agrees .azure stored sa.handle ∧
      plainClouds.teardownPartition .azure identityEnclave (plainPartition "p" []) stored =
        pure () := by
  obtain ⟨acc, w, hrun, herrors, sa, ps, stored, hsent, hps, hstored, hhas, hsub, hsigned, hown,
      hteardown⟩ :
      ∃ acc w, firstApply .azure = some (.ok acc, w) ∧ acc.2 = [] ∧ ∃ sa ps stored,
        w.lastProvision ⟨"a"⟩ ⟨"p"⟩ = some ⟨.provisionPartition (plainClouds.driver .azure)
          identityEnclave (plainPartition "p" []) ∅ none, .ok sa⟩ ∧
        acc.1.partitions[(⟨"p"⟩ : PartitionId)]? = some ps ∧ ps.partitionHandle = some stored ∧
        sa.handle.idx "subscription_id" = .str "s" ∧ stored.idx "subscription_id" = .null ∧
        AzureDriver.isPartitionHandle sa.handle = true ∧
        AzureDriver.isPartitionHandle stored = false ∧
        plainClouds.teardownPartition .azure identityEnclave (plainPartition "p" []) stored =
          pure () := ⟨_, _, rfl, rfl, _, _, _, rfl, rfl, rfl, rfl, rfl, rfl, rfl, rfl⟩
  refine ⟨acc, w, sa, ps, stored, exec_firstApply hrun, herrors, hsent, hps, hstored, hhas, hsub,
    hsigned, hown, fun hagrees => ?_, hteardown⟩
  have heq := hagrees "subscription_id" (by decide)
  rw [hsub, hhas] at heq
  cases heq

end Nclav
