import Nclav.Api.Destroy
import Nclav.Guarantees.TeardownOrder
import Nclav.Guarantees.ErrorFree

/-!
# What the command has destroyed

When `nclav destroy` ends without an error, each enclave that it was to destroy was on record and is
no longer, and everything that its record knew of was torn down by the driver of its cloud: each
partition by Terraform, each identity of a partition, and the enclave itself. No other record has
changed. The ids have to be such that they stay what they are in a URL, and of an answer that cannot
be read nothing is known but that the record is gone.
-/

namespace Nclav

open Effect

/-! ## One enclave -/

section

variable (state : AppState) (driver : Driver) (s : EnclaveState) (authEnv : HashMap String String)

/-- The partition was torn down in between, and its identity. -/
structure PartitionDismantled (ps : PartitionState) (w w' : World) : Prop where
  terraform : w.Since
    (· = ⟨.tfTeardown state.tfBackend s.desired ps.desired authEnv none, .ok ()⟩) w'
  identity : ∀ handle, ps.partitionHandle = some handle → w.Since
    (· = ⟨.teardownPartition driver s.desired ps.desired handle, .ok ()⟩) w'

end

/-- What the record knew of was torn down in between. -/
def Dismantled (state : AppState) (resourcesOnly : Bool) (s : EnclaveState) (w w' : World) : Prop :=
  ∀ encHandle, s.enclaveHandle = some encHandle → ∃ driver,
    state.registry.forCloud (state.registry.stateCloud s) = .ok driver ∧
    (∀ entry ∈ s.partitions.toList, PartitionDismantled state driver s
      (driver.authEnv s.desired encHandle) entry.2 w w') ∧
    (resourcesOnly = false → w.Since
      (· = ⟨.teardownEnclave driver s.desired encHandle, .ok ()⟩) w')

section

variable {A : (c : Call) → Resp c → Prop} {state : AppState} {driver : Driver} {s : EnclaveState}
  {authEnv : HashMap String String} {ps : PartitionState} {id : EnclaveId} {resourcesOnly : Bool}
  {w w' w₁ w₂ : World}

theorem PartitionDismantled.suffix (h : PartitionDismantled state driver s authEnv ps w w₁)
    (hlog : w₁.log <:+ w₂.log) : PartitionDismantled state driver s authEnv ps w w₂ :=
  ⟨h.terraform.suffix hlog, fun handle hhandle => (h.identity handle hhandle).suffix hlog⟩

theorem collect_eq_nil {label : String} {errors : List String} {r : Except DriverError Unit}
    (h : collect label errors r = []) : errors = [] ∧ r = .ok () := by
  cases r with
  | ok _ => exact ⟨h, rfl⟩
  | error e => exact absurd h (List.append_ne_nil_of_right_ne_nil _ (List.cons_ne_nil _ _))

/-- What stays when more is called. -/
def Lasting (P : World → Prop) : Prop := ∀ v v' : World, P v → v.log <:+ v'.log → P v'

/-- How far the teardown has come since `w`: as long as there is no error, `P` holds. -/
structure Progress (w : World) (P : World → Prop) (errors : List String) (w₁ : World) : Prop where
  log : w.log <:+ w₁.log
  store : w₁.store = w.store
  clean : errors = [] → P w₁

/-- A call whose error would be collected. -/
theorem Progress.next {P : World → Prop} (hP : Lasting P) {errors errors' : List String} {c : Call}
    {r ok : Resp c} (h : Progress w P errors w₁)
    (hstore : World.nextStore w₁.store c r = w₁.store)
    (herrors : errors' = [] → errors = [] ∧ r = ok) :
    Progress w (fun v => P v ∧ w.Since (· = ⟨c, ok⟩) v) errors' (w₁.next c r) where
  log := h.log.trans (List.suffix_cons _ _)
  store := hstore.trans h.store
  clean hnone := by
    obtain ⟨hnone', rfl⟩ := herrors hnone
    exact ⟨hP _ _ (h.clean hnone') (List.suffix_cons _ _), World.since_next h.log rfl⟩

theorem Progress.mono {P P' : World → Prop} {errors : List String} (h : Progress w P errors w₁)
    (hP : P w₁ → P' w₁) : Progress w P' errors w₁ :=
  ⟨h.log, h.store, fun hnone => hP (h.clean hnone)⟩

theorem lasting_since {p : Event → Prop} : Lasting fun v => w.Since p v :=
  fun _ _ hsince hlog => hsince.suffix hlog

theorem Lasting.and {P P' : World → Prop} (hP : Lasting P) (hP' : Lasting P') :
    Lasting fun v => P v ∧ P' v :=
  fun v v' h hlog => ⟨hP v v' h.1 hlog, hP' v v' h.2 hlog⟩

/-- The teardown of a partition, as both handlers do it. -/
theorem wpE_dismantle (label label' : String) {P : World → Prop} (hP : Lasting P)
    {errors : List String} (h : Progress w P errors w₁) :
    Prog.wpE (system A) (do
        let destroyed ← state.tfBackend.teardown s.desired ps.desired authEnv none
        let errors := collect label errors destroyed
        match ps.partitionHandle with
        | none => return errors
        | some handle => do
          let cleaned ← perform (.teardownPartition driver s.desired ps.desired handle)
          return collect label' errors cleaned : Api (List String))
      (fun r w₂ => ∀ errors', r = .ok errors' → Progress w
        (fun v => P v ∧ PartitionDismantled state driver s authEnv ps w v) errors' w₂) w₁ := by
  rw [Prog.wpE_bind]
  intro destroyed _
  let terraform (v : World) : Prop := w.Since
    (· = ⟨.tfTeardown state.tfBackend s.desired ps.desired authEnv none, .ok ()⟩) v
  have h₁ : Progress w (fun v => P v ∧ terraform v) (collect label errors destroyed)
      (w₁.next (.tfTeardown state.tfBackend s.desired ps.desired authEnv none) destroyed) :=
    h.next hP rfl collect_eq_nil
  rcases hhandle : ps.partitionHandle with _ | handle
  · rintro _ ⟨⟩
    refine h₁.mono fun hmade => ⟨hmade.1, hmade.2, fun handle hsome => ?_⟩
    rw [hhandle] at hsome
    cases hsome
  · rintro cleaned - _ ⟨⟩
    refine (h₁.next (hP.and lasting_since) rfl collect_eq_nil).mono fun hmade =>
      ⟨hmade.1.1, hmade.1.2, fun handle' hsome => ?_⟩
    obtain rfl := Option.some.inj (hhandle.symm.trans hsome)
    exact hmade.2

theorem wpE_destroyEnclave_clean (hstart : Progress w (fun _ => True) [] w₁)
    (hdriver : state.registry.forCloud (state.registry.stateCloud s) = .ok driver) :
    Prog.wpE (system A) (destroyEnclave state.tfBackend id driver s resourcesOnly)
      (fun r w₂ => ∀ errors, r = .ok errors →
        Progress w (fun v => Dismantled state resourcesOnly s w v) errors w₂) w₁ := by
  rw [destroyEnclave]
  split
  · rename_i hnone
    rintro _ ⟨⟩
    refine hstart.mono fun _ encHandle hhandle => ?_
    rw [hnone] at hhandle
    cases hhandle
  rename_i encHandle hhandle
  let made (entries : List (PartitionId × PartitionState)) (v : World) : Prop :=
    ∀ entry ∈ entries, PartitionDismantled state driver s (driver.authEnv s.desired encHandle)
      entry.2 w v
  have hlasting (entries : List (PartitionId × PartitionState)) : Lasting (made entries) :=
    fun v v' h hlog entry hentry => (h entry hentry).suffix hlog
  rw [Prog.wpE_bind]
  intro entries _
  refine Prog.wpE_bind_ok (Prog.wpE_mono (Q := fun r v => ∀ errors, r = .ok errors →
    Progress w (made entries.val) errors v) ?_ fun r v hloop errors hr => ?_)
  · refine Prog.wp_foldlM_ok (fun pre errors v => Progress w (made pre) errors v)
      (fun pre entry post errors v _ hprogress => ?_) (fun _ _ hprogress => hprogress) ?_
    · refine Prog.wpE_mono (wpE_dismantle _ _ (hlasting pre) hprogress)
        fun r v' hdone errors' hr => (hdone errors' hr).mono ?_
      rintro ⟨hpre, hentry⟩ entry' hentry'
      rcases List.mem_append.mp hentry' with hmem | hmem
      · exact hpre entry' hmem
      · rw [List.mem_singleton.mp hmem]
        exact hentry
    · refine ⟨hstart.log.trans (List.suffix_cons _ _), hstart.store, fun _ entry hentry => ?_⟩
      cases hentry
  have hall {v : World} (h : made entries.val v) : made s.partitions.toList v :=
    fun entry hentry => h entry (entries.property.mem_iff.mpr hentry)
  split
  · rename_i honly
    rintro _ ⟨⟩
    refine (hloop errors hr).mono fun hmade encHandle' hsome => ?_
    obtain rfl := Option.some.inj (hhandle.symm.trans hsome)
    refine ⟨driver, hdriver, hall hmade, fun hfull => ?_⟩
    rw [hfull] at honly
    cases honly
  · rintro destroyed - _ ⟨⟩
    refine ((hloop errors hr).next (hlasting _) rfl collect_eq_nil).mono
      fun hmade encHandle' hsome => ?_
    obtain rfl := Option.some.inj (hhandle.symm.trans hsome)
    exact ⟨driver, hdriver, hall hmade.1, fun _ => hmade.2⟩

theorem World.Since.earlier {p : Event → Prop} (h : w₁.Since p w₂) (hlog : w.log <:+ w₁.log) :
    w.Since p w₂ := by
  obtain ⟨newer, hnewer, ev, hev, hp⟩ := h
  obtain ⟨middle, hmiddle⟩ := hlog
  exact ⟨newer ++ middle, by rw [hnewer, ← hmiddle, List.append_assoc], ev,
    List.mem_append_left _ hev, hp⟩

/-- What was done in a part of the time was done. -/
theorem Dismantled.within (h : Dismantled state resourcesOnly s w₁ w₂) (hlog : w.log <:+ w₁.log)
    (hlog' : w₂.log <:+ w'.log) : Dismantled state resourcesOnly s w w' := by
  intro encHandle hhandle
  obtain ⟨driver, hdriver, hparts, henclave⟩ := h encHandle hhandle
  refine ⟨driver, hdriver, fun entry hentry => ?_, fun hfull => ?_⟩
  · obtain ⟨hterraform, hidentity⟩ := hparts entry hentry
    exact ⟨(hterraform.earlier hlog).suffix hlog', fun handle hsome =>
      ((hidentity handle hsome).earlier hlog).suffix hlog'⟩
  · exact ((henclave hfull).earlier hlog).suffix hlog'

/-- What an answered deletion has done. -/
structure Deleted (state : AppState) (id : EnclaveId) (resourcesOnly : Bool) (w : World)
    (report : DestroyReport) (w' : World) : Prop where
  store : w'.store = w.store.delete id
  log : w.log <:+ w'.log
  dismantled : ∃ s, w.store.get? id = some s ∧
    (report.errors = [] → Dismantled state resourcesOnly s w w')

theorem wpE_deleteEnclave_clean :
    Prog.wpE (system A) (deleteEnclave state id resourcesOnly) (fun r w' => ∀ report,
      r = .ok report → Deleted state id resourcesOnly w report w') w := by
  rw [deleteEnclave, Prog.wpE_bind]
  rintro (e | stored) ⟨hstored, -⟩
  · rintro _ ⟨⟩
  rcases stored with _ | s
  · rintro _ ⟨⟩
  have hs : w.store.get? id = some s := Eq.symm hstored
  show Prog.wpE (system A) (state.driverOf s >>= _) _ (w.next (.getEnclave id) (.ok (some s)))
  rw [Prog.wpE_bind, AppState.driverOf]
  split
  · rename_i driver hdriver
    have hstart : Progress w (fun _ => True) [] (w.next (.getEnclave id) (.ok (some s))) :=
      ⟨List.suffix_cons _ _, rfl, fun _ => trivial⟩
    refine Prog.wpE_bind_ok (Prog.wpE_mono (wpE_destroyEnclave_clean hstart hdriver)
      fun r v hdone errors hr => ?_)
    obtain ⟨hlog, hstore, hclean⟩ := hdone errors hr
    rw [Prog.wpE_bind]
    rintro (e | _) -
    · rintro _ ⟨⟩
    · rintro _ ⟨⟩
      refine ⟨?_, hlog.trans (List.suffix_cons _ _), s, hs, fun hnone =>
        (hclean hnone).within (List.suffix_refl _) (List.suffix_cons _ _)⟩
      show World.nextStore v.store (.deleteEnclave id) (.ok ()) = w.store.delete id
      rw [hstore]
      rfl
  · rintro _ ⟨⟩

/-! ## All of them -/

/-- The enclaves were on record, each once, and are no longer, and no other record has changed. What
their records knew of was torn down, where the answer could be read. -/
structure AllDestroyed (transport : Transport) (state : AppState) (resourcesOnly : Bool)
    (ids : List EnclaveId) (w w' : World) : Prop where
  nodup : ids.Nodup
  store : ∀ id, w'.store.get? id = if id ∈ ids then none else w.store.get? id
  dismantled : ∀ id ∈ ids, ∃ s, w.store.get? id = some s ∧
    (transport.readable (enclavePath id resourcesOnly) = true → Dismantled state resourcesOnly s w w')

variable {transport : Transport}

theorem AllDestroyed.nil : AllDestroyed transport state resourcesOnly [] w w where
  nodup := List.nodup_nil
  store id := by rw [if_neg List.not_mem_nil]
  dismantled id hid := absurd hid List.not_mem_nil

theorem AllDestroyed.snoc {ids : List EnclaveId} {report : DestroyReport}
    (h : AllDestroyed transport state resourcesOnly ids w w₁)
    (hlog : w.log <:+ w₁.log) (hdone : Deleted state id resourcesOnly w₁ report w')
    (hclean : transport.readable (enclavePath id resourcesOnly) = true → report.errors = []) :
    AllDestroyed transport state resourcesOnly (ids ++ [id]) w w' := by
  obtain ⟨s, hs, hdismantled⟩ := hdone.dismantled
  have hnew : id ∉ ids := fun hmem => by
    rw [h.store, if_pos hmem] at hs
    cases hs
  constructor
  · exact List.nodup_append.mpr ⟨h.nodup, List.nodup_singleton _, fun a ha b hb hab => by
      rw [List.mem_singleton.mp hb] at hab
      exact hnew (hab ▸ ha)⟩
  · intro id'
    rw [hdone.store, Store.get?_delete, h.store]
    by_cases hid : id' = id
    · rw [if_pos hid, if_pos (by simp [hid])]
    · have hiff : id' ∈ ids ++ [id] ↔ id' ∈ ids := by simp [hid]
      simp only [if_neg hid, hiff]
  · intro id' hid'
    rcases List.mem_append.mp hid' with hmem | hmem
    · obtain ⟨s', hs', hdismantled'⟩ := h.dismantled id' hmem
      exact ⟨s', hs', fun hread => (hdismantled' hread).within (List.suffix_refl _) hdone.log⟩
    · rw [List.mem_singleton.mp hmem]
      rw [h.store, if_neg hnew] at hs
      exact ⟨s, hs, fun hread =>
        (hdismantled (hclean hread)).within hlog (List.suffix_refl _)⟩

/-- The loop has met no error so far. -/
def CleanSoFar (transport : Transport) (state : AppState) (resourcesOnly : Bool) (w : World)
    (ids : List EnclaveId) (anyError : Bool) (w₁ : World) : Prop :=
  w.log <:+ w₁.log ∧ (anyError = false → AllDestroyed transport state resourcesOnly ids w w₁)

theorem CleanSoFar.failed {ids : List EnclaveId} (hlog : w.log <:+ w₁.log) :
    CleanSoFar transport state resourcesOnly w ids true w₁ :=
  ⟨hlog, fun h => by cases h⟩

theorem Transport.errors_of_readable {path : String} {report : DestroyReport}
    (h : transport.readable path = true) : transport.errors path report = report.errors := if_pos h

theorem sendDelete_enclave (htransport : transport.Lawful) (hid : PathSegment id.val) :
    sendDelete transport state (enclavePath id resourcesOnly) = (do
      let answer ← respond (deleteEnclave state id resourcesOnly)
      return answer.map (transport.errors (enclavePath id resourcesOnly))) := by
  have hroute : transport.route (enclavePath id resourcesOnly) =
      some (.deleteEnclave id resourcesOnly) := by
    cases resourcesOnly with
    | false => exact htransport.enclave id.val hid
    | true => exact htransport.resources id.val hid
  rw [sendDelete, hroute]

theorem wpE_destroyOne {yes : Bool} {ids : List EnclaveId} {acc : Bool × Lines}
    (htransport : transport.Lawful) (hid : PathSegment id.val)
    (h : CleanSoFar transport state resourcesOnly w ids acc.1 w₁) :
    Prog.wpE (system A) (destroyOne transport state yes resourcesOnly acc id) (fun r w₂ =>
      ∀ acc', r = .ok acc' → CleanSoFar transport state resourcesOnly w (ids ++ [id]) acc'.1 w₂)
        w₁ := by
  obtain ⟨anyError, lines⟩ := acc
  rw [destroyOne]
  split
  · rintro _ ⟨⟩
    exact .failed h.1
  rw [sendDelete_enclave htransport hid, Prog.wpE_bind, Prog.wpE_bind, Prog.wpE_monadLift]
  refine Prog.wp_iff.mpr fun r w₂ hrun => ?_
  have hlog : w.log <:+ w₂.log := h.1.trans (log_suffix hrun)
  rcases r with e | report
  · rintro _ ⟨⟩
    exact .failed hlog
  · rintro _ ⟨⟩
    refine ⟨hlog, fun hnone => ?_⟩
    obtain ⟨hbefore, hempty⟩ := Bool.or_eq_false_iff.mp hnone
    refine (h.2 hbefore).snoc h.1 (hrun.wp wpE_deleteEnclave_clean report rfl) fun hread => ?_
    rw [← Transport.errors_of_readable hread]
    simpa using hempty

/-- The loop over the enclaves. -/
theorem wpE_destroyEach {yes : Bool} {lines : Lines} {ids : List EnclaveId}
    (htransport : transport.Lawful) (hids : ∀ id ∈ ids, PathSegment id.val) :
    Prog.wpE (system A) (destroyEach transport state yes resourcesOnly lines ids) (fun r w' => ∀ a,
      r = .ok a → AllDestroyed transport state resourcesOnly ids w w') w := by
  rw [destroyEach]
  refine Prog.wpE_bind_ok (Prog.wpE_mono (Prog.wp_foldlM_ok
    (fun pre acc w₁ => CleanSoFar transport state resourcesOnly w pre acc.1 w₁)
    (fun pre id post acc w₁ hsplit h => wpE_destroyOne htransport (hids id (by simp [hsplit])) h)
    (fun acc w₁ h => h) ⟨List.suffix_refl _, fun _ => .nil⟩) fun r w₁ hloop acc hr => ?_)
  split
  · rintro _ ⟨⟩
  · rename_i hclean
    rintro _ ⟨⟩
    exact (hloop acc hr).2 (by simpa using hclean)

end

/-! ## The command -/

/-- The partition was on record and is no longer; what its record knew of was torn down, if this is
so. -/
def PartitionDestroyed (state : AppState) (id : EnclaveId) (pid : PartitionId) (told : Prop)
    (w w' : World) : Prop :=
  ∃ s ps driver, w.store.get? id = some s ∧ s.partitions[pid]? = some ps ∧
    state.registry.forCloud (state.registry.stateCloud s) = .ok driver ∧
    (told → PartitionDismantled state driver s
      ((s.enclaveHandle.map (driver.authEnv s.desired)).getD ∅) ps w w') ∧
    w'.store = w.store.deletePartition id pid

section

variable {A : (c : Call) → Resp c → Prop} {state : AppState} {id : EnclaveId} {pid : PartitionId}
  {w w₁ : World}

theorem wpE_deletePartition_clean :
    Prog.wpE (system A) (deletePartition state id pid) (fun r w' => ∀ report,
      r = .ok report → PartitionDestroyed state id pid (report.errors = []) w w') w := by
  rw [deletePartition, Prog.wpE_bind]
  rintro (e | stored) ⟨hstored, -⟩
  · rintro _ ⟨⟩
  rcases stored with _ | s
  · rintro _ ⟨⟩
  have hs : w.store.get? id = some s := Eq.symm hstored
  show Prog.wpE (system A) (okOr _ s.partitions[pid]? >>= _) _
    (w.next (.getEnclave id) (.ok (some s)))
  rcases hps : s.partitions[pid]? with _ | ps
  · rintro _ ⟨⟩
  show Prog.wpE (system A) (state.driverOf s >>= _) _ (w.next (.getEnclave id) (.ok (some s)))
  rw [Prog.wpE_bind, AppState.driverOf]
  split
  · rename_i driver hdriver
    have hstart : Progress w (fun _ => True) [] (w.next (.getEnclave id) (.ok (some s))) :=
      ⟨List.suffix_cons _ _, rfl, fun _ => trivial⟩
    refine Prog.wpE_bind_ok (Prog.wpE_mono (wpE_dismantle "" "SA cleanup: "
      (fun _ _ _ _ => trivial) hstart) fun r v hdone errors hr => ?_)
    obtain ⟨hlog, hstore, hclean⟩ := hdone errors hr
    rw [Prog.wpE_bind]
    rintro (e | _) -
    · rintro _ ⟨⟩
    have hdestroyed (remaining : World) (hlog' : v.log <:+ remaining.log)
        (hremaining : remaining.store = w.store.deletePartition id pid) :
        PartitionDestroyed state id pid (errors = []) w remaining :=
      ⟨s, ps, driver, hs, hps, hdriver, fun hnone => (hclean hnone).2.suffix hlog', hremaining⟩
    have hdeleted : (v.next (.deletePartition id pid) (.ok ())).store =
        w.store.deletePartition id pid := by
      show World.nextStore v.store (.deletePartition id pid) (.ok ()) = _
      rw [hstore]
      rfl
    -- what is left is only listed
    rw [remainingResources]
    split
    · rintro _ ⟨⟩
      exact hdestroyed _ (List.suffix_cons _ _) hdeleted
    · rintro listed - _ ⟨⟩
      exact hdestroyed _ ((List.suffix_cons _ _).trans (List.suffix_cons _ _)) hdeleted
  · rintro _ ⟨⟩

end

section

variable {A : (c : Call) → Resp c → Prop} {transport : Transport} {state : AppState}
  {all yes resourcesOnly : Bool} {lines : Lines} {w : World}

/-- The path of a partition. -/
abbrev partitionPath (id : EnclaveId) (pid : PartitionId) : String :=
  s!"/enclaves/{id.val}/partitions/{pid.val}"

theorem wpE_destroyConfirmed {id : EnclaveId} {pid : PartitionId} (htransport : transport.Lawful)
    (hid : PathSegment id.val) (hpid : PathSegment pid.val) :
    Prog.wpE (system A) (destroy transport state [id] all (some pid) yes resourcesOnly lines)
      (fun r w' => r = .ok () → PartitionDestroyed state id pid
        (transport.readable (partitionPath id pid) = true) w w') w := by
  rw [destroy]
  split
  · rintro ⟨⟩
  rw [destroyOnePartition, sendDelete, htransport.partition id.val pid.val hid hpid, Prog.wpE_bind,
    Prog.wpE_bind, Prog.wpE_monadLift]
  refine Prog.wp_mono wpE_deletePartition_clean fun r w' h => ?_
  rcases r with e | report
  · rintro ⟨⟩
  show Prog.wpE (system A) (if (transport.errors (partitionPath id pid) report).isEmpty
    then return () else throw _) _ w'
  split
  · rename_i hempty
    refine fun _ => ?_
    obtain ⟨s, ps, driver, hs, hps, hdriver, htold, hstore⟩ := h report rfl
    refine ⟨s, ps, driver, hs, hps, hdriver, fun hread => htold ?_, hstore⟩
    rw [← Transport.errors_of_readable hread]
    simpa using hempty
  · rintro ⟨⟩

theorem wpE_destroyListed {enclaveIds : List EnclaveId} (htransport : transport.Lawful)
    (hstored : ∀ id s, w.store.get? id = some s → PathSegment id.val) :
    Prog.wpE (system A) (destroy transport state enclaveIds true none yes resourcesOnly lines)
      (fun r w' => r = .ok () → (∀ id, w'.store.get? id = none) ∧
        ∀ id s, w.store.get? id = some s →
          transport.readable (enclavePath id resourcesOnly) = true →
            Dismantled state resourcesOnly s w w') w := by
  show Prog.wpE (system A) (respond listEnclaves >>= _) _ w
  rw [Prog.wpE_bind]
  rintro (e | states) ⟨hlisted, -⟩
  · rintro ⟨⟩
  have hids : ∀ id, (∃ s, w.store.get? id = some s) ↔ id ∈ states.map (·.desired.id) := by
    intro id
    constructor
    · rintro ⟨s, hs⟩
      have hentry : (id, s) ∈ w.store.enclaves.toList :=
        Std.ExtTreeMap.mem_toList_iff_getElem?_eq_some.mpr hs
      have hmem : s ∈ states := (List.Perm.mem_iff hlisted).mpr (List.mem_map_of_mem hentry)
      exact List.mem_map.mpr ⟨s, hmem, Store.id_of_get? hs⟩
    · intro hid
      obtain ⟨s, hmem, rfl⟩ := List.mem_map.mp hid
      obtain ⟨e, he, rfl⟩ := List.mem_map.mp ((List.Perm.mem_iff hlisted).mp hmem)
      have hs : w.store.get? e.1 = some e.2 := Std.ExtTreeMap.mem_toList_iff_getElem?_eq_some.mp he
      exact ⟨e.2, by rw [Store.id_of_get? hs]; exact hs⟩
  have hplain : ∀ id ∈ states.map (·.desired.id), PathSegment id.val := fun id hid =>
    ((hids id).mpr hid).elim fun s hs => hstored id s hs
  show Prog.wpE (system A) (if transport.readable "/enclaves" then destroyEach transport state true
    resourcesOnly lines (states.map (·.desired.id)) else throw _) _ (w.next .listEnclaves (.ok states))
  split
  · refine Prog.wpE_mono (wpE_destroyEach htransport hplain) fun r w' h hr => ?_
    obtain ⟨-, hstore, hdismantled⟩ := h () hr
    refine ⟨fun id => ?_, fun id s hs hread => ?_⟩
    · rw [hstore]
      split
      · rfl
      · rename_i hid
        cases hs : w.store.get? id with
        | none => exact hs
        | some s => exact absurd ((hids id).mp ⟨s, hs⟩) hid
    · obtain ⟨s', hs', hdone⟩ := hdismantled id ((hids id).mp ⟨s, hs⟩)
      obtain rfl : s = s' := Option.some.inj (hs.symm.trans hs')
      exact (hdone hread).within (List.suffix_cons _ _) (List.suffix_refl _)
  · rintro ⟨⟩

end

/-- What a command has done that ends without an error: one partition, everything on record, or the
enclaves that it names. -/
def DestroyDone (transport : Transport) (state : AppState) (enclaveIds : List EnclaveId) (all : Bool)
    (partition : Option PartitionId) (resourcesOnly : Bool) (w w' : World) : Prop :=
  match partition with
  | some pid => ∃ id, enclaveIds = [id] ∧
    PartitionDestroyed state id pid (transport.readable (partitionPath id pid) = true) w w'
  | none =>
    if all then
      (∀ id, w'.store.get? id = none) ∧
        ∀ id s, w.store.get? id = some s →
          transport.readable (enclavePath id resourcesOnly) = true →
            Dismantled state resourcesOnly s w w'
    else AllDestroyed transport state resourcesOnly enclaveIds w w'

/-- **A command that ends without an error has destroyed what it was to destroy**, where the ids that
it sends stay what they are in a URL. -/
theorem destroy_complete {transport : Transport} {state : AppState} {enclaveIds : List EnclaveId}
    {all : Bool} {partition : Option PartitionId} {yes resourcesOnly : Bool} {lines : Lines}
    {w w' : World} (htransport : transport.Lawful) (hids : ∀ id ∈ enclaveIds, PathSegment id.val)
    (hpid : ∀ pid ∈ partition, PathSegment pid.val)
    (hstored : all = true → ∀ id s, w.store.get? id = some s → PathSegment id.val)
    (hrun : Prog.Exec (system anyAnswer)
      (destroy transport state enclaveIds all partition yes resourcesOnly lines).run w (.ok ()) w') :
    DestroyDone transport state enclaveIds all partition resourcesOnly w w' := by
  rcases partition with _ | pid
  · rw [DestroyDone]
    rcases all with _ | _
    · have heach : Prog.Exec (system anyAnswer)
          (destroyEach transport state yes resourcesOnly lines enclaveIds).run w (.ok ()) w' := hrun
      exact heach.wp (wpE_destroyEach htransport hids) () rfl
    · exact hrun.wp (wpE_destroyListed htransport (hstored rfl)) rfl
  · rcases enclaveIds with _ | ⟨id, _ | ⟨id', rest⟩⟩
    · cases hrun
    · exact ⟨id, rfl, hrun.wp (wpE_destroyConfirmed htransport (hids id (List.mem_cons_self ..))
        (hpid pid rfl)) rfl⟩
    · cases hrun

/-! ### One enclave and its partition -/

/-- A character of a segment, for the routes. -/
def inSegment (c : Char) : Bool := c ≠ '/' && c ≠ '?'

/-- The routes of the two deletions. -/
def plainRoute (path : List Char) : Option Endpoint :=
  match path.dropPrefix? "/enclaves/".toList with
  | none => none
  | some rest =>
    let id : EnclaveId := ⟨String.ofList (rest.takeWhile inSegment)⟩
    let behind := rest.dropWhile inSegment
    if behind = [] then some (.deleteEnclave id false)
    else if behind = "?resources_only=true".toList then some (.deleteEnclave id true)
    else match behind.dropPrefix? "/partitions/".toList with
      | none => none
      | some pid => if pid.all inSegment then some (.deletePartition id ⟨String.ofList pid⟩) else none

theorem PathSegment.stays {s : String} (h : PathSegment s) :
    ∀ c ∈ s.toList, inSegment c = true := by
  intro c hc
  by_contra hout
  have hsign : c = '/' ∨ c = '?' := by
    simp only [inSegment, Bool.and_eq_true, decide_eq_true_eq] at hout
    tauto
  rcases hsign with rfl | rfl
  · exact absurd (h.unreserved _ hc) (by decide)
  · exact absurd (h.unreserved _ hc) (by decide)

/-- The id and what is behind it. -/
theorem plainRoute_segment {id : String} (hid : PathSegment id) {rest : List Char}
    (hrest : rest.takeWhile inSegment = []) :
    plainRoute ("/enclaves/".toList ++ (id.toList ++ rest)) =
      if rest = [] then some (.deleteEnclave ⟨id⟩ false)
      else if rest = "?resources_only=true".toList then some (.deleteEnclave ⟨id⟩ true)
      else match rest.dropPrefix? "/partitions/".toList with
        | none => none
        | some pid =>
          if pid.all inSegment then some (.deletePartition ⟨id⟩ ⟨String.ofList pid⟩) else none := by
  have hdrop : rest.dropWhile inSegment = rest := by
    have hall := List.takeWhile_append_dropWhile (p := inSegment) (l := rest)
    rw [hrest, List.nil_append] at hall
    exact hall
  rw [plainRoute, List.dropPrefix?_append_of_beq _ (beq_self_eq_true _)]
  dsimp only
  rw [List.takeWhile_append_of_pos hid.stays, List.dropWhile_append_of_pos hid.stays, hrest,
    hdrop, List.append_nil, String.ofList_toList]

/-- Every answer can be read. -/
def plainTransport : Transport := ⟨fun path => plainRoute path.toList, fun _ => true⟩

theorem plainTransport_lawful : plainTransport.Lawful where
  enclave id hid := by
    have hroute := plainRoute_segment hid (show ([] : List Char).takeWhile inSegment = [] from rfl)
    rw [if_pos rfl, List.append_nil, ← String.toList_append] at hroute
    exact hroute
  resources id hid := by
    have hroute := plainRoute_segment hid
      (show "?resources_only=true".toList.takeWhile inSegment = [] from by decide)
    rw [if_neg (by decide), if_pos rfl, ← String.toList_append, ← String.toList_append,
      ← String.append_assoc] at hroute
    exact hroute
  partition id pid hid hpid := by
    have hroute := plainRoute_segment hid
      (show ("/partitions/".toList ++ pid.toList).takeWhile inSegment = [] from rfl)
    have hall : pid.toList.all inSegment = true := List.all_eq_true.mpr hpid.stays
    rw [if_neg (by simp), if_neg (by simp), List.dropPrefix?_append_of_beq _ (beq_self_eq_true _)]
      at hroute
    simp only [hall, if_true, String.ofList_toList] at hroute
    rw [← String.toList_append, ← String.toList_append, ← String.toList_append,
      ← String.append_assoc, ← String.append_assoc] at hroute
    exact hroute

def destroyNamed : Except String Unit × World :=
  Prog.run World.next okAnswer
    (destroy plainTransport ⟨gcpOnly, "", ""⟩ [] true none false false []).run (namedRun "p" .empty).2

/-- The enclave of a first apply, destroyed with all others. -/
theorem named_destroyed :
    destroyNamed.1 = .ok () ∧ (∀ id, destroyNamed.2.store.get? id = none) ∧
      ∃ s, (namedRun "p" .empty).2.store.get? ⟨"a"⟩ = some s ∧ s.enclaveHandle.isSome = true ∧
        s.partitions.toList.length = 1 ∧
        Dismantled ⟨gcpOnly, "", ""⟩ false s (namedRun "p" .empty).2 destroyNamed.2 := by
  have hok : destroyNamed.1 = .ok () := rfl
  have hrun : Prog.Exec (system anyAnswer)
      (destroy plainTransport ⟨gcpOnly, "", ""⟩ [] true none false false []).run
      (namedRun "p" .empty).2 destroyNamed.1 destroyNamed.2 :=
    Prog.exec_run (M := system anyAnswer) (fun w c => ⟨answers_okAnswer w c, trivial⟩) _ _
  rw [hok] at hrun
  have hstored : ∀ id s, (namedRun "p" .empty).2.store.get? id = some s → PathSegment id.val := by
    intro id s hs
    have hlisted : (namedRun "p" .empty).2.store.enclaves.toList.map (·.1) = [⟨"a"⟩] := rfl
    have hmem : id ∈ (namedRun "p" .empty).2.store.enclaves.toList.map (·.1) :=
      List.mem_map.mpr ⟨(id, s), Std.ExtTreeMap.mem_toList_iff_getElem?_eq_some.mpr hs, rfl⟩
    rw [hlisted, List.mem_singleton] at hmem
    rw [hmem]
    refine ⟨by decide, by decide, fun c hc => .inl ?_⟩
    rw [List.mem_singleton.mp (show c ∈ ['a'] from hc)]
    rfl
  have hdone := destroy_complete plainTransport_lawful (List.forall_mem_nil _) (fun _ h => by cases h)
    (fun _ => hstored) hrun
  obtain ⟨s, hs, hhandle, hparts⟩ : ∃ s, (namedRun "p" .empty).2.store.get? ⟨"a"⟩ = some s ∧
      s.enclaveHandle.isSome = true ∧ s.partitions.toList.length = 1 := ⟨_, rfl, rfl, rfl⟩
  exact ⟨hok, hdone.1, s, hs, hhandle, hparts, hdone.2 _ s hs rfl⟩

end Nclav
