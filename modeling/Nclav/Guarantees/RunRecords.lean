import Nclav.Driver.Runs
import Nclav.Effect.Record

/-!
# The records of runs

Every run of Terraform leaves a record of how it went and what was printed. The nine exits of the
two functions write it one by one: the exit behind the reading of the outputs writes none, what a
killed command had printed is not there to be written, and the lines behind one that is no UTF-8
are not read.
-/

namespace Nclav

open Effect Serde

/-! ## What a record is about -/

/-- The records that were written. -/
def iacRuns (log : List IacEvent) : List IacRun :=
  log.filterMap fun
    | ⟨.upsertIacRun run, _⟩ => some run
    | _ => none

/-- An `init`, `apply` or `destroy` printed this on its two streams. -/
def IacEvent.Printed : IacEvent → List PrintedLine → List PrintedLine → Prop
  | ⟨.runTf _ _ _ args _, command⟩, stdout, stderr =>
    args.head? ≠ some "output" ∧ ∃ end_, command = .started stdout stderr end_
  | _, _, _ => False

/-- The text has every line of the two streams, in an order in which they may have arrived. -/
def Stands (stdout stderr : List PrintedLine) (text : String) : Prop :=
  ∃ outs errs lines, stdout = outs.map .text ∧ stderr = errs.map .text ∧ Arrives outs errs lines ∧
    (mergedLog lines).toList <:+: text.toList

/-- A subprocess was started, or tried to be. -/
def ReachedProcess (log : List IacEvent) : Prop :=
  ∃ authToken binary workspace args authEnv command,
    (⟨.runTf authToken binary workspace args authEnv, command⟩ : IacEvent) ∈ log

/-- There is one record. It tells whether the call succeeded, and has what the commands printed. -/
def Recorded (succeeded : Bool) (log : List IacEvent) : Prop :=
  ∃ run, iacRuns log = [run] ∧ (run.status = .succeeded ↔ succeeded = true) ∧
    ∀ ev ∈ log, ∀ stdout stderr, IacEvent.Printed ev stdout stderr → Stands stdout stderr run.log

/-! ## What there is to record -/

/-- The heading of a command. -/
def heading (args : List String) : String :=
  if args.head? = some "init" then "=== terraform init ===\n"
  else if args.head? = some "apply" then "\n=== terraform apply ===\n"
  else "=== terraform destroy ===\n"

/-- What is kept of a command: its text, or why there is none. Without a text an `apply` alone has
its heading. -/
def passage (args : List String) : Except DriverError (Int × String) → String
  | .ok (_, output) => heading args ++ output
  | .error e => if args.head? = some "apply" then heading args ++ toString e else toString e

/-- What is kept of the commands of a call, the oldest first. -/
def IacSite.transcript (site : IacSite) : List IacEvent → String
  | [] => ""
  | ⟨.runTf _ _ _ args _, command⟩ :: log =>
    if args.head? = some "output" then site.transcript log
    else site.transcript log ++ passage args (outcome site.binary args command.ended)
  | _ :: log => site.transcript log

/-- The command ended by itself and all its lines are UTF-8, or it was not started. One that was
killed, or whose end was not learned, had printed nothing that the text does not have anyway. -/
def Command.Kept (text : String) : Command → Prop
  | .notStarted _ => True
  | .started stdout stderr (.exited ..) => ∀ line ∈ stdout ++ stderr, ∃ s, line = .text s
  | .started stdout stderr _ => Stands stdout stderr text

/-- The command is kept; `output` printed the declared outputs. -/
def IacEvent.Kept (site : IacSite) (fromStr : String → Except String Value) (text : String) :
    IacEvent → Prop
  | ⟨.runTf _ _ _ args _, command⟩ =>
    if args.head? = some "output" then
      (site.parseOutputs fromStr (outcome site.binary args command.ended)).isOk = true
    else command.Kept text
  | _ => True

/-! ## Lines and texts -/

theorem isInfix_append_left {text a b : String} (h : text.toList <:+: a.toList) :
    text.toList <:+: (a ++ b).toList := by
  rw [String.toList_append]
  exact h.trans (List.prefix_append ..).isInfix

theorem isInfix_append_right {text a b : String} (h : text.toList <:+: b.toList) :
    text.toList <:+: (a ++ b).toList := by
  rw [String.toList_append]
  exact h.trans (List.suffix_append ..).isInfix

/-- Lines that are all UTF-8 are texts. -/
theorem map_readable {lines : List PrintedLine} (h : ∀ line ∈ lines, ∃ s, line = .text s) :
    lines = (readable lines).map .text := by
  induction lines with
  | nil => rfl
  | cons line lines ih =>
    obtain ⟨⟨s, rfl⟩, hrest⟩ := List.forall_mem_cons.mp h
    exact congrArg (List.cons _) (ih hrest)

theorem Stands.text {stdout stderr : List PrintedLine} {text : String}
    (h : Stands stdout stderr text) : ∀ line ∈ stdout ++ stderr, ∃ s, line = .text s := by
  obtain ⟨outs, errs, -, rfl, rfl, -⟩ := h
  intro line hline
  rw [← List.map_append] at hline
  obtain ⟨s, -, rfl⟩ := List.mem_map.mp hline
  exact ⟨s, rfl⟩

section

variable {site : IacSite} {fromStr : String → Except String Value} {log : List IacEvent}
  {text : String} {authToken binary workspace : String} {args : List String}
  {authEnv : HashMap String String} {command : Command}

/-- What is kept of a command is in what is kept of the call. -/
theorem passage_infix (hev : (⟨.runTf authToken binary workspace args authEnv, command⟩ : IacEvent) ∈
    log) (hargs : args.head? ≠ some "output") :
    (passage args (outcome site.binary args command.ended)).toList <:+:
      (site.transcript log).toList := by
  induction log with
  | nil => cases hev
  | cons ev log ih =>
    rcases List.mem_cons.mp hev with rfl | hev
    · rw [IacSite.transcript, if_neg hargs]
      exact isInfix_append_right List.infix_rfl
    · have hrest := ih hev
      obtain ⟨c, r⟩ := ev
      cases c with
      | runTf =>
        rw [IacSite.transcript]
        split
        · exact hrest
        · exact isInfix_append_left hrest
      | _ => exact hrest

/-- A command is kept exactly where the lines that it printed stand in what is kept of the call. -/
theorem kept_iff (hev : (⟨.runTf authToken binary workspace args authEnv, command⟩ : IacEvent) ∈ log)
    (hargs : args.head? ≠ some "output") :
    command.Kept (site.transcript log) ↔ ∀ stdout stderr end_,
      command = .started stdout stderr end_ → Stands stdout stderr (site.transcript log) := by
  cases command with
  | notStarted e => exact ⟨fun _ => nofun, fun _ => trivial⟩
  | started stdout stderr end_ =>
    have hsame : (∀ stdout' stderr' end', Command.started stdout stderr end_ =
        .started stdout' stderr' end' → Stands stdout' stderr' (site.transcript log)) ↔
        Stands stdout stderr (site.transcript log) := by
      refine ⟨fun h => h _ _ _ rfl, fun h stdout' stderr' end' heq => ?_⟩
      obtain ⟨rfl, rfl, -⟩ := Command.started.inj heq
      exact h
    rw [hsame]
    cases end_ with
    | exited code lines arrives =>
      refine ⟨fun htext => ?_, Stands.text⟩
      refine ⟨readable stdout, readable stderr, lines, ?_, ?_, arrives, ?_⟩
      · exact map_readable fun line hline => htext line (List.mem_append_left _ hline)
      · exact map_readable fun line hline => htext line (List.mem_append_right _ hline)
      · have hpassage : _ <:+: (site.transcript log).toList := passage_infix hev hargs
        rw [Command.ended, outcome, passage] at hpassage
        exact (isInfix_append_right List.infix_rfl).trans hpassage
    | timedOut | wait => exact Iff.rfl

/-- The log of a run up to a record: none is written, the outputs were read where they were asked
for, and this is kept of the commands. -/
structure Unrecorded (site : IacSite) (fromStr : String → Except String Value)
    (log : List IacEvent) (text : String) : Prop where
  none_ : iacRuns log = []
  transcript_eq : site.transcript log = text
  outputs : ∀ ev ∈ log, ∀ authToken binary workspace args authEnv command,
    ev = ⟨.runTf authToken binary workspace args authEnv, command⟩ → args.head? = some "output" →
      (site.parseOutputs fromStr (outcome site.binary args command.ended)).isOk = true

/-- Where the outputs were read, what was printed is kept exactly where it stands in the text. -/
theorem Unrecorded.kept_iff_stands (h : Unrecorded site fromStr log text) :
    (∀ ev ∈ log, IacEvent.Kept site fromStr text ev) ↔
      ∀ ev ∈ log, ∀ stdout stderr, IacEvent.Printed ev stdout stderr → Stands stdout stderr text := by
  refine forall₂_congr fun ev hev => ?_
  obtain ⟨c, r⟩ := ev
  cases c with
  | runTf authToken binary workspace args authEnv =>
    have houtputs := h.outputs _ hev _ _ _ _ _ _ rfl
    rw [IacEvent.Kept]
    split
    · rename_i hargs
      exact iff_of_true (houtputs hargs) fun _ _ hp => absurd hargs hp.1
    · rename_i hargs
      rw [← h.transcript_eq, kept_iff hev hargs]
      exact ⟨fun hkept stdout stderr ⟨_, end_, heq⟩ => hkept stdout stderr end_ heq,
        fun hstands stdout stderr end_ heq => hstands stdout stderr ⟨hargs, end_, heq⟩⟩
  | _ => exact iff_of_true trivial fun _ _ hp => hp.elim

/-- One more command. -/
theorem Unrecorded.runTf (h : Unrecorded site fromStr log text)
    (authToken binary workspace : String) (args : List String) (authEnv : HashMap String String)
    (hargs : args.head? ≠ some "output") (command : Command) :
    Unrecorded site fromStr (⟨.runTf authToken binary workspace args authEnv, command⟩ :: log)
      (text ++ passage args (outcome site.binary args command.ended)) where
  none_ := h.none_
  transcript_eq := by rw [IacSite.transcript, if_neg hargs, h.transcript_eq]
  outputs := by
    refine List.forall_mem_cons.mpr ⟨?_, h.outputs⟩
    rintro _ _ _ _ _ _ ⟨⟩ houtput
    exact absurd houtput hargs

/-- A call that is neither a command nor a record. -/
theorem Unrecorded.other (h : Unrecorded site fromStr log text) (ev : IacEvent)
    (hnone : iacRuns [ev] = []) (hargs : ∀ authToken binary workspace args authEnv command,
      ev ≠ ⟨.runTf authToken binary workspace args authEnv, command⟩) :
    Unrecorded site fromStr (ev :: log) text := by
  obtain ⟨c, r⟩ := ev
  cases c with
  | runTf => exact absurd rfl (hargs _ _ _ _ _ _)
  | upsertIacRun => cases hnone
  | _ =>
    exact ⟨h.none_, h.transcript_eq, List.forall_mem_cons.mpr ⟨nofun, h.outputs⟩⟩

/-! ## Writing one -/

/-- One record that tells how it went exactly where what was printed is kept. -/
def Accounts {α : Type} (site : IacSite) (fromStr : String → Except String Value)
    (r : Except DriverError α) (log : List IacEvent) : Prop :=
  Recorded r.isOk log ↔ ∀ ev ∈ log, IacEvent.Kept site fromStr (site.transcript log) ev

/-- A record of what is kept. -/
theorem Unrecorded.recorded_iff_kept (h : Unrecorded site fromStr log text) {run : IacRun}
    {succeeded : Bool} (hlog : run.log = text) (hstatus : run.status = .succeeded ↔ succeeded = true)
    (stored : Except StoreError Unit) :
    Recorded succeeded (⟨.upsertIacRun run, stored⟩ :: log) ↔
      ∀ ev ∈ (⟨.upsertIacRun run, stored⟩ :: log : List IacEvent),
        IacEvent.Kept site fromStr (site.transcript (⟨.upsertIacRun run, stored⟩ :: log)) ev := by
  have htranscript : site.transcript (⟨.upsertIacRun run, stored⟩ :: log) = text := h.transcript_eq
  have hkept := h.kept_iff_stands
  have hrecord : IacEvent.Kept site fromStr text ⟨.upsertIacRun run, stored⟩ := trivial
  rw [htranscript, List.forall_mem_cons, hkept, and_iff_right hrecord]
  constructor
  · rintro ⟨run', hruns, -, hprinted⟩ ev hev
    obtain ⟨rfl, -⟩ := List.cons.inj hruns
    rw [← hlog]
    exact hprinted ev (List.mem_cons_of_mem _ hev)
  · intro hstands
    refine ⟨run, congrArg (List.cons run) h.none_, hstatus, List.forall_mem_cons.mpr ⟨nofun, ?_⟩⟩
    rw [hlog]
    exact hstands

/-- The record of what is kept, written in the end. -/
theorem Unrecorded.wp_exit {α : Type} (h : Unrecorded site fromStr log text)
    (operation : IacOperation) {exitCode : Option Int} {r : Except DriverError α}
    (hcode : exitCode = some 0 ↔ r.isOk = true) :
    Prog.wp recorder ((site.writeRun operation text exitCode).bind fun _ => Prog.ret r)
      (Accounts site fromStr) log := by
  rw [Prog.wp_bind]
  intro id _ startedAt _ finishedAt _ stored _
  have hids := h.other ⟨.newUuid, id⟩ rfl nofun
  have hstart := hids.other ⟨.now, startedAt⟩ rfl nofun
  have hend := hstart.other ⟨.now, finishedAt⟩ rfl nofun
  refine hend.recorded_iff_kept rfl ?_ stored
  rw [← hcode]
  dsimp only
  split
  · exact ⟨fun _ => rfl, fun _ => rfl⟩
  · rename_i hne
    exact ⟨nofun, fun heq => absurd heq hne⟩

/-! ## The two functions -/

theorem wp_runTf {Q : Except DriverError (Int × String) → List IacEvent → Prop} :
    Prog.wp recorder (site.runTf args) Q log ↔
      ∀ command, Q (outcome site.binary args command.ended)
        (⟨.runTf site.tf.authToken site.binary site.workspace args site.authEnv, command⟩ :: log) :=
  ⟨fun h command => h command trivial, fun h command _ => h command⟩

/-- The last part of a provision. Where the outputs cannot be read there is no record. -/
theorem Unrecorded.wp_finish (h : Unrecorded site fromStr log text) :
    Prog.wp recorder (site.finish fromStr text) (Accounts site fromStr) log := by
  rw [IacSite.finish, IacSite.readOutputs, Prog.bind_eq, Prog.wp_bind, Prog.bind_eq, Prog.wp_bind,
    wp_runTf]
  intro command
  rw [Prog.pure_eq, Prog.wp_ret]
  have hargs : (["output", "-json", "-no-color"] : List String).head? = some "output" := rfl
  rcases hread : site.parseOutputs fromStr
    (outcome site.binary ["output", "-json", "-no-color"] command.ended) with e | outputs
  · refine ⟨fun ⟨run, hrun, _⟩ => ?_, fun hall => ?_⟩
    · rw [show iacRuns (_ :: log) = iacRuns log from rfl, h.none_] at hrun
      cases hrun
    · have hkept := hall _ (List.mem_cons_self ..)
      rw [IacEvent.Kept, if_pos hargs, hread] at hkept
      cases hkept
  · have hnext : Unrecorded site fromStr (⟨.runTf site.tf.authToken site.binary site.workspace
        ["output", "-json", "-no-color"] site.authEnv, command⟩ :: log) text := {
      none_ := h.none_
      transcript_eq := by rw [IacSite.transcript, if_pos hargs, h.transcript_eq]
      outputs := by
        refine List.forall_mem_cons.mpr ⟨?_, h.outputs⟩
        rintro _ _ _ _ _ _ ⟨⟩ -
        rw [hread]
        rfl }
    exact hnext.wp_exit .provision ⟨fun _ => rfl, fun _ => rfl⟩

theorem Unrecorded.wp_apply (h : Unrecorded site fromStr log text) :
    Prog.wp recorder (site.apply fromStr text) (Accounts site fromStr) log := by
  rw [IacSite.apply, Prog.bind_eq, Prog.wp_bind, wp_runTf]
  intro command
  have hnext := h.runTf site.tf.authToken site.binary site.workspace
    ["apply", "-auto-approve", "-no-color"] site.authEnv (by decide) command
  generalize outcome site.binary ["apply", "-auto-approve", "-no-color"] command.ended = ended at hnext ⊢
  rcases ended with e | ⟨exit, output⟩
  · rw [show passage _ (.error e) = "\n=== terraform apply ===\n" ++ toString e from rfl,
      ← String.append_assoc] at hnext
    exact hnext.wp_exit .provision ⟨nofun, nofun⟩
  · rw [show passage _ (.ok (exit, output)) = "\n=== terraform apply ===\n" ++ output from rfl,
      ← String.append_assoc] at hnext
    by_cases hexit : exit = 0
    · subst hexit
      exact hnext.wp_finish
    · dsimp only
      rw [if_pos hexit]
      exact hnext.wp_exit .provision ⟨fun h => absurd (Option.some.inj h) hexit, nofun⟩

theorem Unrecorded.wp_init (h : Unrecorded site fromStr log "") :
    Prog.wp recorder (site.init fromStr) (Accounts site fromStr) log := by
  rw [IacSite.init, Prog.bind_eq, Prog.wp_bind, wp_runTf]
  intro command
  have hnext := h.runTf site.tf.authToken site.binary site.workspace site.initArgs site.authEnv
    (show some "init" ≠ some "output" by decide) command
  rw [String.empty_append] at hnext
  generalize outcome site.binary site.initArgs command.ended = ended at hnext ⊢
  rcases ended with e | ⟨exit, output⟩
  · exact hnext.wp_exit .provision ⟨nofun, nofun⟩
  · by_cases hexit : exit = 0
    · subst hexit
      exact hnext.wp_apply
    · dsimp only
      rw [if_pos hexit]
      exact hnext.wp_exit .provision ⟨fun h => absurd (Option.some.inj h) hexit, nofun⟩

theorem Unrecorded.wp_destroy (h : Unrecorded site fromStr log "") :
    Prog.wp recorder site.destroy (Accounts site fromStr) log := by
  rw [IacSite.destroy, Prog.bind_eq, Prog.wp_bind, wp_runTf]
  intro command
  have hnext := h.runTf site.tf.authToken site.binary site.workspace
    ["destroy", "-auto-approve", "-no-color"] site.authEnv (by decide) command
  rw [String.empty_append] at hnext
  generalize outcome site.binary ["destroy", "-auto-approve", "-no-color"] command.ended = ended at hnext ⊢
  rcases ended with e | ⟨exit, output⟩
  · exact hnext.wp_exit .teardown ⟨nofun, nofun⟩
  · by_cases hexit : exit = 0
    · subst hexit
      exact hnext.wp_exit .teardown ⟨fun _ => rfl, fun _ => rfl⟩
    · dsimp only
      simp only [ne_eq, hexit, not_false_eq_true, if_true]
      exact hnext.wp_exit .teardown ⟨fun h => absurd (Option.some.inj h) hexit, nofun⟩

end

/-! ## A call -/

/-- A call of `provision` or `teardown`. -/
inductive IacRequest : Type where
  | provision
  | teardown

/-- The call, and whether it succeeds. -/
def IacRequest.prog (site : IacSite) (fromStr : String → Except String Value) :
    IacRequest → IacProg Bool
  | .provision => (site.provision fromStr).bind fun r => .ret r.isOk
  | .teardown => site.teardown.bind fun r => .ret r.isOk

/-- **When a call leaves one truthful record.** A call that reaches its first subprocess writes one
record, which tells whether it succeeded and has the output of every `init`, `apply` and `destroy`,
iff each such command that was started ended by itself and printed UTF-8, or was killed (or ended
unseen) with nothing printed that the record does not have anyway; and the outputs, when it came to
them, could be read. -/
theorem recorded_iff {site : IacSite} {fromStr : String → Except String Value}
    {request : IacRequest} {succeeded : Bool} {log : List IacEvent}
    (hrun : Prog.Exec recorder (request.prog site fromStr) [] succeeded log)
    (hreached : ReachedProcess log) :
    Recorded succeeded log ↔ ∀ ev ∈ log, IacEvent.Kept site fromStr (site.transcript log) ev := by
  have hstart : Unrecorded site fromStr [] "" := ⟨rfl, rfl, List.forall_mem_nil _⟩
  revert hreached
  refine hrun.wp (Q := fun succeeded log => ReachedProcess log → (Recorded succeeded log ↔
    ∀ ev ∈ log, IacEvent.Kept site fromStr (site.transcript log) ev)) ?_
  cases request with
  | provision =>
    rw [IacRequest.prog, Prog.wp_bind, IacSite.provision]
    split
    · rintro ⟨_, _, _, _, _, _, hev⟩
      cases hev
    · rintro (e | ⟨⟩) -
      · rintro ⟨_, _, _, _, _, _, hev⟩
        cases List.mem_singleton.mp hev
      · have hprepared := hstart.other ⟨.prepare site.workspace, .ok ()⟩ rfl nofun
        exact Prog.wp_mono hprepared.wp_init fun _ _ haccounts _ => haccounts
  | teardown =>
    rw [IacRequest.prog, Prog.wp_bind, IacSite.teardown]
    split
    · rintro ⟨_, _, _, _, _, _, hev⟩
      cases hev
    · rintro (_ | _) -
      · rintro ⟨_, _, _, _, _, _, hev⟩
        cases List.mem_singleton.mp hev
      · have hthere := hstart.other ⟨.exists_ site.workspace, true⟩ rfl nofun
        exact Prog.wp_mono hthere.wp_destroy fun _ _ haccounts _ => haccounts

/-! ### Outputs that cannot be read -/

/-- A partition with the files of its user. -/
def appliedSite : IacSite where
  tf := ⟨"http://127.0.0.1:8080", "t", false⟩
  host := ⟨fun _ => "", Topo.kahn, "/root"⟩
  enclave := ⟨⟨"a"⟩, "a", none, "r", none, none, none, [], [], []⟩
  partition := ⟨⟨"p"⟩, "p", none, [], [], ∅, ["port"], .terraform ⟨none, none, "a/p"⟩⟩
  authEnv := ∅
  reconcileRunId := none

/-- Every command exits with 0, but `output` with another code. -/
def withoutOutputs : (c : IacCall) → IacResp c
  | .prepare _ => .ok ()
  | .exists_ _ => true
  | .runTf _ _ _ args _ =>
    if args.head? = some "output" then .started [] [] (.exited (some 1) [] .nil)
    else .started [.text "done"] [] (.exited (some 0) ["done"] (.out .nil))
  | .newUuid => 0
  | .now => 0
  | .upsertIacRun _ => .ok ()

theorem exec_withoutOutputs (request : IacRequest) (fromStr : String → Except String Value) :
    Prog.Exec recorder (request.prog appliedSite fromStr) []
      (Prog.run recorder.next (fun _ => withoutOutputs) (request.prog appliedSite fromStr) []).1
      (Prog.run recorder.next (fun _ => withoutOutputs) (request.prog appliedSite fromStr) []).2 :=
  Prog.exec_run (fun _ _ => trivial) _ _

/-- A destroy is recorded. -/
theorem recorded_destroy : ∃ log,
    Prog.Exec recorder (IacRequest.teardown.prog appliedSite fun _ => .ok .null) [] true log ∧
      Recorded true log := by
  have hrun := exec_withoutOutputs .teardown fun _ => .ok .null
  refine ⟨_, hrun, (recorded_iff hrun ⟨_, _, _, _, _, _, List.mem_of_getElem? (i := 4) rfl⟩).mpr ?_⟩
  refine List.forall_mem_cons.mpr ⟨trivial, List.forall_mem_cons.mpr ⟨trivial, ?_⟩⟩
  refine List.forall_mem_cons.mpr ⟨trivial, List.forall_mem_cons.mpr ⟨trivial, ?_⟩⟩
  refine List.forall_mem_cons.mpr ⟨?_, List.forall_mem_cons.mpr ⟨trivial, List.forall_mem_nil _⟩⟩
  intro line hline
  exact ⟨"done", List.mem_singleton.mp hline⟩

/-- **An apply without a record.** `init` and `apply` have run, the outputs cannot be read, and
nothing is written. -/
theorem unrecorded_apply : ∃ log,
    Prog.Exec recorder (IacRequest.provision.prog appliedSite fun _ => .ok .null) [] false log ∧
      ReachedProcess log ∧ iacRuns log = [] ∧ ¬ Recorded false log := by
  have hrun := exec_withoutOutputs .provision fun _ => .ok .null
  refine ⟨_, hrun, ⟨_, _, _, _, _, _, List.mem_of_getElem? (i := 0) rfl⟩, rfl, ?_⟩
  rintro ⟨run, hruns, -⟩
  cases hruns

end Nclav
