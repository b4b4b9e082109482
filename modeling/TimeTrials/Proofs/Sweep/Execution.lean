import TimeTrials.Proofs.Dataset.Writing
import TimeTrials.Proofs.Sweep.Composition

/-!
# A sweep carries out its plan

The loops of a sweep and the list of its entries say the same thing, and this file proves it.  What has
to be observed for that are the starts of programs, and a runner's state need not show them.  So a sweep
is run twice, with a runner and with the same runner keeping a log (`Runner.recorded`).

* `Measurement`: an entry that went well, with the output that made it so.
* `FailsAt`: the three ways in which an entry can go wrong, each with its stage and its failure.
* `Progress`: a plan is carried out in full, or up to its first entry that goes wrong.
* `Follows`: an action is a plan, from every state.  This holds of one entry, it is kept by doing one
  thing after the other, and so of all that is put together from entries.
* `sweepOf_executes_plan`: the sweeps are their plans.
-/

namespace TimeTrials.Sweep

open Dataset (Writer)
open Number (Binary64)

/-! ## Recording -/

/-- A start of a program and what came of it. -/
structure Exchange where
  call : Invocation
  answer : Except LaunchFault String
  deriving DecidableEq

/-- The runner with a log of all that it was asked and all that it answered. -/
def Runner.recorded {σ : Type} (runner : Runner σ) : Runner (σ × List Exchange) where
  run call state :=
    match runner.run call state.1 with
    | (answer, state') => (answer, (state', state.2 ++ [⟨call, answer⟩]))
  note event state := (runner.note event state.1, state.2)

/-- The runner that gives prepared answers, whatever it is asked, and ends with empty outputs. -/
def Runner.prepared : Runner (List (Except LaunchFault String)) where
  run _ answers :=
    match answers with
    | [] => (.ok "", [])
    | answer :: rest => (answer, rest)
  note _ answers := answers

variable {σ : Type}

/-- What a sweep asks of the runner and what that answers, in order. -/
def exchanges (runner : Runner σ) (settings : Settings) (kind : Kind) (s : State σ) :
    List Exchange :=
  (sweepOf runner.recorded settings kind ⟨(s.runner, []), s.writer⟩).2.runner.2

/-! ## Single entries -/

/-- An entry that was run with a time as its output, for a writer that takes its trial. -/
structure Measurement (kind : Kind) where
  entry : Entry
  output : String
  time : Binary64
  read_output : Timing.read entry.place output = .ok time
  kind_param : entry.param.kind = kind

/-- The exchange behind a measurement. -/
def Measurement.exchange {kind : Kind} (m : Measurement kind) : Exchange :=
  ⟨m.entry.call, .ok m.output⟩

/-- The trial that comes of a measurement. -/
def Measurement.trial {kind : Kind} (m : Measurement kind) : Trial := m.entry.trial m.time

/-- An entry goes wrong on an answer: at which stage, and as which failure. -/
inductive FailsAt (kind : Kind) (entry : Entry) :
    Except LaunchFault String → Stage → Failure → Prop
  | launch (fault : LaunchFault) :
      FailsAt kind entry (.error fault) .launch ⟨[entry.running], .launch fault⟩
  | parse {output : String} {fault : Timing.Fault}
      (h : Timing.read entry.place output = .error fault) :
      FailsAt kind entry (.ok output) .parse ⟨[entry.parsing], .timing fault⟩
  | schema {output : String} {time : Binary64}
      (h : Timing.read entry.place output = .ok time) (hkind : entry.param.kind ≠ kind) :
      FailsAt kind entry (.ok output) .schema
        ⟨[], .dataset (.header kind.column entry.param.kind.column)⟩

/-- The stage of the failure is the one where the entry went wrong. -/
theorem FailsAt.stage?_eq {kind : Kind} {entry : Entry} {answer : Except LaunchFault String}
    {stage : Stage} {failure : Failure} (h : FailsAt kind entry answer stage failure) :
    failure.stage? = some stage := by
  cases h <;> rfl

/-! ## What an entry does

The cases are those of the code: there is no output, there is no time in it, and the trial is written
or refused. -/

section

variable {runner : Runner σ} {entry : Entry} {s : State σ} {state : σ}

theorem runEntry_of_error {fault : LaunchFault}
    (hrun : runner.run entry.call s.runner = (.error fault, state)) :
    runEntry runner entry s =
      (.error ⟨[entry.running], .launch fault⟩, ⟨state, s.writer⟩) := by
  simp only [runEntry, measure, hrun]

theorem runEntry_of_unread {output : String} {fault : Timing.Fault}
    (hrun : runner.run entry.call s.runner = (.ok output, state))
    (hread : Timing.read entry.place output = .error fault) :
    runEntry runner entry s =
      (.error ⟨[entry.parsing], .timing fault⟩, ⟨state, s.writer⟩) := by
  simp only [runEntry, measure, hrun, hread]

theorem runEntry_of_kind {output : String} {time : Binary64}
    (hrun : runner.run entry.call s.runner = (.ok output, state))
    (hread : Timing.read entry.place output = .ok time)
    (hkind : entry.param.kind = s.writer.kind) :
    runEntry runner entry s =
      (.ok (), ⟨runner.note (.row ((s.writer.withRows [entry.trial time]).since s.writer))
        (runner.note (.trial (entry.trial time)) state), s.writer.withRows [entry.trial time]⟩) := by
  have hwrite : s.writer.write (entry.trial time) = .ok (s.writer.withRows [entry.trial time]) :=
    Writer.write_of_kind hkind
  simp only [runEntry, measure, hrun, hread, andThen, report, write, hwrite]

theorem runEntry_of_other_kind {output : String} {time : Binary64}
    (hrun : runner.run entry.call s.runner = (.ok output, state))
    (hread : Timing.read entry.place output = .ok time)
    (hkind : entry.param.kind ≠ s.writer.kind) :
    runEntry runner entry s =
      (.error ⟨[], .dataset (.header s.writer.kind.column entry.param.kind.column)⟩,
        ⟨runner.note (.trial (entry.trial time)) state, s.writer⟩) := by
  have hwrite : s.writer.write (entry.trial time) =
      .error (.header s.writer.kind.column entry.param.kind.column) :=
    Writer.write_of_other_kind hkind
  simp only [runEntry, measure, hrun, hread, andThen, report, write, hwrite, Failure.of]

end

/-! ## Plans -/

/-- What has been done of a plan, what was exchanged for it, and how it ended. -/
inductive Progress {kind : Kind} (plan : List Entry) (done : List (Measurement kind)) :
    List Exchange → Except Failure Unit → Prop
  | completed (hplan : plan = done.map (·.entry)) :
      Progress plan done (done.map Measurement.exchange) (.ok ())
  | stopped {entry : Entry} {rest : List Entry} {answer : Except LaunchFault String} {stage : Stage}
      {failure : Failure} (hplan : plan = done.map (·.entry) ++ entry :: rest)
      (h : FailsAt kind entry answer stage failure) :
      Progress plan done (done.map Measurement.exchange ++ [⟨entry.call, answer⟩]) (.error failure)

namespace Progress

variable {kind : Kind} {plan plan' : List Entry} {done done' : List (Measurement kind)}
  {log log' : List Exchange} {result : Except Failure Unit}

/-- A plan that has ended well is done, entry by entry. -/
theorem eq_map_of_ok (h : Progress plan done log (.ok ())) :
    plan = done.map (·.entry) ∧ log = done.map Measurement.exchange := by
  cases h with
  | completed hplan => exact ⟨hplan, rfl⟩

/-- A plan that has ended early ends early with more behind it. -/
theorem append_plan {failure : Failure} (h : Progress plan done log (.error failure))
    (more : List Entry) : Progress (plan ++ more) done log (.error failure) := by
  cases h with
  | @stopped entry rest _ _ _ hplan hfails =>
    have hmore : plan ++ more = done.map (·.entry) ++ entry :: (rest ++ more) := by
      rw [hplan, List.append_assoc, List.cons_append]
    exact .stopped hmore hfails

/-- A plan that has ended well goes on with the next one. -/
theorem append (h : Progress plan done log (.ok ())) (h' : Progress plan' done' log' result) :
    Progress (plan ++ plan') (done ++ done') (log ++ log') result := by
  cases h with
  | completed hplan =>
    cases h' with
    | completed hplan' =>
      rw [← List.map_append]
      refine .completed ?_
      rw [hplan, hplan', List.map_append]
    | @stopped entry rest _ _ _ hplan' hfails =>
      have hboth : plan ++ plan' = (done ++ done').map (·.entry) ++ entry :: rest := by
        rw [hplan, hplan', List.map_append, List.append_assoc]
      rw [← List.append_assoc, ← List.map_append]
      exact .stopped hboth hfails

end Progress

/-! ## Actions that are plans -/

/-- The action, with a runner and with the same runner recorded, is a plan: from every state it makes
some progress with it, and this progress accounts for the writer and for the log. -/
def Follows (action : Action σ) (recorded : Action (σ × List Exchange)) (plan : List Entry) : Prop :=
  ∀ (s : State σ) (log : List Exchange),
    ∃ (result : Except Failure Unit) (state : σ) (done : List (Measurement s.writer.kind))
      (more : List Exchange),
      action s = (result, ⟨state, s.writer.withRows (done.map Measurement.trial)⟩) ∧
      recorded ⟨(s.runner, log), s.writer⟩ =
        (result, ⟨(state, log ++ more), s.writer.withRows (done.map Measurement.trial)⟩) ∧
      Progress plan done more result

namespace Follows

variable {action action' : Action σ} {recorded recorded' : Action (σ × List Exchange)}
  {plan plan' : List Entry}

theorem skip : Follows (skip : Action σ) Sweep.skip [] := by
  intro s log
  refine ⟨.ok (), s.runner, [], [], rfl, ?_, .completed rfl⟩
  rw [List.append_nil]
  rfl

theorem report (runner : Runner σ) (event : Event) :
    Follows (report runner event) (Sweep.report runner.recorded event) [] := by
  intro s log
  refine ⟨.ok (), runner.note event s.runner, [], [], rfl, ?_, .completed rfl⟩
  rw [List.append_nil]
  rfl

theorem andThen (h : Follows action recorded plan) (h' : Follows action' recorded' plan') :
    Follows (andThen action action') (Sweep.andThen recorded recorded') (plan ++ plan') := by
  intro s log
  obtain ⟨result, state, done, more, haction, hrecorded, hprogress⟩ := h s log
  cases result with
  | error failure =>
    refine ⟨.error failure, state, done, more, ?_, ?_, hprogress.append_plan plan'⟩
    · rw [Sweep.andThen, haction]
    · rw [Sweep.andThen, hrecorded]
  | ok =>
    obtain ⟨result', state', (done' : List (Measurement s.writer.kind)), more', haction',
        hrecorded', hprogress'⟩ :=
      h' ⟨state, s.writer.withRows (done.map Measurement.trial)⟩ (log ++ more)
    have hrows : s.writer.withRows ((done ++ done').map Measurement.trial) =
        (s.writer.withRows (done.map Measurement.trial)).withRows (done'.map Measurement.trial) := by
      rw [List.map_append, Writer.withRows_append]
    refine ⟨result', state', done ++ done', more ++ more', ?_, ?_, hprogress.append hprogress'⟩
    · rw [Sweep.andThen, haction, hrows]
      exact haction'
    · rw [Sweep.andThen, hrecorded, hrows, ← List.append_assoc]
      exact hrecorded'

/-- One entry. -/
theorem runEntry (runner : Runner σ) (entry : Entry) :
    Follows (runEntry runner entry) (Sweep.runEntry runner.recorded entry) [entry] := by
  intro s log
  cases hrun : runner.run entry.call s.runner with
  | mk answer state =>
    have hrecorded : runner.recorded.run entry.call (s.runner, log) =
        (answer, (state, log ++ [⟨entry.call, answer⟩])) := by
      simp only [Runner.recorded, hrun]
    cases answer with
    | error fault =>
      exact ⟨_, state, [], [⟨entry.call, .error fault⟩], runEntry_of_error hrun,
        runEntry_of_error hrecorded, .stopped rfl (.launch fault)⟩
    | ok output =>
      cases hread : Timing.read entry.place output with
      | error fault =>
        exact ⟨_, state, [], [⟨entry.call, .ok output⟩], runEntry_of_unread hrun hread,
          runEntry_of_unread hrecorded hread, .stopped rfl (.parse hread)⟩
      | ok time =>
        by_cases hkind : entry.param.kind = s.writer.kind
        · have hlogged := runEntry_of_kind (s := ⟨(s.runner, log), s.writer⟩) hrecorded hread hkind
          exact ⟨.ok (), _, [⟨entry, output, time, hread, hkind⟩], [⟨entry.call, .ok output⟩],
            runEntry_of_kind hrun hread hkind, hlogged, .completed rfl⟩
        · have hlogged := runEntry_of_other_kind (s := ⟨(s.runner, log), s.writer⟩) hrecorded hread
            hkind
          exact ⟨_, _, [], [⟨entry.call, .ok output⟩], runEntry_of_other_kind hrun hread hkind,
            hlogged, .stopped rfl (.schema hread hkind)⟩

end Follows

/-- A script follows the plan that it is put together from. -/
theorem Composed.follows {action : Script} {plan : List Entry} (h : Composed action plan)
    (runner : Runner σ) : Follows (action σ runner) (action _ runner.recorded) plan := by
  induction h with
  | skip => exact .skip
  | report => exact .report runner _
  | runEntry entry => exact .runEntry runner entry
  | andThen _ _ ih ih' => exact ih.andThen ih'

/-! ## The sweeps -/

theorem sweepOf_follows (runner : Runner σ) (settings : Settings) (kind : Kind) :
    Follows (sweepOf runner settings kind) (sweepOf runner.recorded settings kind)
      (plan settings kind) :=
  (sweepOf_composed settings kind).follows runner

/-- Keeping a log changes nothing else. -/
theorem sweepOf_recorded (runner : Runner σ) (settings : Settings) (kind : Kind) (s : State σ) :
    sweepOf runner.recorded settings kind ⟨(s.runner, []), s.writer⟩ =
      ((sweepOf runner settings kind s).1, ⟨((sweepOf runner settings kind s).2.runner,
        exchanges runner settings kind s), (sweepOf runner settings kind s).2.writer⟩) := by
  obtain ⟨result, state, done, log, hsweep, hrecorded, -⟩ :=
    sweepOf_follows runner settings kind s []
  rw [exchanges, hrecorded, hsweep]

/-- Every sweep makes some progress with its plan, which accounts for the writer. -/
theorem exists_progress (runner : Runner σ) (settings : Settings) (kind : Kind) (s : State σ) :
    ∃ done : List (Measurement s.writer.kind),
      (sweepOf runner settings kind s).2.writer = s.writer.withRows (done.map Measurement.trial) ∧
      Progress (plan settings kind) done (exchanges runner settings kind s)
        (sweepOf runner settings kind s).1 := by
  obtain ⟨result, state, done, log, hsweep, hrecorded, hprogress⟩ :=
    sweepOf_follows runner settings kind s []
  have hlog : exchanges runner settings kind s = log := by
    rw [exchanges, hrecorded, List.nil_append]
  refine ⟨done, ?_, ?_⟩
  · rw [hsweep]
  · rw [hsweep, hlog]
    exact hprogress

/-- **A sweep is its plan up to the first entry that goes wrong.**  Some entries at the start of the
plan go well; for each of them the runner is called once, and its row is written, in the order of the
plan.  If these are all, the sweep ends well.  Otherwise the runner is called once more, for the next
entry, and that is the end: the failure is of the stage at which this entry went wrong, and nothing is
called or written after it. -/
theorem sweepOf_executes_plan (runner : Runner σ) (settings : Settings) (kind : Kind)
    (s : State σ) :
    ∃ done : List (Measurement s.writer.kind),
      (sweepOf runner settings kind s).2.writer.sink =
        s.writer.sink ++ (done.map Measurement.trial).flatMap Dataset.encodeTrial ∧
      (sweepOf runner settings kind s).2.writer.rows = s.writer.rows + done.length ∧
      ((plan settings kind = done.map (·.entry) ∧
          exchanges runner settings kind s = done.map Measurement.exchange ∧
          (sweepOf runner settings kind s).1 = .ok ()) ∨
        ∃ entry rest answer stage failure,
          plan settings kind = done.map (·.entry) ++ entry :: rest ∧
          exchanges runner settings kind s =
            done.map Measurement.exchange ++ [⟨entry.call, answer⟩] ∧
          (sweepOf runner settings kind s).1 = .error failure ∧
          FailsAt s.writer.kind entry answer stage failure ∧ failure.stage? = some stage) ∧
      sweepOf runner.recorded settings kind ⟨(s.runner, []), s.writer⟩ =
        ((sweepOf runner settings kind s).1, ⟨((sweepOf runner settings kind s).2.runner,
          exchanges runner settings kind s), (sweepOf runner settings kind s).2.writer⟩) := by
  obtain ⟨done, hwriter, hprogress⟩ := exists_progress runner settings kind s
  refine ⟨done, ?_, ?_, ?_, sweepOf_recorded runner settings kind s⟩
  · rw [hwriter, Writer.sink_withRows]
  · rw [hwriter, Writer.rows_withRows, List.length_map]
  · generalize exchanges runner settings kind s = log at hprogress ⊢
    generalize (sweepOf runner settings kind s).1 = result at hprogress ⊢
    cases hprogress with
    | completed hplan => exact .inl ⟨hplan, rfl, rfl⟩
    | stopped hplan hfails => exact .inr ⟨_, _, _, _, _, hplan, rfl, rfl, hfails, hfails.stage?_eq⟩

/-- Of ten planned starts two are made when the second output is not a time, and one row is written. -/
example :
    let settings : Settings := { Settings.default with sizes := ⟨1, 2⟩ }
    let start : State (List (Except LaunchFault String)) := ⟨[.ok "1.5", .ok "?"], .new .sizes⟩
    (sizesPlan settings).length = 10 ∧
      (exchanges .prepared settings .sizes start).length = 2 ∧
      (sweepSizes .prepared settings start).2.writer.rows = 1 := by
  decide +kernel

end TimeTrials.Sweep
