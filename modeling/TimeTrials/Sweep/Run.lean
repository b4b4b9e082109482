import TimeTrials.Dataset.Writer
import TimeTrials.Sweep.Plan

/-!
# Running a sweep

A sweep starts one program after the other and writes each trial as soon as it is measured.  The first
failure ends it, and what was written before stays.

## Runners

What starts programs is a *runner*: any state with a way to start a program in it.  A real runner's state
is the host, and a rehearsal's is a list of prepared answers.  A runner is also told what the sweep is
doing (`Event`), so that a log can keep the order of what happened.

## Actions

A sweep is built from actions.  An action changes the runner's state and the writer, and ends well or
with a failure; either way both are there afterwards.  Loops over languages, sizes, trials and benchmarks
are loops over actions, and a failure anywhere in them ends them all.
-/

namespace TimeTrials.Sweep

open Dataset (Writer)
open Number (Binary64)
open Text (Bytes)

/-- Something a sweep reports while it runs. -/
inductive Event where
  /-- The sizes sweep has come to a language. -/
  | language (lang : String)
  /-- The benchmarks sweep has come to a benchmark. -/
  | benchmark (name program : String)
  /-- A trial has been measured. -/
  | trial (trial : Trial)
  /-- A row has been added to the dataset. -/
  | row (bytes : Bytes)
  deriving DecidableEq

/-- A way to start programs from a state.  What a runner can fail with is a fault of starting a program,
as it is for the programs of the host; a fault of another stage is none that it could answer. -/
structure Runner (σ : Type) where
  /-- Starts a program and gives what it printed. -/
  run : Invocation → σ → Except LaunchFault String × σ
  /-- Takes note of an event. -/
  note : Event → σ → σ

/-- What a sweep changes as it runs. -/
structure State (σ : Type) where
  runner : σ
  writer : Writer

/-- A step that changes the state, and ends well or with a failure. -/
abbrev Action (σ : Type) := State σ → Except Failure Unit × State σ

variable {σ : Type}

/-- The action that does nothing. -/
def skip : Action σ := fun s => (.ok (), s)

/-- The second action after the first, unless the first fails. -/
def andThen (first second : Action σ) : Action σ := fun s =>
  match first s with
  | (.ok (), s') => second s'
  | (.error failure, s') => (.error failure, s')

/-- An action for every element of a list, in order, up to the first that fails. -/
def forEach {α : Type} (action : α → Action σ) : List α → Action σ
  | [] => skip
  | a :: rest => andThen (action a) (forEach action rest)

/-- An action for every number of `count` numbers from `first` on, up to the first that fails. -/
def countUp (action : Nat → Action σ) : Nat → Nat → Action σ
  | _, 0 => skip
  | first, count + 1 => andThen (action first) (countUp action (first + 1) count)

/-- Names the step that an action is. -/
def named (step : Step) (action : Action σ) : Action σ := fun s =>
  match action s with
  | (result, s') => (during step result, s')

/-- Reports an event. -/
def report (runner : Runner σ) (event : Event) : Action σ := fun s =>
  (.ok (), { s with runner := runner.note event s.runner })

/-- Writes a trial, and reports the row if it is accepted. -/
def write (runner : Runner σ) (trial : Trial) : Action σ := fun s =>
  match s.writer.write trial with
  | .ok writer => (.ok (), ⟨runner.note (.row (writer.since s.writer)) s.runner, writer⟩)
  | .error fault => (.error (.of (.dataset fault)), s)

/-- The time that an entry takes: runs its program and reads the output. -/
def measure (runner : Runner σ) (entry : Entry) (state : σ) : Except Failure Binary64 × σ :=
  match runner.run entry.call state with
  | (.error fault, state') => (.error ⟨[entry.running], .launch fault⟩, state')
  | (.ok output, state') =>
    match Timing.read entry.place output with
    | .error fault => (.error ⟨[entry.parsing], .timing fault⟩, state')
    | .ok time => (.ok time, state')

/-- Runs one entry: measures it, reports the trial and writes it. -/
def runEntry (runner : Runner σ) (entry : Entry) : Action σ := fun s =>
  match measure runner entry s.runner with
  | (.error failure, state) => (.error failure, { s with runner := state })
  | (.ok time, state) =>
    andThen (report runner (.trial (entry.trial time))) (write runner (entry.trial time))
      { s with runner := state }

/-- For each language, for each size, runs the program as often as there are trials. -/
def sweepSizes (runner : Runner σ) (settings : Settings) : Action σ :=
  forEach (fun language =>
    andThen (report runner (.language language.name)) <|
      countUp (fun n =>
        countUp (fun trial => runEntry runner (sizeEntry settings language (.ofNat n) trial))
          0 settings.trials)
        settings.sizes.start.toNat settings.sizes.count)
    settings.languages

/-- For each benchmark, runs every language once on it. -/
def sweepBenchmarks (runner : Runner σ) (settings : Settings) : Action σ :=
  forEach (fun benchmark =>
    andThen (report runner (.benchmark benchmark (settings.benchmarkPath benchmark))) <|
      forEach (fun language => runEntry runner (benchmarkEntry settings benchmark language))
        settings.languages)
    settings.benchmarks

/-- The sweep for a kind of dataset. -/
def sweepOf (runner : Runner σ) (settings : Settings) : Kind → Action σ
  | .sizes => sweepSizes runner settings
  | .benchmarks => sweepBenchmarks runner settings

/-- Runs the sweep for the writer's kind of dataset, and gives the number of rows in the writer. -/
def run (runner : Runner σ) (settings : Settings) (s : State σ) : Except Failure Nat × State σ :=
  match named (.sweep s.writer.kind) (sweepOf runner settings s.writer.kind) s with
  | (.ok (), s') => (.ok s'.writer.rows, s')
  | (.error failure, s') => (.error failure, s')

end TimeTrials.Sweep
