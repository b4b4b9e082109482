import TimeTrials.Dataset.Fault
import TimeTrials.Launch
import TimeTrials.Settings.Decode
import TimeTrials.Timing

/-!
# Failures

A failure is a cause and the steps that were under way when it arose, outermost first.  It is reported
as a chain of messages: one for each step, then the cause, then what lies behind it.

Causes that have to do with measuring belong to a stage: starting a program, reading its time, or the
layout of a dataset.  Everything else, such as a missing file or bad settings, belongs to none.
-/

namespace TimeTrials

open Host (SystemFault)

/-- A step that can fail. -/
inductive Step where
  | config
  | dataset
  | collect
  | readFile (path : String)
  | parseFile (path : String)
  | validateSettings
  | createFile (path : String)
  | openFile (path : String)
  | readHeader
  | flush
  | sweep (kind : Kind)
  | runSize (lang : String) (size : UInt64) (trial : Nat)
  | parseSize (lang : String) (size : UInt64) (trial : Nat)
  | runBenchmark (lang benchmark : String)
  | parseBenchmark (lang benchmark : String)
  deriving DecidableEq

/-- The wording of a step. -/
def Step.message : Step → String
  | .config => "config"
  | .dataset => "dataset"
  | .collect => "collect"
  | .readFile path => "read " ++ Text.quoted path
  | .parseFile path => "parse " ++ Text.quoted path
  | .validateSettings => "validate config"
  | .createFile path => "create " ++ Text.quoted path
  | .openFile path => "open " ++ Text.quoted path
  | .readHeader => "read header"
  | .flush => "flush"
  | .sweep kind => kind.name ++ " sweep"
  | .runSize lang size trial => "run " ++ lang ++ s!" n={size} trial {trial}"
  | .parseSize lang size trial => "parse " ++ lang ++ s!" n={size} trial {trial}"
  | .runBenchmark lang benchmark => "run " ++ lang ++ " " ++ benchmark
  | .parseBenchmark lang benchmark => "parse " ++ lang ++ " " ++ benchmark

/-- The stage of measuring that a cause belongs to. -/
inductive Stage where
  | launch
  | parse
  | schema
  deriving DecidableEq, Repr

/-- The name of a stage in the log. -/
def Stage.name : Stage → String
  | .launch => "Launch"
  | .parse => "Parse"
  | .schema => "Schema"

/-- Why something failed. -/
inductive Cause where
  | launch (fault : LaunchFault)
  | timing (fault : Timing.Fault)
  | dataset (fault : Dataset.Fault)
  | system (fault : SystemFault)
  | notToml
  | decode (fault : Settings.DecodeFault)
  | settings (fault : Settings.Fault)
  deriving DecidableEq

namespace Cause

/-- The messages of a cause, with what lies behind it. -/
def chain : Cause → List String
  | .launch fault => fault.message :: fault.reasons
  | .timing fault => fault.message :: fault.reasons
  | .dataset fault => fault.message :: fault.reasons
  | .system fault => [fault.message]
  | .notToml => ["toml"]
  | .decode fault =>
    match fault.message? with
    | some message => ["toml: " ++ message]
    | none => ["toml"]
  | .settings fault => [fault.message]

/-- The stage of a cause. -/
def stage? : Cause → Option Stage
  | .launch _ => some .launch
  | .timing _ => some .parse
  | .dataset (.unreadableHeader _) => none
  | .dataset _ => some .schema
  | _ => none

end Cause

/-- A cause and the steps around it, outermost first. -/
structure Failure where
  steps : List Step
  cause : Cause
  deriving DecidableEq

namespace Failure

/-- A failure with no step around it. -/
def of (cause : Cause) : Failure := ⟨[], cause⟩

/-- The failure seen from one step further out. -/
def during (step : Step) (failure : Failure) : Failure :=
  { failure with steps := step :: failure.steps }

/-- All messages, outermost first. -/
def chain (failure : Failure) : List String :=
  failure.steps.map Step.message ++ failure.cause.chain

/-- The stage of the cause. -/
def stage? (failure : Failure) : Option Stage := failure.cause.stage?

/-- The failure of reading a dataset; one in its header arises while that is read. -/
def ofDataset : Dataset.Fault → Failure
  | .unreadableHeader fault => ⟨[.readHeader], .dataset (.unreadableHeader fault)⟩
  | fault => of (.dataset fault)

end Failure

/-- Names the step during which a result was computed. -/
def during {α : Type} (step : Step) (result : Except Failure α) : Except Failure α :=
  result.mapError (Failure.during step)

end TimeTrials
