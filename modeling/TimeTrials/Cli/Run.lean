import TimeTrials.Chart.Bars
import TimeTrials.Chart.Trend
import TimeTrials.Cli.Arguments
import TimeTrials.Cli.Log
import TimeTrials.Cli.Report
import TimeTrials.Dataset.File
import TimeTrials.Host.Process
import TimeTrials.Settings.Load
import TimeTrials.Summary

/-!
# Running the program

One run of the program takes a command line and the files of the host, and leaves an exit status, what was
printed on the two streams, and the files as they are afterwards.  The command line is looked at first,
then the settings, then the dataset; the first of them that is wrong ends the run.

How programs are started is part of the environment, so that what is said about a run can be said for any
programs, also for such as answer differently each time.
-/

namespace TimeTrials.Cli

open Host (FileSystem)
open Text (Bytes)

/-- What a run finds besides its command line and the files. -/
structure Environment where
  /-- Whether charts have colors. -/
  colored : Bool
  /-- Which log lines are shown. -/
  filter : Log.Filter
  /-- How a program is started, when so many have been started before. -/
  start : Nat → Invocation → FileSystem → Invocation.Outcome

/-- The environment in which programs are those of the host. -/
def Environment.ofHost (colored : Bool) (filter : Log.Filter) : Environment :=
  ⟨colored, filter, fun _ => Invocation.start⟩

/-- What a run leaves. -/
structure Outcome where
  status : Nat
  output : String
  errors : Bytes
  fs : FileSystem

namespace Outcome

/-- A run that printed a text and is done. -/
def printed (fs : FileSystem) (text : String) : Outcome := ⟨0, text, [], fs⟩

/-- A run that ended in a failure, after what was printed to the error stream before. -/
def failed (fs : FileSystem) (errors : Bytes) (failure : Failure) : Outcome :=
  ⟨1, "", errors ++ Text.Utf8.encode (report failure), fs⟩

/-- A run whose chart could not be drawn. -/
def undrawable (fs : FileSystem) : Outcome := ⟨101, "", [], fs⟩

/-- A run whose command line leads to no command.  What is printed for help is not fixed. -/
def stopped (fs : FileSystem) : Stop → Outcome
  | .usage => ⟨2, "", [], fs⟩
  | .help => printed fs ""
  | .version => printed fs "lox-bench 0.1.0\n"

end Outcome

/-! ## Collecting -/

/-- The host while a sweep runs: its files, the dataset's place in them, how many programs have been
started, and the error stream so far, the last piece first. -/
structure Session where
  fs : FileSystem
  handle : FileSystem.Handle
  started : Nat
  transcript : List Bytes

namespace Session

/-- Adds a piece to the error stream. -/
def print (session : Session) (bytes : Bytes) : Session :=
  { session with transcript := bytes :: session.transcript }

/-- Logs a line. -/
def log (session : Session) (filter : Log.Filter) (line : Log.Line) : Session :=
  session.print (Text.Utf8.encode (line.filtered filter))

/-- The error stream. -/
def errors (session : Session) : Bytes := session.transcript.reverse.flatten

/-- Starts a program. -/
def start (environment : Environment) (call : Invocation) (session : Session) :
    Except LaunchFault String × Session :=
  let logged := session.log environment.filter (.running call)
  let outcome := environment.start logged.started call logged.fs
  (outcome.result,
    { logged.print outcome.errors with fs := outcome.fs, started := logged.started + 1 })

/-- Adds a row to the file of the dataset. -/
def addRow (session : Session) (row : Bytes) : Session :=
  match session.fs.write session.handle row with
  | .ok (fs, handle) => { session with fs := fs, handle := handle }
  | .error _ => session

/-- Takes note of what the sweep is doing: rows go to the file, everything else to the log. -/
def note (filter : Log.Filter) (event : Sweep.Event) (session : Session) : Session :=
  match event with
  | .row row => session.addRow row
  | event =>
    match Log.Line.ofEvent? event with
    | some line => session.log filter line
    | none => session

/-- The runner of a session. -/
def runner (environment : Environment) : Sweep.Runner Session :=
  ⟨start environment, note environment.filter⟩

end Session

/-- The dataset that is meant: the one that is named, or that of the kind. -/
def datasetPath (dataset : Option String) (kind : Kind) : String := dataset.getD kind.defaultPath

/-- Logs how a sweep has ended. -/
def logEnding (filter : Log.Filter) (path : String) (rows : Nat) (session : Session) :
    Except Failure Nat → Session
  | .ok rows => session.log filter (.finished rows path)
  | .error failure =>
    match failure.stage? with
    | some stage => session.log filter (.aborted stage rows)
    | none => session

/-- Runs the sweep for a kind and writes its dataset. -/
def collect (environment : Environment) (settings : Settings) (kind : Kind) (path : String)
    (fs : FileSystem) : Outcome :=
  match during .dataset (Dataset.create fs path kind) with
  | .error failure => .failed fs [] failure
  | .ok (fs, dataset) =>
    let session : Session := ⟨fs, dataset.handle, 0, []⟩
    let (result, s) :=
      Sweep.run (Session.runner environment) settings ⟨session, dataset.writer⟩
    let session := logEnding environment.filter path s.writer.rows s.runner result
    match during .collect result with
    | .ok _ => ⟨0, "", session.errors, session.fs⟩
    | .error failure => .failed session.fs session.errors failure

/-! ## Showing a dataset -/

/-- Reads a dataset, and prints what is made of it. -/
def present (fs : FileSystem) (path : String) (kind : Kind)
    (render : List Trial → Except Chart.Fault String) : Outcome :=
  match during .dataset (Dataset.load fs path kind) with
  | .error failure => .failed fs [] failure
  | .ok trials =>
    match render trials with
    | .ok text => .printed fs text
    | .error _ => .undrawable fs

/-! ## The whole run -/

/-- The content of the settings file. -/
def settingsOf (fs : FileSystem) (config : Option String) : Except Failure Settings :=
  during .config (Settings.load (config.map fun path => (path, fs.read path)))

/-- Carries out a command. -/
def perform (environment : Environment) (settings : Settings) (fs : FileSystem) : Command → Outcome
  | .collect kind dataset => collect environment settings kind (datasetPath dataset kind) fs
  | .summary kind dataset =>
    present fs (datasetPath dataset kind) kind fun trials =>
      .ok (Summary.render kind (Statistics.ofTrials trials))
  | .trend dataset minSize =>
    present fs (datasetPath dataset .sizes) .sizes fun trials =>
      (Chart.Trend.ofTrials settings trials minSize).render environment.colored
  | .bars dataset =>
    present fs (datasetPath dataset .benchmarks) .benchmarks fun trials =>
      (Chart.Bars.ofTrials settings trials).render environment.colored

/-- Runs the program. -/
def run (environment : Environment) (words : List String) (fs : FileSystem) : Outcome :=
  match Arguments.parse words with
  | .error stop => .stopped fs stop
  | .ok arguments =>
    match settingsOf fs arguments.config with
    | .error failure => .failed fs [] failure
    | .ok settings => perform environment settings fs arguments.command

end TimeTrials.Cli
