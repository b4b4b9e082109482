import TimeTrials.Sweep.Run

/-!
# The log

A log line has a level, a target that says which part of the program it comes from, a message and named
values.  A filter decides which lines are shown.  It is a list of directives, each of which sets the
level for the targets that start with a given text; for a target the longest of these texts counts, and
a target that no directive speaks of is not shown.
-/

namespace TimeTrials.Cli.Log

/-! ## Levels and filters -/

/-- How much a line matters. -/
inductive Level where
  | error
  | warn
  | info
  | debug
  | trace
  deriving DecidableEq

namespace Level

/-- How far down a level is; a filter that shows a level shows all above it. -/
def depth : Level → Nat
  | .error => 1
  | .warn => 2
  | .info => 3
  | .debug => 4
  | .trace => 5

/-- The name of a level. -/
def name : Level → String
  | .error => "ERROR"
  | .warn => "WARN"
  | .info => "INFO"
  | .debug => "DEBUG"
  | .trace => "TRACE"

/-- All levels. -/
def all : List Level := [.error, .warn, .info, .debug, .trace]

end Level

/-- What one directive of a filter says: how deep to show the targets that start with a text. -/
structure Directive where
  target : String
  depth : Nat
  deriving DecidableEq

/-- Which lines are shown. -/
abbrev Filter := List Directive

namespace Filter

/-- The depth that a word names: a level in capitals or not, the number of one, or `off`, which shows
nothing. -/
def depthOf? (word : String) : Option Nat :=
  let capitals := String.ofList (word.toList.map Char.toUpper)
  if capitals = "OFF" ∨ word = "0" then some 0
  else
    (Level.all.find? fun level => level.name == capitals || toString level.depth == word).map
      Level.depth

/-- A filter that shows nothing. -/
def off : Filter := [⟨"", 0⟩]

/-- The filter when none is asked for. -/
def standard : Filter := [⟨"lox_bench", Level.info.depth⟩]

/-- The targets of a directive are made of these. -/
def isTargetChar (c : Char) : Bool := c.isAlphanum || c == '_' || c == ':' || c == '-'

/-- Reads a directive: a level, a target, or both with an equals sign between them.  A target alone is
shown at all levels. -/
def directive? (text : String) : Option Directive :=
  match text.toList.splitOn '=' with
  | [word] =>
    let word := String.ofList word
    match depthOf? word with
    | some depth => some ⟨"", depth⟩
    | none => if word.toList.all isTargetChar then some ⟨word, Level.trace.depth⟩ else none
  | [target, level] =>
    if target.all isTargetChar then
      (depthOf? (String.ofList level)).map fun depth => ⟨String.ofList target, depth⟩
    else none
  | _ => none

/-- Reads a filter, its directives divided by commas.  One without directives shows errors. -/
def parse? (text : String) : Option Filter := do
  let words := (text.toList.splitOn ',').map String.ofList
  let directives ← (words.filter (· ≠ "")).mapM directive?
  return if directives.isEmpty then [⟨"", Level.error.depth⟩] else directives

/-- The filter that is asked for; one that cannot be read counts as none. -/
def ofRequest (request : Option String) : Filter := (request.bind parse?).getD standard

/-- The directive that counts for a target. -/
def directiveFor (filter : Filter) (target : String) : Option Directive :=
  filter.foldl
    (fun best d =>
      if d.target.toList.isPrefixOf target.toList then
        match best with
        | some b => if b.target.length ≤ d.target.length then some d else some b
        | none => some d
      else best)
    none

/-- Whether lines of a level and a target are shown. -/
def shows (filter : Filter) (level : Level) (target : String) : Bool :=
  match filter.directiveFor target with
  | some d => level.depth ≤ d.depth
  | none => false

end Filter

/-! ## Lines -/

/-- A part of the program that writes to the log. -/
inductive Target where
  | program
  | sweep
  | launcher
  deriving DecidableEq

/-- The name of a target. -/
def Target.name : Target → String
  | .program => "lox_bench"
  | .sweep => "lox_bench::bench"
  | .launcher => "lox_bench::run"

/-- A line of the log. -/
structure Line where
  level : Level
  target : Target
  message : String
  values : List (String × String)
  deriving DecidableEq

namespace Line

/-- The text of a line: the level to the right of five columns, the target, the message and the
values. -/
def text (line : Line) : String :=
  let level := line.level.name
  let values := line.values.map fun (name, value) => " " ++ name ++ "=" ++ value
  "".pushn ' ' (5 - level.length) ++ level ++ " " ++ line.target.name ++ ": " ++ line.message
    ++ String.join values ++ "\n"

/-- The text of a line, if the filter shows it. -/
def filtered (filter : Filter) (line : Line) : String :=
  if filter.shows line.level line.target.name then line.text else ""

/-- The value that says what a trial was run on. -/
def paramValue : Param → String × String
  | .size n => ("n", toString n.toNat)
  | .benchmark name => ("benchmark", name)

/-- The line for an event of a sweep.  A row that is added goes without one. -/
def ofEvent? : Sweep.Event → Option Line
  | .language lang => some ⟨.info, .sweep, "benchmarking", [("lang", lang)]⟩
  | .benchmark name program =>
    some ⟨.info, .sweep, "benchmarking", [("benchmark", name), ("program", Text.quoted program)]⟩
  | .trial trial =>
    some ⟨.info, .sweep, "trial",
      [("lang", trial.lang), paramValue trial.param, ("time", trial.time.write .log)]⟩
  | .row _ => none

/-- The line before a program is started. -/
def running (call : Invocation) : Line :=
  ⟨.debug, .launcher, "running", [("command", call.display)]⟩

/-- The line for a sweep that has come to its end. -/
def finished (rows : Nat) (path : String) : Line :=
  ⟨.info, .program, "done", [("rows", toString rows), ("path", Text.quoted path)]⟩

/-- The line for a sweep that a failure of measuring has ended. -/
def aborted (stage : Stage) (rows : Nat) : Line :=
  ⟨.error, .program, "sweep aborted", [("kind", stage.name), ("rows", toString rows)]⟩

end Line
end TimeTrials.Cli.Log
