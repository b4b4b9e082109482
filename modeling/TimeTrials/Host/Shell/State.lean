import TimeTrials.Host.FileSystem
import TimeTrials.Host.Shell.Arithmetic
import TimeTrials.Host.Shell.Script

/-!
# The state of a running script

A running script has its name and arguments, variables, the status of the last command, what is left of
its input, and the files of the host.  What is printed is kept piece by piece together with the channel
it went to, the last piece first.  Channels `1` and `2` are the script's own output and error streams;
those from `3` on carry what is printed inside the script for another part of it.
-/

namespace TimeTrials.Host.Shell

open Text (Bytes)

/-- Where output goes. -/
inductive Sink where
  | channel (n : Nat)
  /-- The end of a file. -/
  | file (location : Location)
  deriving DecidableEq

/-- The state of a running script. -/
structure State where
  name : String
  arguments : List String
  bindings : List (String × String)
  /-- The variables that the programs it starts have too. -/
  exported : List String
  functions : List (String × Command)
  /-- The status of the last command. -/
  status : Nat
  output : Sink
  errors : Sink
  input : Bytes
  /-- All that has gone to channels, the last piece first. -/
  printed : List (Nat × Bytes)
  /-- The channel for the next part whose output is kept. -/
  nextChannel : Nat
  fs : FileSystem

namespace State

/-- The state in which a script starts. -/
def start (fs : FileSystem) (name : String) (arguments : List String) : State where
  name := name
  arguments := arguments
  bindings := []
  exported := []
  functions := []
  status := 0
  output := .channel 1
  errors := .channel 2
  input := []
  printed := []
  nextChannel := 3
  fs := fs

/-- Prints bytes to a sink. -/
def emit (s : State) (sink : Sink) (bytes : Bytes) : State :=
  match sink with
  | .channel n => { s with printed := (n, bytes) :: s.printed }
  | .file location =>
    match s.fs.lookup location with
    | some (.file content) => { s with fs := s.fs.insert location (.file (content ++ bytes)) }
    | _ => s

/-- What has gone to a channel. -/
def onChannel (s : State) (n : Nat) : Bytes :=
  (s.printed.reverse.filter fun piece => piece.1 = n).flatMap (·.2)

/-- Takes a channel's pieces away. -/
def withoutChannel (s : State) (n : Nat) : State :=
  { s with printed := s.printed.filter fun piece => piece.1 ≠ n }

/-- Prints a complaint about the command in a line, and sets the status. -/
def complain (s : State) (line : Nat) (text : String) (status : Nat) : State :=
  let message := s.name ++ s!": {line}: " ++ text ++ "\n"
  { s.emit s.errors (Text.Utf8.encode message) with status := status }

/-- Sets a variable. -/
def assign (s : State) (name value : String) : State :=
  { s with bindings := (name, value) :: s.bindings.filter fun entry => entry.1 ≠ name }

/-- Hands a variable on to the programs that are started. -/
def handOn (s : State) (name : String) : State := { s with exported := name :: s.exported }

/-- All arguments, if there are any. -/
def joinedArguments? (s : State) : Option String :=
  if s.arguments.isEmpty then none else some (" ".intercalate s.arguments)

/-- The value of a parameter. -/
def value? (s : State) (name : String) : Option String :=
  match name with
  | "#" => some (toString s.arguments.length)
  | "?" => some (toString s.status)
  | "@" => s.joinedArguments?
  | "*" => s.joinedArguments?
  | "0" => some s.name
  | name =>
    match Number.Whole.parse name with
    | .ok n => s.arguments[n - 1]?
    | .error _ => s.bindings.lookup name

/-- The value of a parameter; it is empty if there is none. -/
def value (s : State) (name : String) : String := (s.value? name).getD ""

/-- The number that a variable holds; an empty one holds zero. -/
def number? (s : State) (name : String) : Option Int :=
  match (s.value name).toList with
  | [] => some 0
  | '-' :: digits => (Arithmetic.number? digits).map (- ·)
  | digits => Arithmetic.number? digits

end State
end TimeTrials.Host.Shell
