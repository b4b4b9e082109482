import TimeTrials.Host.Shell.Run
import TimeTrials.Launch

/-!
# Processes

Starting a program on the host and waiting for it.  The first word of a command line names the program:
with a slash in it the word is a path, without one it is looked for in the directories for programs.
A program that ends with a status other than zero has failed, whatever it printed; what it wrote to the
error stream is kept either way.
-/

namespace TimeTrials.Host

open Text (Bytes)

/-- The installed program in an entry. -/
def Entry.program? : Entry → Except SystemFault String
  | .program name => .ok name
  | _ => .error .permissionDenied

namespace FileSystem

/-- The program of a name in the directories for programs. -/
def search (fs : FileSystem) (name : String) : Except SystemFault String :=
  match name with
  | "" => .error .notFound
  | "." => .error .permissionDenied
  | ".." => .error .permissionDenied
  | name =>
    match searchPath.findSome? fun directory => fs.lookup (directory ++ [name]) with
    | some entry => entry.program?
    | none => .error .notFound

/-- The program that the first word of a command line names. -/
def program (fs : FileSystem) (word : String) : Except SystemFault String := do
  if word.toList.contains '/' then (← fs.open? word).program? else fs.search word

end FileSystem

/-- What a program leaves when it has ended. -/
structure Ending where
  status : Nat
  output : Bytes
  errors : Bytes
  fs : FileSystem

/-- Runs a program to its end. -/
def execute (fs : FileSystem) (word program : String) (arguments : List String) : Ending :=
  let s := Shell.runProgram fs word program arguments
  ⟨s.status, s.onChannel 1, s.onChannel 2, s.fs⟩

/-- Starts a command line and waits for it. -/
def start (fs : FileSystem) : List String → Except SystemFault Ending
  | [] => .error .emptyCommand
  | word :: arguments => do
    if (word :: arguments).any fun w => w.toList.contains '\x00' then throw .nulByte
    return execute fs word (← fs.program word) arguments

end TimeTrials.Host

namespace TimeTrials.Invocation

open Host (FileSystem)
open Text (Bytes)

/-- What came of starting a program: the output or a fault, what it wrote to the error stream, and the
files afterwards. -/
structure Outcome where
  result : Except LaunchFault String
  errors : Bytes
  fs : FileSystem

/-- Starts the program and waits for it.  A language without a command is named in place of the command
line. -/
def start (call : Invocation) (fs : FileSystem) : Outcome :=
  match call.language.command with
  | [] => ⟨.error (.notStarted call.language.name .emptyCommand), [], fs⟩
  | _ =>
    match Host.start fs call.words with
    | .error fault => ⟨.error (.notStarted call.display fault), [], fs⟩
    | .ok ending =>
      let result :=
        if ending.status = 0 then .ok (Text.Utf8.decodeLossy ending.output)
        else .error (.failed call.display ending.status)
      ⟨result, ending.errors, ending.fs⟩

end TimeTrials.Invocation
