import TimeTrials.Host.Fault
import TimeTrials.Settings.Basic

/-!
# Starting a program under test

An invocation is what a trial starts: the words of the language's command, the program, and the size
if there is one.  In messages it is shown as these words with spaces between them.
-/

namespace TimeTrials

open Host (SystemFault)

/-- One start of a language on a program. -/
structure Invocation where
  language : Language
  program : String
  argument : Option UInt64
  deriving DecidableEq

namespace Invocation

/-- The words of the command line. -/
def words (call : Invocation) : List String :=
  call.language.command ++ call.program :: (call.argument.map (toString ·.toNat)).toList

/-- A word as it is shown; one that no command line can hold is not. -/
def showWord (word : String) : String :=
  if word.toList.contains '\x00' then "<string-with-nul>" else word

/-- The command line as it is shown. -/
def display (call : Invocation) : String := " ".intercalate (call.words.map showWord)

end Invocation

/-- Why a program gave no output to look at. -/
inductive LaunchFault where
  /-- It could not be started. -/
  | notStarted (command : String) (reason : SystemFault)
  /-- What it wrote to the error stream could not be passed on. -/
  | notForwarded (command : String) (reason : SystemFault)
  /-- It ended with a status other than zero. -/
  | failed (command : String) (status : Nat)
  deriving DecidableEq

namespace LaunchFault

/-- The wording of a fault. -/
def message : LaunchFault → String
  | .notStarted command _ => "failed to launch `" ++ command ++ "`"
  | .notForwarded command _ => "failed to forward the stderr of `" ++ command ++ "`"
  | .failed command status =>
    "`" ++ command ++ "`" ++ s!" exited with non-zero status exit status: {status}"

/-- What lies behind a fault. -/
def reasons : LaunchFault → List String
  | .notStarted _ reason => [reason.message]
  | .notForwarded _ reason => [reason.message]
  | .failed _ _ => []

end LaunchFault
end TimeTrials
