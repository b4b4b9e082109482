import TimeTrials.Number.Literal
import TimeTrials.Text.Blank
import TimeTrials.Text.Quoted
import TimeTrials.Trial

/-!
# Reading a time out of program output

A program reports its time in one of two ways: it prints nothing else, or it prints the time on its
last line.  In the first case any number of line ends may follow.  In the second the line has to be
ended, because what counts as the last line is the one before the last line end; whatever stands
after that is not looked at.

Blanks around the time are allowed.  When it is refused, the fault shows the text with its blanks.
-/

namespace TimeTrials

open Number (Binary64 LiteralFault)

namespace Timing

/-- Why no time was found. -/
inductive Fault where
  /-- The text is no literal (and why), or it is one but not of a valid time. -/
  | notATime (found : String) (literal : Option LiteralFault)
  /-- There are fewer than two pieces between line ends. -/
  | missingLine (found : Nat)
  deriving DecidableEq

/-- The wording of a fault. -/
def Fault.message : Fault → String
  | .notATime found _ =>
    "expected a non-negative floating-point timing, found " ++ Text.quoted found
  | .missingLine found => s!"expected at least two lines of output, found {found}"

/-- The fault of the literal behind it, if there is one. -/
def Fault.reasons : Fault → List String
  | .notATime _ (some literal) => [literal.message]
  | _ => []

/-- Reads a time, blanks around it aside. -/
def readTime (text : String) : Except Fault Binary64 :=
  match Binary64.parse (Text.trim text) with
  | .error fault => .error (.notATime text (some fault))
  | .ok time => if isValidTime time then .ok time else .error (.notATime text none)

/-- The pieces of a text between line ends; there is always one. -/
def lines (text : List Char) : List (List Char) := text.splitOn '\n'

/-- Where the time stands in the output. -/
inductive Place where
  /-- The whole output is the time. -/
  | wholeOutput
  /-- The time is on the last ended line. -/
  | lastLine
  deriving DecidableEq, Repr

/-- Finds and reads the time in a program's output. -/
def read : Place → String → Except Fault Binary64
  | .wholeOutput, output =>
    readTime (String.ofList (Text.dropEndWhile (· == '\n') output.toList))
  | .lastLine, output =>
    match (lines output.toList).reverse with
    | _ :: line :: _ => readTime (String.ofList line)
    | pieces => .error (.missingLine pieces.length)

end Timing
end TimeTrials
