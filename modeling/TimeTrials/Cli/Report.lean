import TimeTrials.Failure

/-!
# Reporting a failure

A failure that ends the program is reported on the error stream: the outermost message, and below it the
messages that led to it, each with its number.  A single one goes without a number.  Further lines of a
message are indented as far as its first.
-/

namespace TimeTrials.Cli

/-- Replaces every line end by a line end and some spaces. -/
def indentLines (spaces : Nat) (message : String) : String :=
  ("\n" ++ "".pushn ' ' spaces).intercalate
    ((message.toList.splitOn '\n').map String.ofList)

/-- The messages behind the outermost one. -/
def causeLines : List String → List String
  | [] => []
  | [cause] => ["    " ++ indentLines 4 cause]
  | causes => causes.zipIdx.map fun (cause, n) => s!"    {n}: " ++ indentLines 7 cause

/-- The report of a chain of messages, the outermost first. -/
def reportChain : List String → String
  | [] => ""
  | [message] => "Error: " ++ message ++ "\n"
  | message :: causes =>
    "Error: " ++ message ++ "\n\nCaused by:\n" ++ String.join ((causeLines causes).map (· ++ "\n"))

/-- The report of a failure. -/
def report (failure : Failure) : String := reportChain failure.chain

end TimeTrials.Cli
