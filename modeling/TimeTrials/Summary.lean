import TimeTrials.Number.Style
import TimeTrials.Statistics
import TimeTrials.Text.Column

/-!
# The summary table

One row for every group, in order, with the groups of a language together: the language is named in
the first row of its block, and a rule of dashes closes the block.  Labels stand at the left of their
columns and numbers at the right.  A rule is as long as the encoded row above it.
-/

namespace TimeTrials.Summary

open Text (flushLeft flushRight repeated)

/-- The width of every column. -/
def columnWidth : Nat := 16

/-- What stands between two columns. -/
def gap : String := "  "

/-- How many columns hold labels; the others hold numbers. -/
def labels : Nat := 2

/-- The cells of a row in their columns. -/
def row (cells : List String) : String :=
  gap.intercalate
    ((cells.take labels).map (flushLeft columnWidth) ++
      (cells.drop labels).map (flushRight columnWidth))

/-- A line under a row, as long as the row is in bytes. -/
def rule (mark : Char) (row : String) : String := repeated row.utf8ByteSize mark

/-- The header row. -/
def header (kind : Kind) : String := row ["lang", kind.column, "samples", "mean (s)", "std (s)"]

/-- The row of a group under the given label for its language. -/
def groupRow (label : String) (param : Param) (aggregate : Aggregate) : String :=
  row [label, param.text, toString aggregate.samples, aggregate.mean.fixed 6,
    aggregate.deviation.fixed 6]

/-- The rows of a language.  Only the first one names it. -/
def languageRows (lang : String) : List (Param × Aggregate) → List String
  | [] => []
  | (param, aggregate) :: rest =>
    groupRow lang param aggregate ::
      rest.map fun (param, aggregate) => groupRow "" param aggregate

/-- The rows of a language and the rule that closes them. -/
def block (lang : String) (groups : List (Param × Aggregate)) : List String :=
  let rows := languageRows lang groups
  rows ++ [rule '-' (rows.getLast?.getD "")]

/-- The lines of the table. -/
def lines (kind : Kind) (stats : Statistics) : List String :=
  header kind :: rule '=' (header kind) ::
    stats.languages.flatMap fun lang => block lang (stats.ofLanguage lang)

/-- The table as text. -/
def render (kind : Kind) (stats : Statistics) : String :=
  String.join ((lines kind stats).map (· ++ "\n"))

end TimeTrials.Summary
