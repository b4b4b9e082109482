import TimeTrials.Number.Binary64

/-!
# Trials

A trial is one timed execution: which language ran, what it was run on, and how many seconds it
reported.  What it was run on is an input size or a named benchmark, and a dataset holds trials of
one of these two kinds only.

Parameters are ordered for presentation: sizes by value, then benchmarks by name.  Names compare by
code point, which is also the order of their encoded bytes.
-/

namespace TimeTrials

open Number (Binary64)

/-- The two kinds of dataset, one for each sweep. -/
inductive Kind where
  /-- One program over a range of input sizes. -/
  | sizes
  /-- One run of each named benchmark. -/
  | benchmarks
  deriving DecidableEq, Repr

namespace Kind

/-- The name of the column that holds the parameter. -/
def column : Kind → String
  | .sizes => "n"
  | .benchmarks => "benchmark"

/-- The columns of a dataset. -/
def header (kind : Kind) : List String := ["lang", kind.column, "time"]

/-- The header as it is shown in messages. -/
def layout (kind : Kind) : String := ",".intercalate kind.header

/-- The dataset of a kind when no other is asked for. -/
def defaultPath : Kind → String
  | .sizes => "measurements.csv"
  | .benchmarks => "measurements_multiple.csv"

/-- The name of a kind on the command line. -/
def name : Kind → String
  | .sizes => "sizes"
  | .benchmarks => "benchmarks"

/-- The kind of the given name. -/
def ofName? (name : String) : Option Kind :=
  [sizes, benchmarks].find? (·.name == name)

end Kind

/-- What a trial was run on. -/
inductive Param where
  | size (n : UInt64)
  | benchmark (name : String)
  deriving DecidableEq, Repr

namespace Param

/-- The kind of dataset that a parameter belongs in. -/
def kind : Param → Kind
  | .size _ => .sizes
  | .benchmark _ => .benchmarks

/-- The parameter as it stands in a dataset or a table. -/
def text : Param → String
  | .size n => toString n.toNat
  | .benchmark name => name

/-- The order of presentation. -/
def before : Param → Param → Bool
  | .size a, .size b => a < b
  | .size _, .benchmark _ => true
  | .benchmark _, .size _ => false
  | .benchmark a, .benchmark b => a < b

end Param

/-- One timed execution. -/
structure Trial where
  lang : String
  param : Param
  /-- Elapsed seconds, as the program reported them. -/
  time : Binary64
  deriving DecidableEq

/-- Elapsed seconds are finite and not negative; negative zero counts as zero. -/
def isValidTime (time : Binary64) : Bool := time.isFinite && Binary64.zero.le time

end TimeTrials
