import TimeTrials.Color
import TimeTrials.Text.Quoted

/-!
# Settings

What to time and how to show it: the languages with the commands that start them, the program and the
sizes of one sweep, the benchmarks of the other, and the look of the charts.  Every setting has a
default.  Settings are usable when they pass `Settings.validate`, which reports the first of the faults
it finds in a fixed order.
-/

namespace TimeTrials

/-- A language under test. -/
structure Language where
  name : String
  /-- The words that start the interpreter; the program and its argument follow them. -/
  command : List String
  color : Option Color
  deriving DecidableEq, Repr

/-- The sizes from `start` up to, but not including, `stop`. -/
structure SizeRange where
  start : UInt64
  stop : UInt64
  deriving DecidableEq, Repr

/-- How many sizes there are. -/
def SizeRange.count (sizes : SizeRange) : Nat := sizes.stop.toNat - sizes.start.toNat

/-- The look of the charts. -/
structure ChartSettings where
  /-- How many columns the plot has. -/
  width : Nat
  trendTitle : String
  barsTitle : String
  deriving DecidableEq, Repr

/-- The charts as they look by default. -/
def ChartSettings.default : ChartSettings where
  width := 50
  trendTitle := "Fibonacci(n) execution time"
  barsTitle := "Benchmark times"

/-- All settings. -/
structure Settings where
  /-- The languages in the order in which they are run. -/
  languages : List Language
  /-- The program that is run on every size. -/
  program : String
  sizes : SizeRange
  /-- How often every size is run. -/
  trials : Nat
  benchmarkDir : String
  /-- The ending of the benchmarks' files. -/
  extension : String
  /-- The benchmarks in the order in which they are run. -/
  benchmarks : List String
  /-- The benchmarks that are left out of charts. -/
  excluded : List String
  chart : ChartSettings
  deriving DecidableEq, Repr

namespace Settings

/-- The settings where nothing else is said. -/
def default : Settings where
  languages := [
    ⟨"rubylox", ["bundle", "exec", "rubylox"], some .red⟩,
    ⟨"jlox", ["../../craftinginterpreters/jlox"], some .blue⟩]
  program := "../lox_programs/benchmark.lox"
  sizes := ⟨10, 35⟩
  trials := 5
  benchmarkDir := "../../craftinginterpreters/test/benchmark"
  extension := "lox"
  benchmarks := ["binary_trees", "equality", "instantiation", "invocation", "method_call",
    "properties", "string_equality", "trees", "zoo_batch", "zoo"]
  excluded := ["trees", "binary_trees"]
  chart := .default

/-- The file of a benchmark.  A name that starts at the root stands for itself, and an empty directory
adds nothing. -/
def benchmarkPath (settings : Settings) (name : String) : String :=
  let file := name ++ "." ++ settings.extension
  let dir := settings.benchmarkDir
  if file.toList.head? = some '/' || dir.isEmpty then file
  else if dir.toList.getLast? = some '/' then dir ++ file
  else dir ++ "/" ++ file

/-- The colour of a language: its own if it has one, and otherwise the palette's for its index. -/
def colorOf (settings : Settings) (lang : String) (index : Nat) : Color :=
  ((settings.languages.find? (·.name == lang)).bind (·.color)).getD (.ofIndex index)

/-- Why settings are unusable. -/
inductive Fault where
  | noLanguages
  | emptyCommand (name : String)
  | configuredTwice (name : String)
  | emptyRange (sizes : SizeRange)
  | noWidth
  deriving DecidableEq

/-- The wording of a fault. -/
def Fault.message : Fault → String
  | .noLanguages => "no languages configured"
  | .emptyCommand name => "language " ++ Text.quoted name ++ " has an empty command"
  | .configuredTwice name => "language " ++ Text.quoted name ++ " is configured twice"
  | .emptyRange sizes =>
    let start := sizes.start.toNat
    let stop := sizes.stop.toNat
    s!"size range {start}..{stop} is empty"
  | .noWidth => "chart width must be positive"

/-- Checks the languages one after the other, `seen` being the names before them. -/
def checkLanguages (seen : List String) : List Language → Except Fault Unit
  | [] => .ok ()
  | language :: rest =>
    if language.command.isEmpty then .error (.emptyCommand language.name)
    else if language.name ∈ seen then .error (.configuredTwice language.name)
    else checkLanguages (language.name :: seen) rest

/-- Checks that the settings are usable: there are languages, each with a command and a name of its
own, the range of sizes is not empty, and charts have a width. -/
def validate (settings : Settings) : Except Fault Unit := do
  if settings.languages.isEmpty then throw .noLanguages
  checkLanguages [] settings.languages
  if settings.sizes.stop ≤ settings.sizes.start then throw (.emptyRange settings.sizes)
  if settings.chart.width = 0 then throw .noWidth

end Settings
end TimeTrials
