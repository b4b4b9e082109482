import TimeTrials.Failure

/-!
# What a sweep sets out to do

A sweep is a list of entries, each of them one start of one language.  The sizes sweep goes through the
languages, for each through the sizes, and for each size through the trials; the benchmarks sweep goes
through the benchmarks and for each through the languages.  An entry knows what to start, where in the
output to look for the time, what the trial is to be filed under, and how to name its two steps.
-/

namespace TimeTrials.Sweep

/-- One trial to be run. -/
structure Entry where
  call : Invocation
  param : Param
  place : Timing.Place
  /-- The name of the step that runs the program. -/
  running : Step
  /-- The name of the step that reads the time. -/
  parsing : Step
  deriving DecidableEq

/-- The language of an entry. -/
def Entry.lang (entry : Entry) : String := entry.call.language.name

/-- The trial of an entry, once its time is known. -/
def Entry.trial (entry : Entry) (time : Number.Binary64) : Trial := ⟨entry.lang, entry.param, time⟩

/-- A trial of a language on a size. -/
def sizeEntry (settings : Settings) (language : Language) (n : UInt64) (trial : Nat) : Entry where
  call := ⟨language, settings.program, some n⟩
  param := .size n
  place := .wholeOutput
  running := .runSize language.name n trial
  parsing := .parseSize language.name n trial

/-- The trial of a language on a benchmark. -/
def benchmarkEntry (settings : Settings) (benchmark : String) (language : Language) : Entry where
  call := ⟨language, settings.benchmarkPath benchmark, none⟩
  param := .benchmark benchmark
  place := .lastLine
  running := .runBenchmark language.name benchmark
  parsing := .parseBenchmark language.name benchmark

/-- The sizes of a range, ascending. -/
def sizesOf (range : SizeRange) : List UInt64 :=
  (List.range' range.start.toNat range.count).map UInt64.ofNat

/-- The entries of the sizes sweep. -/
def sizesPlan (settings : Settings) : List Entry :=
  settings.languages.flatMap fun language =>
    (sizesOf settings.sizes).flatMap fun n =>
      (List.range settings.trials).map fun trial => sizeEntry settings language n trial

/-- The entries of the benchmarks sweep. -/
def benchmarksPlan (settings : Settings) : List Entry :=
  settings.benchmarks.flatMap fun benchmark =>
    settings.languages.map fun language => benchmarkEntry settings benchmark language

/-- The entries of the sweep for a kind of dataset. -/
def plan (settings : Settings) : Kind → List Entry
  | .sizes => sizesPlan settings
  | .benchmarks => benchmarksPlan settings

end TimeTrials.Sweep
