import TimeTrials.Trial

/-!
# Groups of trials and their aggregates

Trials of one language on one parameter are repeated measurements of the same thing.  `Groups.ofTrials`
collects their times: one group for each pair that occurs, ordered by language and then by parameter,
and within a group the times in the order of the trials.  `Statistics` puts the mean and the sample
standard deviation in place of the times.

Sums are taken from the left, each step rounded, so that the order of the trials is part of the result.
-/

namespace TimeTrials

open Number (Binary64)

/-- Mean and sample standard deviation of a group. -/
structure Aggregate where
  samples : Nat
  mean : Binary64
  /-- The deviation for one degree of freedom less than samples; zero for a single sample. -/
  deviation : Binary64
  deriving DecidableEq

namespace Aggregate

/-- The sum from the left.  It starts from negative zero, so a sum of negative zeros is one. -/
def sum (samples : List Binary64) : Binary64 := samples.foldl Binary64.add .negativeZero

/-- The mean of the samples. -/
def meanOf (samples : List Binary64) : Binary64 := (sum samples).div (.ofNat samples.length)

/-- The square of the distance between two numbers. -/
def squaredDistance (centre x : Binary64) : Binary64 :=
  let d := x.sub centre
  d.mul d

/-- The sample standard deviation around the given mean. -/
def deviationOf (mean : Binary64) (samples : List Binary64) : Binary64 :=
  let squares := samples.map (squaredDistance mean)
  ((sum squares).div ((Binary64.ofNat samples.length).sub (.ofNat 1))).sqrt

/-- The aggregate of a list of samples; there is none of an empty one. -/
def ofSamples? : List Binary64 → Option Aggregate
  | [] => none
  | [x] => some ⟨1, meanOf [x], .zero⟩
  | samples =>
    let mean := meanOf samples
    some ⟨samples.length, mean, deviationOf mean samples⟩

end Aggregate

/-- What the trials of a group have in common. -/
structure GroupKey where
  lang : String
  param : Param
  deriving DecidableEq

/-- The order of groups: by language, then by parameter. -/
def GroupKey.before (a b : GroupKey) : Bool :=
  a.lang < b.lang || (a.lang == b.lang && a.param.before b.param)

/-- The group that a trial belongs to. -/
def Trial.key (trial : Trial) : GroupKey := ⟨trial.lang, trial.param⟩

/-- Times by group, in the order of the groups. -/
abbrev Groups := List (GroupKey × List Binary64)

namespace Groups

/-- Adds a time at the end of its group, which is made in its place if it is not there yet. -/
def add (key : GroupKey) (time : Binary64) : Groups → Groups
  | [] => [(key, [time])]
  | (key', times) :: rest =>
    if key = key' then (key', times ++ [time]) :: rest
    else if key.before key' then (key, [time]) :: (key', times) :: rest
    else (key', times) :: add key time rest

/-- The groups of a list of trials. -/
def ofTrials (trials : List Trial) : Groups :=
  trials.foldl (fun groups trial => groups.add trial.key trial.time) []

end Groups

/-- Aggregates by group, in the order of the groups. -/
structure Statistics where
  groups : List (GroupKey × Aggregate)
  deriving DecidableEq

namespace Statistics

/-- The aggregates of groups of times. -/
def ofGroups (groups : Groups) : Statistics :=
  ⟨groups.filterMap fun (key, times) => (Aggregate.ofSamples? times).map (key, ·)⟩

/-- The statistics of a list of trials. -/
def ofTrials (trials : List Trial) : Statistics := ofGroups (Groups.ofTrials trials)

/-- Drops every entry that repeats the one before it. -/
def withoutRepeats : List String → List String
  | [] => []
  | [a] => [a]
  | a :: b :: rest =>
    if a = b then withoutRepeats (b :: rest) else a :: withoutRepeats (b :: rest)

/-- The languages that occur, each once, in order. -/
def languages (stats : Statistics) : List String :=
  withoutRepeats (stats.groups.map (·.1.lang))

/-- The aggregates of a language by parameter, in order. -/
def ofLanguage (stats : Statistics) (lang : String) : List (Param × Aggregate) :=
  (stats.groups.filter (·.1.lang == lang)).map fun (key, aggregate) => (key.param, aggregate)

/-- The aggregate of a group, if there is such a group. -/
def get? (stats : Statistics) (lang : String) (param : Param) : Option Aggregate :=
  stats.groups.lookup ⟨lang, param⟩

end Statistics
end TimeTrials
