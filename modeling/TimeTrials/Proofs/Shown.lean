import TimeTrials.Proofs.Chart.Rendering
import TimeTrials.Proofs.Chart.Scale
import TimeTrials.Proofs.Dataset.RoundTrip
import TimeTrials.Proofs.Number.Fixed

/-!
# The numbers that are shown

The times of a dataset are finite and not negative, and one would expect the same of every number in a
table or a chart.  It is nearly so.  What is shown of valid times is never a NaN, and it is a plain
decimal but for two kinds of dataset.

* Times can be so large that their sum, or the sum of the squared distances from their mean, is not
  finite any more.  Then the mean or the deviation is shown as infinite, and so is the end of an axis
  that has to reach it.
* Negative zero is a valid time, and a group of nothing else has a mean of negative zero, which is shown
  with its sign.

`MeanText`, `DeviationText` and `AxisText` say this for each of the three places where numbers are shown.

* `meanText_meanOf`, `deviationText_of_ofSamples?`: the aggregates of valid times.
* `axisText_axisEnd`: the end of an axis, for any values at all.
* `shown_numbers_of_read`: the summary and both charts of a dataset that is read.
* `not_isPlain_of_read`: datasets of the two kinds.
-/

namespace TimeTrials

open Number (Binary64 Magnitude IsPlain infinityText negativeZeroText)
open Number.Binary64
open Chart (Bars Trend axisEnd scaleOf)

/-! ## What is shown -/

/-- A sum of numbers that has left the finite ones. -/
def Overflows (samples : List Binary64) : Prop := Aggregate.sum samples = .infinite false

/-- Nothing but negative zeros. -/
def AllNegativeZero (times : List Binary64) : Prop := ∀ time ∈ times, time = .negativeZero

/-- How the mean of times is shown. -/
structure MeanText (places : Nat) (times : List Binary64) (text : String) : Prop where
  of_allNegativeZero : AllNegativeZero times → text = negativeZeroText places
  of_overflows : Overflows times → text = infinityText
  isPlain : ¬AllNegativeZero times → ¬Overflows times → IsPlain places text

/-- Whether the squared distances of several times from their mean add up to infinity. -/
def SquaresOverflow (times : List Binary64) : Prop :=
  2 ≤ times.length ∧ Overflows (times.map (Aggregate.squaredDistance (Aggregate.meanOf times)))

/-- How the deviation of times is shown. -/
structure DeviationText (places : Nat) (times : List Binary64) (text : String) : Prop where
  of_squaresOverflow : SquaresOverflow times → text = infinityText
  isPlain : ¬SquaresOverflow times → IsPlain places text

/-- How the end of an axis is shown on which values are plotted. -/
structure AxisText (values : List Binary64) (text : String) : Prop where
  of_infinite : .infinite false ∈ values → text = infinityText
  isPlain : .infinite false ∉ values → IsPlain 3 text

/-! ## Aggregates -/

section

variable {times : List Binary64} {places : Nat} (hplaces : 0 < places)
  (hcount : (ofNat times.length).isFinite = true) (hvalid : ∀ time ∈ times, isValidTime time = true)
include hplaces hcount hvalid

theorem meanText_meanOf (hne : times ≠ []) :
    MeanText places times ((Aggregate.meanOf times).fixed places) := by
  by_cases hzero : AllNegativeZero times
  · have hsum : Aggregate.sum times = .negativeZero := Aggregate.sum_eq_negativeZero hzero
    have hfinite : ¬Overflows times := by
      rw [Overflows, hsum]
      decide
    rw [Aggregate.meanOf_eq_negativeZero hne hcount hzero]
    exact ⟨fun _ => fixed_negativeZero hplaces, fun h => absurd h hfinite, fun h => absurd hzero h⟩
  · have hsome : ∃ time ∈ times, time ≠ .negativeZero := by
      simpa [AllNegativeZero] using hzero
    obtain ⟨total, mean, htotal, hmean, hinf⟩ := Aggregate.exists_meanOf hcount hvalid hsome
    have hover : Overflows times ↔ mean.isInfinite = true := by
      rw [Overflows, htotal, signed_eq_infinite_iff, hinf]
    rw [hmean]
    refine ⟨fun h => absurd h hzero, fun h => ?_, fun _ h => ?_⟩
    · exact fixed_of_isInfinite (hover.mp h) places
    · rw [hover, Bool.not_eq_true] at h
      exact isPlain_fixed h hplaces

theorem deviationText_of_ofSamples? {aggregate : Aggregate}
    (h : Aggregate.ofSamples? times = some aggregate) :
    DeviationText places times (aggregate.deviation.fixed places) := by
  obtain ⟨hne, rfl⟩ := Aggregate.ofSamples?_eq_some_iff.mp h
  have hpos : 0 < times.length := List.length_pos_iff.mpr hne
  by_cases hsingle : times.length = 1
  · have hfew : ¬SquaresOverflow times := by
      rintro ⟨hmany, -⟩
      omega
    rw [if_pos hsingle]
    exact ⟨fun h => absurd h hfew, fun _ => isPlain_fixed_zero hplaces⟩
  · have hmany : 2 ≤ times.length := by omega
    obtain ⟨total, deviation, htotal, hdeviation, hinf⟩ :=
      Aggregate.exists_deviationOf (Aggregate.meanOf_ne_nan hne hcount hvalid) hmany hcount hvalid
    have hover : SquaresOverflow times ↔ deviation.isInfinite = true := by
      rw [SquaresOverflow, and_iff_right hmany, Overflows, htotal, signed_eq_infinite_iff, hinf]
    rw [if_neg hsingle, hdeviation]
    refine ⟨fun h => fixed_of_isInfinite (hover.mp h) places, fun h => ?_⟩
    rw [hover, Bool.not_eq_true] at h
    exact isPlain_fixed h hplaces

end

/-! ## Axes -/

theorem axisText_axisEnd (values : List Binary64) : AxisText values (axisEnd (scaleOf values)) := by
  obtain ⟨m, hm, -, -⟩ := Chart.exists_scaleOf values
  have hinf := Chart.isInfinite_scaleOf_iff hm
  rw [axisEnd, hm]
  refine ⟨fun h => fixed_of_isInfinite (hinf.mpr h) 3, fun h => ?_⟩
  rw [← hinf, Bool.not_eq_true] at h
  exact isPlain_fixed h (by decide)

/-! ## Tables and charts -/

/-- How an aggregate of times is shown. -/
def AggregateText (places : Nat) (times : List Binary64) (aggregate : Aggregate) : Prop :=
  MeanText places times (aggregate.mean.fixed places) ∧
    DeviationText places times (aggregate.deviation.fixed places)

section

variable {trials : List Trial} {places : Nat} (hplaces : 0 < places)
  (hcount : trials.length ≤ Nat.pow 2 64) (hvalid : ∀ trial ∈ trials, isValidTime trial.time = true)
include hplaces hcount hvalid

theorem aggregateText_of_ofSamples? {key : GroupKey} {aggregate : Aggregate}
    (h : Aggregate.ofSamples? (Groups.timesOf trials key) = some aggregate) :
    AggregateText places (Groups.timesOf trials key) aggregate := by
  have hlength : (ofNat (Groups.timesOf trials key).length).isFinite = true := by
    refine isFinite_ofNat ?_
    rw [Groups.timesOf, List.length_map]
    exact (List.length_filter_le _ _).trans hcount
  have htimes : ∀ time ∈ Groups.timesOf trials key, isValidTime time = true := by
    intro time htime
    obtain ⟨trial, htrial, rfl⟩ := Groups.exists_of_mem_timesOf htime
    exact hvalid trial htrial
  have hdeviation := deviationText_of_ofSamples? hplaces hlength htimes h
  obtain ⟨hne, rfl⟩ := Aggregate.ofSamples?_eq_some_iff.mp h
  exact ⟨meanText_meanOf hplaces hlength htimes hne, hdeviation⟩

/-- The aggregates of a chart are those of the dataset; groups are left out of a chart as a whole. -/
theorem aggregateText_of_filter {keep : Trial → Bool}
    (hkeep : ∀ trial trial' : Trial, trial.key = trial'.key → keep trial = keep trial')
    {key : GroupKey} {aggregate : Aggregate} (hkey : key ∈ (trials.filter keep).map Trial.key)
    (h : Aggregate.ofSamples? (Groups.timesOf (trials.filter keep) key) = some aggregate) :
    AggregateText places (Groups.timesOf trials key) aggregate := by
  rw [Groups.timesOf_filter hkeep hkey] at h
  exact aggregateText_of_ofSamples? hplaces hcount hvalid h

end

/-- The numbers in the summary of trials and in the two charts of them. -/
structure NumbersShown (trials : List Trial) (settings : Settings) (minSize : Option UInt64) : Prop where
  summary : ∀ lang, ∀ entry ∈ (Statistics.ofTrials trials).ofLanguage lang,
    AggregateText 6 (Groups.timesOf trials ⟨lang, entry.1⟩) entry.2
  trend : ∀ point ∈ (Trend.ofTrials settings trials minSize).plotted,
    AggregateText 4 (Groups.timesOf trials ⟨point.2.1.lang, .size point.1⟩) point.2.2
  trendAxis : AxisText
    ((Trend.ofTrials settings trials minSize).points.map fun point =>
      point.2.mean.add point.2.deviation)
    (axisEnd (Trend.ofTrials settings trials minSize).scale)
  bars : ∀ series ∈ (Bars.ofTrials settings trials).series, ∀ (i : Nat) param (value : Binary64),
    (Bars.ofTrials settings trials).categories[i]? = some param →
      series.values[i]? = some (some value) →
        MeanText 4 (Groups.timesOf trials ⟨series.lang, param⟩) (value.fixed 4)
  barsAxis : AxisText
    ((Bars.ofTrials settings trials).series.flatMap fun series => series.values.filterMap id)
    (axisEnd (Bars.ofTrials settings trials).scale)

/-- **What is shown of a dataset.**  Numbers are plain decimals, apart from what has overflowed and from
the mean of negative zeros. -/
theorem shown_numbers_of_read {kind : Kind} {bytes : Text.Bytes} {trials : List Trial}
    (hread : Dataset.read kind bytes = .ok trials) (hcount : trials.length ≤ Nat.pow 2 64)
    (settings : Settings) (minSize : Option UInt64) : NumbersShown trials settings minSize := by
  have hvalid : ∀ trial ∈ trials, isValidTime trial.time = true :=
    fun trial htrial => (Dataset.forall_mem_of_read hread trial htrial).2
  refine ⟨?summary, ?trend, axisText_axisEnd _, ?bars, axisText_axisEnd _⟩
  case summary =>
    intro lang entry hentry
    obtain ⟨-, hsome⟩ := Statistics.mem_ofLanguage_iff.mp hentry
    exact aggregateText_of_ofSamples? (by decide) hcount hvalid hsome
  case trend =>
    rintro ⟨n, series, aggregate⟩ hpoint
    obtain ⟨hseries, hmem⟩ := Trend.mem_of_mem_plotted hpoint
    obtain ⟨hkey, hsome⟩ := Trend.ofSamples?_of_mem_points hseries hmem
    exact aggregateText_of_filter (by decide) hcount hvalid (Trend.keeps_congr minSize) hkey hsome
  case bars =>
    intro series hseries i param value hparam hvalue
    rw [Bars.values_eq hseries, List.getElem?_map, hparam, Option.map_some] at hvalue
    obtain ⟨aggregate, hget, rfl⟩ := Option.map_eq_some_iff.mp (Option.some.inj hvalue)
    obtain ⟨hkey, hsome⟩ := Statistics.get?_eq_some_iff.mp hget
    exact (aggregateText_of_filter (by decide) hcount hvalid (Bars.keeps_congr settings) hkey
      hsome).1

/-- Two groups of zeros, one of them with a minus sign. -/
theorem shown_numbers_of_zeros :
    Dataset.read .benchmarks
        (Text.Utf8.encode "lang,benchmark,time\na,zoo,-0.0\nb,zoo,0\na,zoo,-0.0\n") =
      .ok [⟨"a", .benchmark "zoo", .negativeZero⟩, ⟨"b", .benchmark "zoo", .zero⟩,
        ⟨"a", .benchmark "zoo", .negativeZero⟩] ∧
    NumbersShown [⟨"a", .benchmark "zoo", .negativeZero⟩, ⟨"b", .benchmark "zoo", .zero⟩,
      ⟨"a", .benchmark "zoo", .negativeZero⟩] .default none := by
  have hread : Dataset.read .benchmarks
      (Text.Utf8.encode "lang,benchmark,time\na,zoo,-0.0\nb,zoo,0\na,zoo,-0.0\n") =
        .ok [⟨"a", .benchmark "zoo", .negativeZero⟩, ⟨"b", .benchmark "zoo", .zero⟩,
          ⟨"a", .benchmark "zoo", .negativeZero⟩] := by
    decide +kernel
  exact ⟨hread, shown_numbers_of_read hread (by decide) .default none⟩

/-- A plain decimal starts with a digit. -/
theorem isDigit_of_isPlain {places : Nat} {text : String} (h : IsPlain places text) :
    ∃ c ∈ text.toList.head?, c.isDigit = true := by
  obtain ⟨whole, fraction, heq, hne, hwhole, -⟩ := h
  obtain ⟨c, rest, rfl⟩ := List.exists_cons_of_ne_nil hne
  refine ⟨c, ?_, hwhole c List.mem_cons_self⟩
  rw [heq]
  rfl

/-- Two times whose sum overflows, and a group of negative zero: not every number shown is plain. -/
theorem not_isPlain_of_read : ∃ trials,
    Dataset.read .sizes (Text.Utf8.encode "lang,n,time\na,1,1e308\na,1,1e308\nb,1,-0.0\n") =
      .ok trials ∧
    (Statistics.ofTrials trials).groups.map (fun group =>
        (group.2.mean.fixed 6, group.2.deviation.fixed 6)) =
      [("inf", "inf"), ("-0.000000", "0.000000")] ∧
    axisEnd (Trend.ofTrials .default trials none).scale = "inf" ∧
    ¬IsPlain 6 "inf" ∧ ¬IsPlain 6 "-0.000000" ∧ ¬IsPlain 3 "inf" := by
  refine ⟨[⟨"a", .size 1, .nearest false (Nat.pow 10 308 * Number.one) 1⟩,
    ⟨"a", .size 1, .nearest false (Nat.pow 10 308 * Number.one) 1⟩,
    ⟨"b", .size 1, .negativeZero⟩], ?_, ?_, ?_, ?_, ?_, ?_⟩
  · decide +kernel
  · decide +kernel
  · decide +kernel
  all_goals
    intro h
    obtain ⟨c, hc, hdigit⟩ := isDigit_of_isPlain h
    cases hc
    cases hdigit

end TimeTrials
