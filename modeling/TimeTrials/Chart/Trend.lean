import TimeTrials.Chart.Axis
import TimeTrials.Settings.Basic
import TimeTrials.Statistics

/-!
# The trend chart

Mean time against input size, one row for every group.  Rows are ordered by size and then by language.
A row shows the mean as the language's marker on a whisker that reaches one standard deviation to
either side, with a stem from zero up to it.
-/

namespace TimeTrials.Chart

open Number (Binary64)
open Text (flushLeft flushRight spaces)

/-- The markers that are handed out to languages. -/
def markers : List Char := ['●', '■', '▲', '◆']

/-- The stems that are handed out to languages. -/
def stems : List Char := ['━', '╍', '┅', '┉']

/-- The entry for an index; a list starts over at its end. -/
def pick (marks : List Char) (index : Nat) : Char := marks.getD (index % marks.length) ' '

/-- The points of one language. -/
structure Series where
  lang : String
  color : Color
  marker : Char
  stem : Char
  /-- The aggregates by size, ascending. -/
  points : List (UInt64 × Aggregate)

/-- Mean time against input size. -/
structure Trend where
  title : String
  width : Nat
  series : List Series

namespace Trend

/-- Whether a trial is left in when sizes below the least one are left out. -/
def keeps (minSize : Option UInt64) (trial : Trial) : Bool :=
  match trial.param, minSize with
  | .size n, some least => least ≤ n
  | _, _ => true

/-- The points among a language's aggregates. -/
def pointsOf (aggregates : List (Param × Aggregate)) : List (UInt64 × Aggregate) :=
  aggregates.filterMap fun (param, aggregate) =>
    match param with
    | .size n => some (n, aggregate)
    | .benchmark _ => none

/-- The series of a language at its index. -/
def seriesOf (settings : Settings) (stats : Statistics) (lang : String) (index : Nat) : Series where
  lang := lang
  color := settings.colorOf lang index
  marker := pick markers index
  stem := pick stems index
  points := pointsOf (stats.ofLanguage lang)

/-- The chart of trials, without sizes below the least one. -/
def ofTrials (settings : Settings) (trials : List Trial) (minSize : Option UInt64) : Trend :=
  let stats := Statistics.ofTrials (trials.filter (keeps minSize))
  { title := settings.chart.trendTitle
    width := settings.chart.width
    series := stats.languages.mapIdx fun i lang => seriesOf settings stats lang i }

/-- All points of the chart. -/
def points (chart : Trend) : List (UInt64 × Aggregate) := chart.series.flatMap (·.points)

/-- The end of the value axis: the far end of the longest whisker. -/
def scale (chart : Trend) : Binary64 :=
  scaleOf (chart.points.map fun (_, aggregate) => aggregate.mean.add aggregate.deviation)

/-- Puts a size in its place in an ascending list, unless it is there. -/
def insertSize (n : UInt64) : List UInt64 → List UInt64
  | [] => [n]
  | m :: rest => if n < m then n :: m :: rest else if n = m then m :: rest else m :: insertSize n rest

/-- The sizes that occur, ascending. -/
def sizes (chart : Trend) : List UInt64 :=
  (chart.points.map (·.1)).foldl (fun sizes n => insertSize n sizes) []

/-! ## Whiskers -/

/-- The columns of a whisker: its near end, the mean, and its far end. -/
structure Whisker where
  low : Nat
  mid : Nat
  high : Nat
  deriving DecidableEq, Repr

/-- The whisker of an aggregate.  It does not reach below zero. -/
def whiskerOf (aggregate : Aggregate) (scale : Binary64) (width : Nat) : Whisker where
  low := cell ((aggregate.mean.sub aggregate.deviation).max .zero) scale width
  mid := cell aggregate.mean scale width
  high := cell (aggregate.mean.add aggregate.deviation) scale width

/-- The character in a column of a whisker's row. -/
def Whisker.char (w : Whisker) (marker stem : Char) (column : Nat) : Char :=
  if column = w.mid then marker
  else if column = w.high then '┤'
  else if column = w.low then '├'
  else if column < w.low then stem
  else if column < w.high then '─'
  else ' '

/-- The row of a whisker up to its last mark, all of which have to lie in the plot. -/
def Whisker.draw (w : Whisker) (marker stem : Char) (width : Nat) : Except Fault String :=
  if w.low ≤ w.high ∧ w.high < width ∧ w.mid < width then
    .ok (String.ofList ((List.range (Nat.max w.mid w.high + 1)).map (w.char marker stem)))
  else .error .outsidePlot

/-! ## Layout -/

/-- The name of the column of sizes. -/
def sizeLabel : String := "n"

/-- The measures of the chart. -/
def layout (chart : Trend) : Layout where
  labelWidth := nameWidth (chart.sizes.map (toString ·.toNat) ++ [sizeLabel])
  langWidth := nameWidth (chart.series.map (·.lang))
  width := chart.width
  scale := chart.scale

/-- The row of one point. -/
def pointRow (layout : Layout) (series : Series) (n : UInt64) (aggregate : Aggregate) :
    Except Fault Line := do
  let whisker := whiskerOf aggregate layout.scale layout.width
  let drawn ← whisker.draw series.marker series.stem layout.width
  return [.plain (flushRight layout.labelWidth (toString n.toNat) ++ " "),
    .painted series.color (flushLeft layout.langWidth series.lang ++ " │" ++ drawn ++ " "
      ++ aggregate.mean.fixed 4 ++ " ± " ++ aggregate.deviation.fixed 4)]

/-- What is plotted at a size: one point for every language that has it. -/
def pointsAt (chart : Trend) (n : UInt64) : List (Series × Aggregate) :=
  chart.series.filterMap fun series => (series.points.lookup n).map (series, ·)

/-- The points in the order of their rows. -/
def plotted (chart : Trend) : List (UInt64 × Series × Aggregate) :=
  chart.sizes.flatMap fun n => (chart.pointsAt n).map (n, ·)

/-- The key to a language's marks. -/
def legendLine (series : Series) : Line :=
  let stem := String.singleton series.stem
  [.plain "  ",
    .painted series.color (stem ++ String.singleton series.marker ++ stem ++ " " ++ series.lang)]

/-- The lines of the chart. -/
def lines (chart : Trend) : Except Fault (List Line) := do
  let layout := chart.layout
  layout.check
  let rows ← chart.plotted.mapM fun (n, series, aggregate) => pointRow layout series n aggregate
  let head : List Line := [[.plain chart.title], [],
    [.plain (flushRight layout.labelWidth sizeLabel ++ " " ++ spaces layout.langWidth ++ " │")]]
  return head ++ rows ++ layout.axisLines ++ [[]] ++ chart.series.map legendLine

/-- The chart as text, with colours or without. -/
def render (colored : Bool) (chart : Trend) : Except Fault String :=
  chart.lines.map (renderLines colored)

end Trend
end TimeTrials.Chart
