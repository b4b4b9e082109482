import TimeTrials.Chart.Axis
import TimeTrials.Settings.Basic
import TimeTrials.Statistics

/-!
# The bar chart

The mean time of each benchmark, one group of bars for every benchmark and one bar in it for every
language.  Benchmarks and languages keep the order in which the trials bring them up.  Excluded
benchmarks do not take part at all.
-/

namespace TimeTrials.Chart

open Number (Binary64)
open Text (flushLeft spaces repeated)

/-- The character that bars are made of. -/
def block : Char := '█'

/-- The bars of one language. -/
structure BarSeries where
  lang : String
  color : Color
  /-- The mean for every category; none where the language has no trial. -/
  values : List (Option Binary64)

/-- One group of bars for every benchmark. -/
structure Bars where
  title : String
  width : Nat
  categories : List Param
  series : List BarSeries

namespace Bars

/-- Whether a trial takes part in the chart. -/
def keeps (settings : Settings) (trial : Trial) : Bool :=
  match trial.param with
  | .benchmark name => !settings.excluded.contains name
  | .size _ => true

/-- The series of a language at its index. -/
def seriesOf (settings : Settings) (stats : Statistics) (categories : List Param) (lang : String)
    (index : Nat) : BarSeries where
  lang := lang
  color := settings.colorOf lang index
  values := categories.map fun param => (stats.get? lang param).map (·.mean)

/-- The chart of trials, without the excluded benchmarks. -/
def ofTrials (settings : Settings) (trials : List Trial) : Bars :=
  let kept := trials.filter (keeps settings)
  let stats := Statistics.ofTrials kept
  let categories := (kept.map (·.param)).eraseDups
  let languages := (kept.map (·.lang)).eraseDups
  { title := settings.chart.barsTitle
    width := settings.chart.width
    categories := categories
    series := languages.mapIdx fun i lang => seriesOf settings stats categories lang i }

/-- The end of the value axis: the largest mean. -/
def scale (chart : Bars) : Binary64 :=
  scaleOf (chart.series.flatMap fun series => series.values.filterMap id)

/-- How many blocks a bar has.  A positive value has at least one. -/
def length (value scale : Binary64) (width : Nat) : Nat :=
  let blocks := cell value scale (width + 1)
  if Binary64.zero.lt value then Nat.max blocks 1 else blocks

/-! ## Layout -/

/-- The name of the column of categories. -/
def categoryLabel : String := "benchmark"

/-- The names of the categories. -/
def names (chart : Bars) : List String := chart.categories.map (·.text)

/-- The measures of the chart. -/
def layout (chart : Bars) : Layout where
  labelWidth := nameWidth (chart.names ++ [categoryLabel])
  langWidth := nameWidth (chart.series.map (·.lang))
  width := chart.width
  scale := chart.scale

/-- The bar of a value with the value after it, or a dash where there is none. -/
def bar (layout : Layout) : Option Binary64 → String
  | some value =>
    repeated (length value layout.scale layout.width) block ++ " " ++ value.fixed 4
  | none => "-"

/-- The row of one bar under the given label. -/
def barRow (layout : Layout) (label : String) (category : Nat) (series : BarSeries) :
    Except Fault Line := do
  match series.values[category]? with
  | none => throw .outsidePlot
  | some value =>
    return [.plain (flushLeft layout.labelWidth label ++ " "),
      .painted series.color (flushLeft layout.langWidth series.lang ++ " │" ++ bar layout value)]

/-- The rows of a category.  Only the first one names it. -/
def categoryRows (chart : Bars) (layout : Layout) (category : Nat) (name : String) :
    Except Fault (List Line) :=
  (chart.series.mapIdx fun i series => (if i = 0 then name else "", series)).mapM
    fun (label, series) => barRow layout label category series

/-- The row between two categories. -/
def blankRow (layout : Layout) : Line :=
  [.plain (spaces layout.labelWidth ++ " " ++ spaces layout.langWidth ++ " │")]

/-- The rows of a category, and the blank one if another category follows. -/
def categoryBlock (chart : Bars) (layout : Layout) (category : Nat) (name : String) :
    Except Fault (List Line) := do
  let rows ← chart.categoryRows layout category name
  return if category + 1 < chart.categories.length then rows ++ [blankRow layout] else rows

/-- The key to a language's bars. -/
def legendLine (series : BarSeries) : Line :=
  [.plain "  ", .painted series.color (repeated 2 block ++ " " ++ series.lang)]

/-- The lines of the chart. -/
def lines (chart : Bars) : Except Fault (List Line) := do
  let layout := chart.layout
  layout.check
  let blocks ← (chart.names.mapIdx fun i name => (i, name)).mapM
    fun (i, name) => chart.categoryBlock layout i name
  let head : List Line := [[.plain chart.title], [],
    [.plain (flushLeft layout.labelWidth categoryLabel ++ " " ++ spaces layout.langWidth ++ " │")]]
  return head ++ blocks.flatten ++ layout.axisLines ++ [[]] ++ chart.series.map legendLine

/-- The chart as text, with colours or without. -/
def render (colored : Bool) (chart : Bars) : Except Fault String :=
  chart.lines.map (renderLines colored)

end Bars
end TimeTrials.Chart
