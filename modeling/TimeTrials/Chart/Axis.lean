import TimeTrials.Chart.Line
import TimeTrials.Number.Style
import TimeTrials.Text.Column

/-!
# The value axis

Times are laid out horizontally on a plot that starts at zero and ends at the largest value plotted.
`cell` is the column of a value: its share of the scale, times the last column, rounded.

Text is set in columns whose widths are only known when a chart is laid out, and no such column may be
wider than `widthLimit`.  Two of them can be: the one before the plot, which holds the labels, and the
one under it, which holds the name of the axis.
-/

namespace TimeTrials.Chart

open Number (Binary64)
open Text (spaces centred repeated)

/-- The widest column that text can be set in. -/
def widthLimit : Nat := 65535

/-- Why a chart cannot be laid out. -/
inductive Fault where
  /-- A column would be wider than the limit. -/
  | tooWide
  /-- A mark would lie outside the plot. -/
  | outsidePlot
  deriving DecidableEq, Repr

/-- The end of the axis: the largest of the values, and at least zero. -/
def scaleOf (values : List Binary64) : Binary64 := values.foldl Binary64.max .zero

/-- The column of a value on an axis of `width` columns that ends at `scale`. -/
def cell (value scale : Binary64) (width : Nat) : Nat :=
  if scale.le .zero then 0
  else ((value.div scale).mul (.ofNat (width - 1))).roundTo (width - 1)

/-- The name of the axis. -/
def axisLabel : String := "Time (s)"

/-- How the end of the axis is written. -/
def axisEnd (scale : Binary64) : String := scale.fixed 3

/-- The width of the column between the zero and the end of the axis. -/
def axisMiddle (width : Nat) (scale : Binary64) : Nat :=
  width - (1 + (axisEnd scale).utf8ByteSize)

/-- The width of a column of names: that of the longest one in bytes. -/
def nameWidth (names : List String) : Nat := (names.map String.utf8ByteSize).foldl Nat.max 0

/-- The measures of a chart: two columns of labels before the plot, and the plot with its scale. -/
structure Layout where
  labelWidth : Nat
  langWidth : Nat
  width : Nat
  scale : Binary64

namespace Layout

/-- The columns before the plot: the labels, the blank between them, and the one before the bar. -/
def indent (layout : Layout) : Nat := layout.labelWidth + layout.langWidth + 2

/-- Checks that no column is wider than the limit. -/
def check (layout : Layout) : Except Fault Unit :=
  if widthLimit < layout.indent ∨ widthLimit < axisMiddle layout.width layout.scale then
    .error .tooWide
  else .ok ()

/-- The line under the plot, and the line that names the axis and its ends. -/
def axisLines (layout : Layout) : List Line :=
  [[.plain (spaces layout.indent ++ "└" ++ repeated layout.width '─')],
    [.plain (spaces layout.indent ++ " 0"
      ++ centred (axisMiddle layout.width layout.scale) axisLabel ++ axisEnd layout.scale)]]

end Layout

end TimeTrials.Chart
