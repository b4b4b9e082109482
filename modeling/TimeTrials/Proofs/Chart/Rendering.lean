import TimeTrials.Proofs.Chart.Pictures
import TimeTrials.Proofs.Settings.Validation

/-!
# Laying out a chart can only fail on widths

`Trend.lines` and `Bars.lines` check the two widths that can be too large, and then build the lines.
Here the lines are built the way they are printed, one after the other, and every single step is checked
where it is taken: each text that is set in a column, each column of a value, each range and place on a
canvas, each look-up of a bar (`Trend.tryLines`, `Bars.tryLines`).

* `Trend.tryWhisker`: the whisker of an aggregate, from its columns to its row.
* `Trend.tryPointRow_eq_ok`, `Bars.tryCategoryBlock_eq_ok`: the steps to a row come to that of the picture.
* `Trend.exists_picture`, `Bars.exists_picture`: all the steps of a chart.
* `layout_fails_only_on_widths`: both charts, from usable settings.
-/

namespace TimeTrials.Chart

open Number (Binary64)
open Text (flushLeft flushRight repeated spaces)

/-! ## The trend chart -/

namespace Trend

/-- The row of a point, step by step. -/
def tryPointRow (layout : Layout) (series : Series) (n : UInt64) (aggregate : Aggregate) :
    Except Mishap Line := do
  let low ← tryCell ((aggregate.mean.sub aggregate.deviation).max .zero) layout.scale layout.width
  let mid ← tryCell aggregate.mean layout.scale layout.width
  let high ← tryCell (aggregate.mean.add aggregate.deviation) layout.scale layout.width
  let drawn ← tryDraw ⟨low, mid, high⟩ series.marker series.stem layout.width
  let lang ← inColumn layout.langWidth (flushLeft layout.langWidth series.lang)
  let label ← inColumn layout.labelWidth (flushRight layout.labelWidth (toString n.toNat))
  return [.plain (label ++ " "),
    .painted series.color (lang ++ " │" ++ drawn ++ " "
      ++ aggregate.mean.fixed 4 ++ " ± " ++ aggregate.deviation.fixed 4)]

/-- The whisker of an aggregate step by step, from its columns to its row. -/
def tryWhisker (series : Series) (aggregate : Aggregate) (scale : Binary64) (width : Nat) :
    Except Mishap String := do
  let low ← tryCell ((aggregate.mean.sub aggregate.deviation).max .zero) scale width
  let mid ← tryCell aggregate.mean scale width
  let high ← tryCell (aggregate.mean.add aggregate.deviation) scale width
  tryDraw ⟨low, mid, high⟩ series.marker series.stem width

/-- A row is a whisker between the names and the numbers. -/
theorem tryPointRow_eq (layout : Layout) (series : Series) (n : UInt64) (aggregate : Aggregate) :
    tryPointRow layout series n aggregate = (do
      let drawn ← tryWhisker series aggregate layout.scale layout.width
      let lang ← inColumn layout.langWidth (flushLeft layout.langWidth series.lang)
      let label ← inColumn layout.labelWidth (flushRight layout.labelWidth (toString n.toNat))
      return [.plain (label ++ " "),
        .painted series.color (lang ++ " │" ++ drawn ++ " "
          ++ aggregate.mean.fixed 4 ++ " ± " ++ aggregate.deviation.fixed 4)]) := by
  unfold tryPointRow tryWhisker
  simp only [bind_assoc]

/-- The lines of the chart, step by step. -/
def tryLines (chart : Trend) : Except Mishap (List Line) :=
  chart.layout.tryChart chart.title (flushRight chart.layout.labelWidth sizeLabel)
    (chart.plotted.mapM fun (n, series, aggregate) =>
      tryPointRow chart.layout series n aggregate)
    (chart.series.map legendLine)

section

variable {series : Series} {aggregate : Aggregate}
  (hmarker : Text.isBlank series.marker = false) (hdeviation : aggregate.deviation.IsUnsigned)

include hmarker hdeviation

theorem tryWhisker_eq_ok (scale : Binary64) {width : Nat} (h₀ : width ≠ 0)
    (hlast : width - 1 ≤ Nat.pow 2 53) : tryWhisker series aggregate scale width =
      .ok ((whiskerOf aggregate scale width).text series.marker series.stem) := by
  have hcell : ∀ value, tryCell value scale width = .ok (cell value scale width) :=
    fun value => tryCell_eq_ok value scale h₀ hlast
  unfold tryWhisker
  simp only [hcell, bind, Except.bind]
  exact tryDraw_eq_ok (whiskerOf_low_le_high hdeviation scale width) (cell_lt _ _ h₀)
    (cell_lt _ _ h₀) hmarker

theorem tryPointRow_eq_ok {layout : Layout} (hnames : layout.NamesFit) (h₀ : layout.width ≠ 0)
    (hwidth : layout.width ≤ Nat.pow 2 53) (n : UInt64) :
    tryPointRow layout series n aggregate = .ok (row layout (n, series, aggregate)) := by
  rw [tryPointRow_eq, tryWhisker_eq_ok hmarker hdeviation _ h₀ ((Nat.sub_le _ _).trans hwidth),
    inColumn_eq_ok hnames.1, inColumn_eq_ok hnames.2]
  rfl

end

section

variable {chart : Trend} (hsound : chart.IsSound) (h₀ : chart.width ≠ 0)
  (hwidth : chart.width ≤ Nat.pow 2 53)

include hsound h₀ hwidth

theorem tryRows_eq_ok (hnames : chart.layout.NamesFit) :
    chart.plotted.mapM (fun (n, series, aggregate) =>
      tryPointRow chart.layout series n aggregate) = .ok (chart.plotted.map (row chart.layout)) := by
  refine mapM_eq_ok_map ?_
  rintro ⟨n, series, aggregate⟩ hmem
  obtain ⟨hseries, hpoint⟩ := mem_of_mem_plotted hmem
  obtain ⟨hmarker, hpoints⟩ := hsound series hseries
  exact tryPointRow_eq_ok hmarker (hpoints _ hpoint) hnames h₀ hwidth n

/-- All the steps of a trend chart. -/
theorem exists_picture : ∃ picture, (chart.layout.Fits → chart.lines = .ok picture) ∧
    Yields chart.tryLines picture chart.layout.Fits :=
  ⟨chart.picture, fun hfits => (lines_eq_ok_iff hsound).mpr ⟨hfits, .inl h₀, rfl⟩,
    Layout.yields_tryChart _ fun hnames => tryRows_eq_ok hsound h₀ hwidth hnames⟩

end

end Trend

/-! ## The bar chart -/

/-- The entry of a list at an index. -/
def entryAt {α : Type} (entries : List α) (index : Nat) : Except Mishap α :=
  match entries[index]? with
  | some entry => .ok entry
  | none => .error (.badIndex index entries.length)

namespace Bars

/-- The bar of a value, step by step. -/
def tryBar (layout : Layout) : Option Binary64 → Except Mishap String
  | some value => do
    let blocks ← tryCell value layout.scale (layout.width + 1)
    return repeated (if Binary64.zero.lt value then Nat.max blocks 1 else blocks) block ++ " "
      ++ value.fixed 4
  | none => return "-"

/-- The row of one bar, step by step. -/
def tryBarRow (layout : Layout) (label : String) (category : Nat) (series : BarSeries) :
    Except Mishap Line := do
  let value ← entryAt series.values category
  let drawn ← tryBar layout value
  let lang ← inColumn layout.langWidth (flushLeft layout.langWidth series.lang)
  let label ← inColumn layout.labelWidth (flushLeft layout.labelWidth label)
  return [.plain (label ++ " "), .painted series.color (lang ++ " │" ++ drawn)]

/-- The rows of a category, and the blank one if another category follows, step by step. -/
def tryCategoryBlock (chart : Bars) (layout : Layout) (category : Nat) (name : String) :
    Except Mishap (List Line) := do
  let rows ← (chart.series.mapIdx fun i series => (if i = 0 then name else "", series)).mapM
    fun (label, series) => tryBarRow layout label category series
  if category + 1 < chart.categories.length then
    let label ← inColumn layout.labelWidth (spaces layout.labelWidth)
    let lang ← inColumn layout.langWidth (spaces layout.langWidth)
    return rows ++ [[.plain (label ++ " " ++ lang ++ " │")]]
  else
    return rows

/-- The lines of the chart, step by step. -/
def tryLines (chart : Bars) : Except Mishap (List Line) :=
  chart.layout.tryChart chart.title (flushLeft chart.layout.labelWidth categoryLabel)
    (((chart.names.mapIdx fun i name => (i, name)).mapM fun (i, name) =>
      chart.tryCategoryBlock chart.layout i name).map List.flatten)
    (chart.series.map legendLine)

section

variable {layout : Layout} {chart : Bars}

theorem tryBar_eq_ok (hwidth : layout.width ≤ Nat.pow 2 53) (value : Option Binary64) :
    tryBar layout value = .ok (bar layout value) := by
  cases value with
  | none => rfl
  | some value =>
    have hcell := tryCell_eq_ok value layout.scale (Nat.succ_ne_zero layout.width) hwidth
    rw [tryBar, hcell]
    rfl

theorem tryBarRow_eq_ok (hnames : layout.NamesFit) (hwidth : layout.width ≤ Nat.pow 2 53)
    (label : String) {category : Nat} {series : BarSeries}
    (hcategory : category < series.values.length) :
    tryBarRow layout label category series = .ok (row layout label category series) := by
  have hvalue : entryAt series.values category = .ok (series.values.getD category none) := by
    rw [entryAt, List.getElem?_eq_getElem hcategory, ← List.getElem_eq_getD none]
  simp only [tryBarRow, hvalue, bind, Except.bind, tryBar_eq_ok hwidth, inColumn_eq_ok hnames.1,
    inColumn_eq_ok hnames.2]
  rfl

section

variable (hsound : chart.IsSound) (hwidth : chart.width ≤ Nat.pow 2 53)

include hsound hwidth

theorem tryCategoryBlock_eq_ok (hnames : chart.layout.NamesFit) {category : Nat}
    (hcategory : category < chart.categories.length) (name : String) :
    chart.tryCategoryBlock chart.layout category name = .ok (chart.blockOf category name) := by
  have hrows : (chart.series.mapIdx fun i series => (if i = 0 then name else "", series)).mapM
      (fun entry => tryBarRow chart.layout entry.1 category entry.2) =
        .ok (chart.rowsOf category name) := by
    rw [← map_row_eq]
    refine mapM_eq_ok_map fun entry hentry => ?_
    obtain ⟨i, hi, rfl⟩ := List.mem_mapIdx.mp hentry
    refine tryBarRow_eq_ok hnames hwidth _ ?_
    rwa [hsound _ (List.getElem_mem hi)]
  unfold tryCategoryBlock Bars.blockOf
  simp only [hrows, bind, Except.bind, inColumn_eq_ok hnames.1, inColumn_eq_ok hnames.2]
  split_ifs <;> rfl

theorem tryBlocks_eq_ok (hnames : chart.layout.NamesFit) :
    (chart.names.mapIdx fun i name => (i, name)).mapM
      (fun (i, name) => chart.tryCategoryBlock chart.layout i name) =
        .ok ((chart.names.mapIdx fun i name => (i, name)).map fun entry =>
          chart.blockOf entry.1 entry.2) := by
  refine mapM_eq_ok_map fun entry hentry => ?_
  obtain ⟨i, hi, rfl⟩ := List.mem_mapIdx.mp hentry
  rw [length_names] at hi
  exact tryCategoryBlock_eq_ok hsound hwidth hnames hi _

/-- All the steps of a bar chart. -/
theorem exists_picture : ∃ picture, (chart.layout.Fits → chart.lines = .ok picture) ∧
    Yields chart.tryLines picture chart.layout.Fits := by
  refine ⟨chart.picture, fun hfits => (lines_eq_ok_iff hsound).mpr ⟨hfits, rfl⟩,
    Layout.yields_tryChart _ fun hnames => ?_⟩
  rw [tryBlocks_eq_ok hsound hwidth hnames, ← flatten_map_blockOf]
  rfl

end

end

end Bars

/-! ## From usable settings -/

/-- **With usable settings, charts of any trials are laid out unless a column of text is too wide.** -/
theorem layout_fails_only_on_widths {settings : Settings} (hvalid : settings.validate = .ok ())
    (hwidth : settings.chart.width ≤ Nat.pow 2 53) (trials : List Trial) (minSize : Option UInt64) :
    FailsOnlyOnWidths (Trend.ofTrials settings trials minSize).layout
        (Trend.ofTrials settings trials minSize).tryLines
        (Trend.ofTrials settings trials minSize).render ∧
      FailsOnlyOnWidths (Bars.ofTrials settings trials).layout
        (Bars.ofTrials settings trials).tryLines
        (Bars.ofTrials settings trials).render := by
  have h₀ : settings.chart.width ≠ 0 := (Settings.validate_eq_ok_iff.mp hvalid).width_ne_zero
  constructor
  · obtain ⟨picture, hlines, hyields⟩ :=
      Trend.exists_picture (Trend.isSound_ofTrials settings trials minSize) h₀ hwidth
    exact failsOnlyOnWidths hlines Trend.lines_of_not_fits hyields
  · obtain ⟨picture, hlines, hyields⟩ :=
      Bars.exists_picture (Bars.isSound_ofTrials settings trials) hwidth
    exact failsOnlyOnWidths hlines Bars.lines_of_not_fits hyields

/-- Two languages whose times are no measurements at all, on a plot that is too wide for its axis: neither
chart is shown, and it is for a column of text. -/
theorem layout_fails_only_on_widths_odd_times :
    let settings := { Settings.default with chart.width := 70000 }
    let trials : List Trial := [⟨"jlox", .size 1, .nan⟩, ⟨"jlox", .size 1, .infinite true⟩,
      ⟨"rubylox", .benchmark "zoo", .infinite false⟩, ⟨"rubylox", .size 2, .negativeZero⟩]
    let trend := Trend.ofTrials settings trials (some 1)
    let bars := Bars.ofTrials settings trials
    settings.validate = .ok () ∧ settings.chart.width ≤ Nat.pow 2 53 ∧
      FailsOnlyOnWidths trend.layout trend.tryLines trend.render ∧
      FailsOnlyOnWidths bars.layout bars.tryLines bars.render ∧
      (∃ width, widthLimit < width ∧ trend.tryLines = .error (.wideColumn width)) ∧
      (∃ width, widthLimit < width ∧ bars.tryLines = .error (.wideColumn width)) ∧
      ∀ colored, trend.render colored = .error .tooWide ∧ bars.render colored = .error .tooWide := by
  intro settings trials trend bars
  have hvalid : settings.validate = .ok () := rfl
  have hwidth : settings.chart.width ≤ Nat.pow 2 53 := by decide
  obtain ⟨htrend, hbars⟩ := layout_fails_only_on_widths hvalid hwidth trials (some 1)
  have htrendWide :
      widthLimit < trend.layout.width - (1 + (axisEnd trend.layout.scale).utf8ByteSize) := by
    decide +kernel
  have hbarsWide :
      widthLimit < bars.layout.width - (1 + (axisEnd bars.layout.scale).utf8ByteSize) := by
    decide +kernel
  obtain ⟨htrendColumn, htrendShown⟩ := htrend.not_shown htrendWide
  obtain ⟨hbarsColumn, hbarsShown⟩ := hbars.not_shown hbarsWide
  exact ⟨hvalid, hwidth, htrend, hbars, htrendColumn, hbarsColumn,
    fun colored => ⟨htrendShown colored, hbarsShown colored⟩⟩

end TimeTrials.Chart
