import TimeTrials.Chart.Bars
import TimeTrials.Proofs.Chart.Canvas
import TimeTrials.Proofs.Chart.Steps
import TimeTrials.Proofs.Results
import TimeTrials.Proofs.Statistics

/-!
# The pictures of charts

`Trend.lines` and `Bars.lines` check the two widths that can be too large and then build one row after the
other, and any row can turn out to be impossible.  The picture of a chart is its lines without the checks:
every row with the whole of what is drawn in it.

A chart that is laid out has the lines of its picture, whatever the chart is like.  That it is laid out when
its columns fit takes a chart that is sound, which is what the rows rely on, and charts made from trials are,
whatever the times are.

* `flatten_mapIdx_eq_intercalate`: what is put after all parts but the last is put between them.
* `Trend.IsSound`, `Bars.IsSound`; `Trend.isSound_ofTrials`, `Bars.isSound_ofTrials`.
* `Trend.eq_picture_of_lines`, `Bars.eq_picture_of_lines`: which lines a chart has, if it has any.
* `Trend.lines_eq_ok_iff`, `Bars.lines_eq_ok_iff`: and when it has them.
* `Trend.render_eq_ok_iff`, `Bars.render_eq_ok_iff`: the same for the text that is shown.
-/

namespace TimeTrials.Chart

open Number (Binary64)
open Text (flushLeft flushRight)

/-! ## Lists -/

/-- What is made of entries and their places can be made of what has been made of them. -/
theorem map_mapIdx {α β γ : Type} (f : Nat → α → β) (g : β → γ) (entries : List α) :
    (entries.mapIdx f).map g = entries.mapIdx fun i a => g (f i a) := by
  refine List.ext_getElem? fun i => ?_
  rw [List.getElem?_map, List.getElem?_mapIdx, List.getElem?_mapIdx, Option.map_map]
  rfl

/-- It gives the entries back, if each does. -/
theorem map_mapIdx_eq_self {α β : Type} {f : Nat → α → β} {g : β → α} (h : ∀ i a, g (f i a) = a)
    (entries : List α) : (entries.mapIdx f).map g = entries := by
  rw [map_mapIdx]
  refine List.ext_getElem? fun i => ?_
  rw [List.getElem?_mapIdx]
  simp only [h, Option.map_id_fun', id_eq]

/-- What is put after every part but the last one is put between the parts. -/
theorem flatten_mapIdx_eq_intercalate {α : Type} (separator : List α) (parts : List (List α)) :
    (parts.mapIdx fun i part => if i + 1 < parts.length then part ++ separator else part).flatten =
      separator.intercalate parts := by
  induction parts with
  | nil => rfl
  | cons part rest ih =>
    cases rest with
    | nil => simp
    | cons next rest =>
      have hshift : ∀ i, (i + 1 + 1 < (part :: next :: rest).length) = (i + 1 < (next :: rest).length) :=
        fun i => by rw [List.length_cons, Nat.add_lt_add_iff_right]
      rw [List.mapIdx_cons, List.flatten_cons, List.intercalate_cons_cons]
      simp only [hshift]
      rw [ih, if_pos (by simp)]

/-! ## The trend chart -/

namespace Trend

/-- What the steps of a trend chart rely on: markers can be seen, and deviations have no minus sign. -/
def IsSound (chart : Trend) : Prop :=
  ∀ series ∈ chart.series, Text.isBlank series.marker = false ∧
    ∀ point ∈ series.points, point.2.deviation.IsUnsigned

/-- The row of a point. -/
def row (layout : Layout) (point : UInt64 × Series × Aggregate) : Line :=
  [.plain (flushRight layout.labelWidth (toString point.1.toNat) ++ " "),
    .painted point.2.1.color (flushLeft layout.langWidth point.2.1.lang ++ " │"
      ++ (whiskerOf point.2.2 layout.scale layout.width).text point.2.1.marker point.2.1.stem ++ " "
      ++ point.2.2.mean.fixed 4 ++ " ± " ++ point.2.2.deviation.fixed 4)]

/-- The lines over the rows. -/
def headLines (chart : Trend) : List Line :=
  [[.plain chart.title], [], chart.layout.header (flushRight chart.layout.labelWidth sizeLabel)]

/-- The lines with a row for each point. -/
def picture (chart : Trend) : List Line :=
  chart.headLines ++ chart.plotted.map (row chart.layout) ++ chart.layout.axisLines ++ [[]] ++
    chart.series.map legendLine

/-! ### Lines -/

variable {chart : Trend}

/-- Where the plot has columns, the whisker of an aggregate is drawn. -/
theorem draw_whiskerOf {aggregate : Aggregate} (scale : Binary64) {width : Nat} (h₀ : width ≠ 0)
    (hdeviation : aggregate.deviation.IsUnsigned) (marker stem : Char) :
    (whiskerOf aggregate scale width).draw marker stem width =
      .ok ((whiskerOf aggregate scale width).text marker stem) :=
  draw_eq_ok (whiskerOf_low_le_high hdeviation scale width) (cell_lt _ _ h₀) (cell_lt _ _ h₀)

theorem pointRow_eq {layout : Layout} {series : Series} {aggregate : Aggregate} (n : UInt64)
    (hdeviation : aggregate.deviation.IsUnsigned) :
    pointRow layout series n aggregate =
      if layout.width = 0 then .error .outsidePlot else .ok (row layout (n, series, aggregate)) := by
  split_ifs with h₀
  · have hout : ¬ ((whiskerOf aggregate layout.scale layout.width).low ≤
        (whiskerOf aggregate layout.scale layout.width).high ∧
        (whiskerOf aggregate layout.scale layout.width).high < layout.width ∧
        (whiskerOf aggregate layout.scale layout.width).mid < layout.width) := by
      omega
    rw [pointRow, Whisker.draw, if_neg hout]
    rfl
  · rw [pointRow, draw_whiskerOf layout.scale h₀ hdeviation]
    rfl

/-- A row that is drawn at all is this one. -/
theorem eq_row_of_pointRow {layout : Layout} {series : Series} {n : UInt64} {aggregate : Aggregate}
    {line : Line} (h : pointRow layout series n aggregate = .ok line) :
    line = row layout (n, series, aggregate) := by
  rw [pointRow, bind_eq_ok_iff] at h
  obtain ⟨drawn, hdrawn, h⟩ := h
  rw [Whisker.draw] at hdrawn
  split_ifs at hdrawn
  obtain rfl := Except.ok.inj hdrawn
  exact (Except.ok.inj h).symm

/-- The lines of a chart that is laid out are those of its picture. -/
theorem eq_picture_of_lines {lines : List Line} (h : chart.lines = .ok lines) :
    lines = chart.picture := by
  rw [Trend.lines] at h
  obtain ⟨-, -, h⟩ := bind_eq_ok_iff.mp h
  obtain ⟨rows, hrows, h⟩ := bind_eq_ok_iff.mp h
  have hrow : rows = chart.plotted.map (row chart.layout) :=
    eq_map_of_mapM_eq_ok (fun _ _ hline => eq_row_of_pointRow hline) hrows
  rw [picture, ← hrow]
  exact (Except.ok.inj h).symm

theorem lines_of_not_fits (h : ¬chart.layout.Fits) :
    chart.lines = .error .tooWide := by
  rw [Trend.lines, Layout.check_of_not_fits h]
  rfl

/-- The points of the rows are points of the series. -/
theorem mem_of_mem_plotted {n : UInt64} {series : Series} {aggregate : Aggregate}
    (h : (n, series, aggregate) ∈ chart.plotted) :
    series ∈ chart.series ∧ (n, aggregate) ∈ series.points := by
  obtain ⟨m, -, hm⟩ := List.mem_flatMap.mp h
  obtain ⟨⟨series', aggregate'⟩, hpoint, heq⟩ := List.mem_map.mp hm
  obtain ⟨series'', hseries, hlookup⟩ := List.mem_filterMap.mp hpoint
  obtain ⟨aggregate'', hsome, hpair⟩ := Option.map_eq_some_iff.mp hlookup
  cases heq
  cases hpair
  obtain ⟨before, after, heq, -⟩ := List.lookup_eq_some_iff.mp hsome
  refine ⟨hseries, ?_⟩
  rw [heq]
  exact List.mem_append_right _ List.mem_cons_self

section

variable (hsound : chart.IsSound)

include hsound

theorem pointRow_of_mem {n : UInt64} {series : Series} {aggregate : Aggregate}
    (hmem : (n, series, aggregate) ∈ chart.plotted) :
    pointRow chart.layout series n aggregate =
      if chart.width = 0 then .error .outsidePlot
      else .ok (row chart.layout (n, series, aggregate)) := by
  obtain ⟨hseries, hpoint⟩ := mem_of_mem_plotted hmem
  exact pointRow_eq n ((hsound series hseries).2 _ hpoint)

/-- There is a row for each point, unless there are points and no column to draw them in. -/
theorem rows_eq_ok_iff {rows : List Line} :
    chart.plotted.mapM (fun (n, series, aggregate) =>
      pointRow chart.layout series n aggregate) = .ok rows ↔
      (chart.width ≠ 0 ∨ chart.plotted = []) ∧ rows = chart.plotted.map (row chart.layout) := by
  have hrow : ∀ point ∈ chart.plotted, pointRow chart.layout point.2.1 point.1 point.2.2 =
      if chart.width = 0 then .error .outsidePlot else .ok (row chart.layout point) :=
    fun _ hmem => pointRow_of_mem hsound hmem
  by_cases h₀ : chart.width = 0
  · simp only [if_pos h₀] at hrow
    rw [mapM_eq_ok_iff]
    cases hplotted : chart.plotted with
    | nil => simp
    | cons point points =>
      refine iff_of_false (fun h => ?_) (by simp [h₀])
      obtain ⟨line, rest, hline, -, -⟩ := List.forall₂_cons_left_iff.mp h
      rw [hplotted] at hrow
      cases hline.symm.trans (hrow point List.mem_cons_self)
  · simp only [if_neg h₀] at hrow
    have hall : chart.plotted.mapM (fun (n, series, aggregate) =>
        pointRow chart.layout series n aggregate) = .ok (chart.plotted.map (row chart.layout)) :=
      mapM_eq_ok_map hrow
    rw [hall, Except.ok.injEq, and_iff_right (.inl h₀), eq_comm]

/-- **The lines of a chart**, and when there are any. -/
theorem lines_eq_ok_iff {lines : List Line} :
    chart.lines = .ok lines ↔
      chart.layout.Fits ∧ (chart.width ≠ 0 ∨ chart.plotted = []) ∧ lines = chart.picture := by
  by_cases hfits : chart.layout.Fits
  · rw [Trend.lines, Layout.check_of_fits hfits, and_iff_right hfits]
    show (chart.plotted.mapM (fun (n, series, aggregate) =>
      pointRow chart.layout series n aggregate) >>= fun rows => Except.ok (chart.headLines ++ rows ++
        chart.layout.axisLines ++ [[]] ++ chart.series.map legendLine)) = .ok lines ↔ _
    simp only [bind_eq_ok_iff, rows_eq_ok_iff hsound]
    constructor
    · rintro ⟨_, ⟨hwidth, rfl⟩, hlines⟩
      exact ⟨hwidth, (Except.ok.inj hlines).symm⟩
    · rintro ⟨hwidth, rfl⟩
      exact ⟨_, ⟨hwidth, rfl⟩, rfl⟩
  · rw [lines_of_not_fits hfits]
    exact iff_of_false (by simp) fun h => hfits h.1

theorem render_eq_ok_iff {colored : Bool} {text : String} :
    chart.render colored = .ok text ↔ chart.layout.Fits ∧ (chart.width ≠ 0 ∨ chart.plotted = []) ∧
      text = renderLines colored chart.picture := by
  simp only [render, map_eq_ok_iff, lines_eq_ok_iff hsound]
  constructor
  · rintro ⟨lines, ⟨hfits, hwidth, rfl⟩, htext⟩
    exact ⟨hfits, hwidth, htext⟩
  · rintro ⟨hfits, hwidth, htext⟩
    exact ⟨_, ⟨hfits, hwidth, rfl⟩, htext⟩

end

/-! ### Charts of trials -/

/-- What is handed out for an index is one of the marks. -/
theorem pick_mem {marks : List Char} (h : marks ≠ []) (index : Nat) : pick marks index ∈ marks := by
  have hlt : index % marks.length < marks.length := Nat.mod_lt _ (List.length_pos_iff.mpr h)
  rw [pick, List.getD_eq_getElem?_getD, List.getElem?_eq_getElem hlt]
  exact List.getElem_mem hlt

theorem isBlank_pick_markers (index : Nat) : Text.isBlank (pick markers index) = false := by
  have hall : markers.all (fun c => !Text.isBlank c) = true := by decide
  exact (Bool.not_eq_true' _).mp (List.all_eq_true.mp hall _ (pick_mem (by decide) index))

/-- The points of a language are its aggregates. -/
theorem mem_ofLanguage_of_mem_pointsOf {aggregates : List (Param × Aggregate)}
    {point : UInt64 × Aggregate} (h : point ∈ pointsOf aggregates) :
    (.size point.1, point.2) ∈ aggregates := by
  obtain ⟨⟨param, aggregate⟩, hmem, heq⟩ := List.mem_filterMap.mp h
  cases param with
  | size n =>
    cases heq
    exact hmem
  | benchmark name => cases heq

/-- A group is left out as a whole. -/
theorem keeps_congr (minSize : Option UInt64) (trial trial' : Trial)
    (h : trial.key = trial'.key) : keeps minSize trial = keeps minSize trial' := by
  have hparam : trial.param = trial'.param := congrArg GroupKey.param h
  simp only [keeps, hparam]

/-- A point of a chart is the aggregate of a group that is left in. -/
theorem ofSamples?_of_mem_points {settings : Settings} {trials : List Trial}
    {minSize : Option UInt64} {series : Series}
    (hseries : series ∈ (ofTrials settings trials minSize).series) {point : UInt64 × Aggregate}
    (hpoint : point ∈ series.points) :
    ⟨series.lang, .size point.1⟩ ∈ (trials.filter (keeps minSize)).map Trial.key ∧
      Aggregate.ofSamples? (Groups.timesOf (trials.filter (keeps minSize))
        ⟨series.lang, .size point.1⟩) = some point.2 := by
  obtain ⟨i, hi, rfl⟩ := List.mem_mapIdx.mp hseries
  exact Statistics.mem_ofLanguage_iff.mp (mem_ofLanguage_of_mem_pointsOf hpoint)

theorem isSound_ofTrials (settings : Settings) (trials : List Trial) (minSize : Option UInt64) :
    (ofTrials settings trials minSize).IsSound := by
  intro series hseries
  refine ⟨?_, fun point hpoint => ?_⟩
  · obtain ⟨i, hi, rfl⟩ := List.mem_mapIdx.mp hseries
    exact isBlank_pick_markers i
  · exact Aggregate.isUnsigned_deviation (ofSamples?_of_mem_points hseries hpoint).2

end Trend

/-! ## The bar chart -/

namespace Bars

/-- What the steps of a bar chart rely on: every language has a value or a gap for each category. -/
def IsSound (chart : Bars) : Prop :=
  ∀ series ∈ chart.series, series.values.length = chart.categories.length

/-- The row of a language in a category, under the given label. -/
def row (layout : Layout) (label : String) (category : Nat) (series : BarSeries) : Line :=
  [.plain (flushLeft layout.labelWidth label ++ " "),
    .painted series.color (flushLeft layout.langWidth series.lang ++ " │"
      ++ bar layout (series.values.getD category none))]

/-- The rows of a category, one for each language.  Only the first one has its name. -/
def rowsOf (chart : Bars) (category : Nat) (name : String) : List Line :=
  chart.series.mapIdx fun i series => row chart.layout (if i = 0 then name else "") category series

/-- The rows of the plot: one category after the other, with a blank row between two of them. -/
def plotLines (chart : Bars) : List Line :=
  [blankRow chart.layout].intercalate (chart.names.mapIdx chart.rowsOf)

/-- The lines over the rows. -/
def headLines (chart : Bars) : List Line :=
  [[.plain chart.title], [], chart.layout.header (flushLeft chart.layout.labelWidth categoryLabel)]

/-- The lines with a row for each category and language. -/
def picture (chart : Bars) : List Line :=
  chart.headLines ++ chart.plotLines ++ chart.layout.axisLines ++ [[]] ++ chart.series.map legendLine

/-! ### Lines -/

section

variable {chart : Bars}

theorem barRow_eq_ok {layout : Layout} {category : Nat} {series : BarSeries} (label : String)
    (h : category < series.values.length) :
    barRow layout label category series = .ok (row layout label category series) := by
  have hvalue : series.values.getD category none = series.values[category] :=
    (List.getElem_eq_getD none).symm
  rw [row, hvalue, barRow, List.getElem?_eq_getElem h]
  rfl

/-- A row that is drawn at all is this one. -/
theorem eq_row_of_barRow {layout : Layout} {label : String} {category : Nat} {series : BarSeries}
    {line : Line} (h : barRow layout label category series = .ok line) :
    line = row layout label category series := by
  by_cases hcategory : category < series.values.length
  · exact Except.ok.inj (h.symm.trans (barRow_eq_ok label hcategory))
  · rw [barRow, List.getElem?_eq_none (Nat.not_lt.mp hcategory)] at h
    cases h

/-- The rows of a category with the blank one after them. -/
def blockOf (chart : Bars) (category : Nat) (name : String) : List Line :=
  if category + 1 < chart.categories.length then chart.rowsOf category name ++ [blankRow chart.layout]
  else chart.rowsOf category name

theorem map_row_eq (chart : Bars) (category : Nat) (name : String) :
    (chart.series.mapIdx fun i series => (if i = 0 then name else "", series)).map
      (fun entry => row chart.layout entry.1 category entry.2) = chart.rowsOf category name :=
  map_mapIdx _ _ _

theorem length_names (chart : Bars) : chart.names.length = chart.categories.length :=
  List.length_map _

theorem flatten_map_blockOf (chart : Bars) :
    ((chart.names.mapIdx fun i name => (i, name)).map fun entry =>
      chart.blockOf entry.1 entry.2).flatten = chart.plotLines := by
  have hblocks := flatten_mapIdx_eq_intercalate [blankRow chart.layout]
    (chart.names.mapIdx chart.rowsOf)
  rw [List.length_mapIdx, length_names, List.mapIdx_mapIdx] at hblocks
  rw [map_mapIdx]
  exact hblocks

theorem categoryRows_eq_ok (hsound : chart.IsSound) {category : Nat} (name : String)
    (hcategory : category < chart.categories.length) :
    chart.categoryRows chart.layout category name = .ok (chart.rowsOf category name) := by
  rw [← map_row_eq]
  refine mapM_eq_ok_map ?_
  rintro ⟨label, series⟩ hmem
  obtain ⟨i, hi, heq⟩ := List.mem_mapIdx.mp hmem
  cases heq
  refine barRow_eq_ok _ ?_
  rwa [hsound _ (List.getElem_mem hi)]

theorem eq_rowsOf_of_categoryRows {category : Nat} {name : String} {rows : List Line}
    (h : chart.categoryRows chart.layout category name = .ok rows) :
    rows = chart.rowsOf category name := by
  rw [← map_row_eq]
  exact eq_map_of_mapM_eq_ok (fun _ _ hrow => eq_row_of_barRow hrow) h

theorem categoryBlock_eq_ok_iff {category : Nat} {name : String} {lines : List Line} :
    chart.categoryBlock chart.layout category name = .ok lines ↔
      (∃ rows, chart.categoryRows chart.layout category name = .ok rows) ∧
        lines = chart.blockOf category name := by
  rw [categoryBlock, bind_eq_ok_iff]
  constructor
  · rintro ⟨rows, hrows, hlines⟩
    refine ⟨⟨rows, hrows⟩, ?_⟩
    rw [blockOf, ← eq_rowsOf_of_categoryRows hrows]
    exact (Except.ok.inj hlines).symm
  · rintro ⟨⟨rows, hrows⟩, rfl⟩
    refine ⟨rows, hrows, ?_⟩
    rw [blockOf, ← eq_rowsOf_of_categoryRows hrows]
    rfl

/-- Every category of a chart with a value or a gap for each has its rows. -/
theorem blocks_eq_ok (hsound : chart.IsSound) :
    (chart.names.mapIdx fun i name => (i, name)).mapM
      (fun (i, name) => chart.categoryBlock chart.layout i name) =
        .ok ((chart.names.mapIdx fun i name => (i, name)).map fun entry =>
          chart.blockOf entry.1 entry.2) := by
  refine mapM_eq_ok_map fun entry hentry => ?_
  obtain ⟨i, hi, rfl⟩ := List.mem_mapIdx.mp hentry
  rw [length_names] at hi
  exact categoryBlock_eq_ok_iff.mpr ⟨⟨_, categoryRows_eq_ok hsound _ hi⟩, rfl⟩

/-- The lines of a chart that is laid out are those of its picture. -/
theorem eq_picture_of_lines {lines : List Line} (h : chart.lines = .ok lines) :
    lines = chart.picture := by
  rw [Bars.lines] at h
  obtain ⟨-, -, h⟩ := bind_eq_ok_iff.mp h
  obtain ⟨blocks, hblocks, h⟩ := bind_eq_ok_iff.mp h
  have hflatten : blocks.flatten = chart.plotLines := by
    rw [← flatten_map_blockOf]
    exact congrArg List.flatten
      (eq_map_of_mapM_eq_ok (fun _ _ hblock => (categoryBlock_eq_ok_iff.mp hblock).2) hblocks)
  rw [picture, ← hflatten]
  exact (Except.ok.inj h).symm

theorem lines_of_not_fits (h : ¬chart.layout.Fits) :
    chart.lines = .error .tooWide := by
  rw [Bars.lines, Layout.check_of_not_fits h]
  rfl

/-- **The lines of a chart**, and when there are any. -/
theorem lines_eq_ok_iff (hsound : chart.IsSound) {lines : List Line} :
    chart.lines = .ok lines ↔ chart.layout.Fits ∧ lines = chart.picture := by
  constructor
  · intro h
    refine ⟨?_, eq_picture_of_lines h⟩
    by_contra hfits
    rw [lines_of_not_fits hfits] at h
    cases h
  · rintro ⟨hfits, rfl⟩
    rw [Bars.lines, Layout.check_of_fits hfits, picture, ← flatten_map_blockOf]
    simp only [bind, Except.bind, blocks_eq_ok hsound]
    rfl

theorem render_eq_ok_iff (hsound : chart.IsSound) {colored : Bool} {text : String} :
    chart.render colored = .ok text ↔ chart.layout.Fits ∧ text = renderLines colored chart.picture := by
  simp only [render, map_eq_ok_iff, lines_eq_ok_iff hsound]
  constructor
  · rintro ⟨lines, ⟨hfits, rfl⟩, htext⟩
    exact ⟨hfits, htext⟩
  · rintro ⟨hfits, htext⟩
    exact ⟨_, ⟨hfits, rfl⟩, htext⟩

end

/-! ### Charts of trials -/

theorem isSound_ofTrials (settings : Settings) (trials : List Trial) :
    (ofTrials settings trials).IsSound := by
  intro series hseries
  obtain ⟨i, hi, rfl⟩ := List.mem_mapIdx.mp hseries
  exact List.length_map _

/-- A group is left out as a whole. -/
theorem keeps_congr (settings : Settings) (trial trial' : Trial)
    (h : trial.key = trial'.key) : keeps settings trial = keeps settings trial' := by
  have hparam : trial.param = trial'.param := congrArg GroupKey.param h
  simp only [keeps, hparam]

theorem map_lang_series (settings : Settings) (trials : List Trial) :
    (ofTrials settings trials).series.map (·.lang) =
      ((trials.filter (keeps settings)).map (·.lang)).eraseDups :=
  map_mapIdx_eq_self (fun _ _ => rfl) _

/-- The values of a language are the means of its groups. -/
theorem values_eq {settings : Settings} {trials : List Trial} {series : BarSeries}
    (hseries : series ∈ (ofTrials settings trials).series) :
    series.values = (ofTrials settings trials).categories.map fun param =>
      ((Statistics.ofTrials (trials.filter (keeps settings))).get? series.lang param).map
        (·.mean) := by
  obtain ⟨i, hi, rfl⟩ := List.mem_mapIdx.mp hseries
  rfl

end Bars
end TimeTrials.Chart
