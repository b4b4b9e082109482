import TimeTrials.Proofs.Chart.Categories
import TimeTrials.Proofs.Chart.Points
import TimeTrials.Proofs.Number.Fixed
import TimeTrials.Proofs.Text.Column

/-!
# The edge of the plot

All lines of a plot begin with two columns of names, and the edge of the plot comes after them.  The widths
of the columns are found over all names at once, in bytes, and each name is filled up by characters, so that
the edge is in the same place of every line, in whatever script the names are (`HasEdge`).  The corner of
the axis is under it.  The line under the axis has the same width as long as there is room on it for what it
names, which is the axis and both of its ends.

Nothing is asked of the charts here, not even that they are made of trials.  A chart that is not shown has
no lines, and one that is shown has those of its picture.

* `length_le_nameWidth`: every name fits its column.
* `hasEdge_header`, `hasEdge_painted`: the lines with names in them.
* `Trend.hasEdge_of_mem_plot`, `Bars.hasEdge_of_mem_plot`: the lines of each chart.
* `getElem?_corner`, `drop_corner`, `length_ends`: the axis.
* `plots_are_aligned`: both charts.
-/

namespace TimeTrials.Chart

open Number (Binary64)
open Text (flushLeft flushRight spaces centred repeated)

/-! ## Names -/

theorem le_foldl_max (widths : List Nat) (start : Nat) :
    start ≤ widths.foldl Nat.max start ∧ ∀ width ∈ widths, width ≤ widths.foldl Nat.max start := by
  induction widths generalizing start with
  | nil => exact ⟨le_rfl, fun width hwidth => absurd hwidth List.not_mem_nil⟩
  | cons first rest ih =>
    obtain ⟨hstart, hrest⟩ := ih (Nat.max start first)
    rw [List.foldl_cons]
    refine ⟨(Nat.le_max_left start first).trans hstart, fun width hwidth => ?_⟩
    rcases List.mem_cons.mp hwidth with rfl | hmem
    · exact (Nat.le_max_right start width).trans hstart
    · exact hrest width hmem

/-- A name has no more characters than the column of names is wide. -/
theorem length_le_nameWidth {name : String} {names : List String} (h : name ∈ names) :
    name.length ≤ nameWidth names := by
  calc name.length ≤ name.utf8ByteSize := Text.length_le_utf8ByteSize name
    _ ≤ nameWidth names := (le_foldl_max _ 0).2 _ (List.mem_map_of_mem h)

/-! ## Lines without colours -/

theorem renderLine_plain (text : String) : renderLine false [.plain text] = text ++ "\n" := by
  simp [renderLine, Segment.render]

theorem renderLine_painted (label row : String) (color : Color) :
    renderLine false [.plain label, .painted color row] = label ++ row ++ "\n" := by
  simp [renderLine, Segment.render]

/-- A line whose plot starts after the two columns of names. -/
def HasEdge (layout : Layout) (line : Line) : Prop :=
  ∃ label lang rest : String, label.length = layout.labelWidth ∧ lang.length = layout.langWidth ∧
    renderLine false line = label ++ " " ++ lang ++ " │" ++ rest

/-- What comes after a text is where the text ends. -/
theorem getElem?_toList_append {before : String} {index : Nat} (h : before.length = index)
    (c : Char) (rest : List Char) : (before.toList ++ c :: rest)[index]? = some c := by
  subst h
  rw [← String.length_toList, List.getElem?_append_right (Nat.le_refl _), Nat.sub_self]
  rfl

theorem HasEdge.getElem?_eq {layout : Layout} {line : Line} (h : HasEdge layout line) :
    (renderLine false line).toList[layout.labelWidth + layout.langWidth + 2]? = some '│' := by
  obtain ⟨label, lang, rest, hlabel, hlang, htext⟩ := h
  have hbefore : (label ++ " " ++ lang ++ " ").length =
      layout.labelWidth + layout.langWidth + 2 := by
    simp only [String.length_append, hlabel, hlang]
    show layout.labelWidth + 1 + layout.langWidth + 1 = _
    omega
  have hsplit : (renderLine false line).toList =
      (label ++ " " ++ lang ++ " ").toList ++ '│' :: rest.toList := by
    rw [htext]
    simp
  rw [hsplit]
  exact getElem?_toList_append hbefore _ _

section

variable {layout : Layout} {label : String} (hlabel : label.length = layout.labelWidth)

include hlabel

theorem hasEdge_header : HasEdge layout (layout.header label) :=
  ⟨label, spaces layout.langWidth, "\n", hlabel, Text.length_spaces _, renderLine_plain _⟩

theorem hasEdge_painted {lang : String} (hlang : lang.length = layout.langWidth) (rest : String)
    (color : Color) :
    HasEdge layout [.plain (label ++ " "), .painted color (lang ++ " │" ++ rest)] := by
  refine ⟨label, lang, rest ++ "\n", hlabel, hlang, ?_⟩
  rw [renderLine_painted]
  simp only [String.append_assoc]

end

/-! ## The axis -/

/-- The line under the plot. -/
def Layout.axis (layout : Layout) : Line :=
  [.plain (spaces layout.indent ++ "└" ++ repeated layout.width '─')]

/-- The line under the axis. -/
def Layout.ends (layout : Layout) : Line :=
  [.plain (spaces layout.indent ++ " 0"
    ++ centred (axisMiddle layout.width layout.scale) axisLabel ++ axisEnd layout.scale)]

section

variable (layout : Layout)

theorem toList_axis : (renderLine false layout.axis).toList =
    (spaces layout.indent).toList ++ '└' :: (List.replicate layout.width '─' ++ ['\n']) := by
  rw [Layout.axis, renderLine_plain]
  simp [repeated]

/-- The corner is under the edge. -/
theorem getElem?_corner : (renderLine false layout.axis).toList[layout.indent]? = some '└' := by
  rw [toList_axis]
  exact getElem?_toList_append (Text.length_spaces _) _ _

theorem drop_corner : (renderLine false layout.axis).toList.drop (layout.indent + 1) =
    List.replicate layout.width '─' ++ ['\n'] := by
  have hindent : (spaces layout.indent).toList.length = layout.indent := by
    rw [String.length_toList, Text.length_spaces]
  rw [toList_axis, List.drop_append, hindent, List.drop_of_length_le (by omega),
    Nat.add_sub_cancel_left]
  rfl

/-- How an axis ends is written with single bytes, so that its bytes are its characters. -/
theorem utf8ByteSize_axisEnd (scale : Binary64) :
    (axisEnd scale).utf8ByteSize = (axisEnd scale).length :=
  Text.utf8ByteSize_eq_length fun _ hc => Binary64.utf8Size_of_mem_fixed hc

theorem length_ends (hroom : 9 + (axisEnd layout.scale).length ≤ layout.width) :
    (renderLine false layout.ends).length = (renderLine false layout.axis).length := by
  have hmiddle : axisMiddle layout.width layout.scale =
      layout.width - (1 + (axisEnd layout.scale).length) := by
    rw [axisMiddle, utf8ByteSize_axisEnd]
  have hlabel : axisLabel.length ≤ axisMiddle layout.width layout.scale := by
    rw [hmiddle]
    show 8 ≤ _
    omega
  rw [Layout.ends, Layout.axis, renderLine_plain, renderLine_plain]
  simp only [String.length_append, Text.length_spaces, Text.length_repeated,
    Text.length_centred hlabel]
  show layout.indent + 2 + axisMiddle layout.width layout.scale + _ + 1 = layout.indent + 1 + _ + 1
  omega

end

/-- The lines that a plot is in have its edge at one index.  The corner of the axis is under it, with as
many dashes after it as the plot is wide, and the line under the axis has the same width if there is room. -/
structure IsAligned (layout : Layout) (plot : List Line) : Prop where
  edge : ∀ line ∈ plot,
    (renderLine false line).toList[layout.labelWidth + layout.langWidth + 2]? = some '│'
  corner : (renderLine false layout.axis).toList[layout.labelWidth + layout.langWidth + 2]? = some '└'
  dashes : (renderLine false layout.axis).toList.drop (layout.labelWidth + layout.langWidth + 3) =
    List.replicate layout.width '─' ++ ['\n']
  ends : 9 + (axisEnd layout.scale).length ≤ layout.width →
    (renderLine false layout.ends).length = (renderLine false layout.axis).length

theorem isAligned_of_hasEdge {layout : Layout} {plot : List Line}
    (h : ∀ line ∈ plot, HasEdge layout line) : IsAligned layout plot :=
  ⟨fun line hline => (h line hline).getElem?_eq, getElem?_corner layout, drop_corner layout,
    length_ends layout⟩

/-! ## The trend chart -/

namespace Trend

/-- The lines that the plot is in: the one with the names of the columns, and the rows. -/
def plot (chart : Trend) : List Line :=
  chart.layout.header (flushRight chart.layout.labelWidth sizeLabel) ::
    chart.plotted.map (row chart.layout)

variable {chart : Trend}

theorem length_flushRight_size {n : UInt64} (h : n ∈ chart.sizes) :
    (flushRight chart.layout.labelWidth (toString n.toNat)).length = chart.layout.labelWidth :=
  Text.length_flushRight <| length_le_nameWidth <|
    List.mem_append_left _ (List.mem_map.mpr ⟨n, h, rfl⟩)

theorem length_flushLeft_lang {series : Series} (h : series ∈ chart.series) :
    (flushLeft chart.layout.langWidth series.lang).length = chart.layout.langWidth :=
  Text.length_flushLeft (length_le_nameWidth (List.mem_map_of_mem h))

theorem hasEdge_of_mem_plot {line : Line} (h : line ∈ chart.plot) : HasEdge chart.layout line := by
  rcases List.mem_cons.mp h with rfl | hrow
  · refine hasEdge_header (Text.length_flushRight (length_le_nameWidth ?_))
    exact List.mem_append_right _ (List.mem_singleton_self sizeLabel)
  · obtain ⟨⟨n, series, aggregate⟩, hmem, rfl⟩ := List.mem_map.mp hrow
    obtain ⟨hseries, hpoint⟩ := mem_of_mem_plotted hmem
    have hsize : n ∈ chart.sizes := mem_sizes_iff.mpr ⟨series, hseries, _, hpoint, rfl⟩
    have hline := hasEdge_painted (length_flushRight_size hsize) (length_flushLeft_lang hseries)
      ((whiskerOf aggregate chart.layout.scale chart.layout.width).text series.marker series.stem ++
        (" " ++ (aggregate.mean.fixed 4 ++ (" ± " ++ aggregate.deviation.fixed 4)))) series.color
    simpa only [row, String.append_assoc] using hline

theorem picture_eq (chart : Trend) : chart.picture = [[.plain chart.title], []] ++ chart.plot ++
    chart.layout.axisLines ++ [[]] ++ chart.series.map legendLine := rfl

end Trend

/-! ## The bar chart -/

namespace Bars

/-- The lines that the plot is in: the one with the names of the columns, the rows, and the blank rows. -/
def plot (chart : Bars) : List Line :=
  chart.layout.header (flushLeft chart.layout.labelWidth categoryLabel) :: chart.plotLines

variable {chart : Bars}

theorem mem_plotLines {line : Line} (h : line ∈ chart.plotLines) :
    line = blankRow chart.layout ∨
      ∃ category, ∃ name ∈ chart.names, line ∈ chart.rowsOf category name := by
  rw [← flatten_map_blockOf] at h
  obtain ⟨lines, hlines, hmem⟩ := List.mem_flatten.mp h
  obtain ⟨⟨category, name⟩, hpair, rfl⟩ := List.mem_map.mp hlines
  have hname : name ∈ chart.names := by
    obtain ⟨i, hi, heq⟩ := List.mem_mapIdx.mp hpair
    cases heq
    exact List.getElem_mem hi
  have hblock : line ∈ chart.blockOf category name := hmem
  unfold Bars.blockOf at hblock
  split_ifs at hblock
  · rcases List.mem_append.mp hblock with hrow | hblank
    · exact .inr ⟨category, name, hname, hrow⟩
    · exact .inl (List.mem_singleton.mp hblank)
  · exact .inr ⟨category, name, hname, hblock⟩

theorem hasEdge_of_mem_rowsOf {category : Nat} {name : String} (hname : name ∈ chart.names)
    {line : Line} (h : line ∈ chart.rowsOf category name) : HasEdge chart.layout line := by
  obtain ⟨i, hi, rfl⟩ := List.mem_mapIdx.mp h
  have hlabel : (if i = 0 then name else "").length ≤ chart.layout.labelWidth := by
    split_ifs
    · exact length_le_nameWidth (List.mem_append_left _ hname)
    · exact Nat.zero_le _
  have hlang : chart.series[i].lang.length ≤ chart.layout.langWidth :=
    length_le_nameWidth (List.mem_map_of_mem (List.getElem_mem hi))
  exact hasEdge_painted (Text.length_flushLeft hlabel) (Text.length_flushLeft hlang) _ _

theorem hasEdge_of_mem_plot {line : Line} (h : line ∈ chart.plot) : HasEdge chart.layout line := by
  rcases List.mem_cons.mp h with rfl | hrow
  · refine hasEdge_header (Text.length_flushLeft (length_le_nameWidth ?_))
    exact List.mem_append_right _ (List.mem_singleton_self categoryLabel)
  · rcases mem_plotLines hrow with rfl | ⟨category, name, hname, hmem⟩
    · exact hasEdge_header (Text.length_spaces _)
    · exact hasEdge_of_mem_rowsOf hname hmem

theorem picture_eq (chart : Bars) : chart.picture = [[.plain chart.title], []] ++ chart.plot ++
    chart.layout.axisLines ++ [[]] ++ chart.series.map legendLine := rfl

end Bars

/-! ## What is shown -/

/-- A text that is a plot between a title and a key, without colours. -/
structure ShowsPlot (layout : Layout) (title : String) (plot legend : List Line) (text : String) :
    Prop where
  text_eq : text = renderLines false
    ([[.plain title], []] ++ plot ++ [layout.axis, layout.ends] ++ [[]] ++ legend)
  isAligned : IsAligned layout plot

/-- **The plots of all charts that are shown are aligned**, whatever the names are. -/
theorem plots_are_aligned :
    (∀ (chart : Trend) (text : String), chart.render false = .ok text →
      ShowsPlot chart.layout chart.title chart.plot (chart.series.map Trend.legendLine) text) ∧
    ∀ (chart : Bars) (text : String), chart.render false = .ok text →
      ShowsPlot chart.layout chart.title chart.plot (chart.series.map Bars.legendLine) text := by
  refine ⟨fun chart text h => ?_, fun chart text h => ?_⟩
  · obtain ⟨lines, hlines, rfl⟩ := map_eq_ok_iff.mp h
    rw [Trend.eq_picture_of_lines hlines, Trend.picture_eq]
    exact ⟨rfl, isAligned_of_hasEdge fun line => Trend.hasEdge_of_mem_plot⟩
  · obtain ⟨lines, hlines, rfl⟩ := map_eq_ok_iff.mp h
    rw [Bars.eq_picture_of_lines hlines, Bars.picture_eq]
    exact ⟨rfl, isAligned_of_hasEdge fun line => Bars.hasEdge_of_mem_plot⟩

/-- Names in several scripts: the columns are wider than they have to be, and the edge is in its place. -/
theorem plots_are_aligned_scripts :
    let trend := Trend.ofTrials Settings.default
      [⟨"łox", .size 5, .ofNat 1⟩, ⟨"語", .size 12, .ofNat 2⟩] none
    let bars := Bars.ofTrials Settings.default
      [⟨"łox", .benchmark "żółw", .ofNat 1⟩, ⟨"語", .benchmark "動物園の中", .ofNat 2⟩]
    (∃ text, trend.render false = .ok text ∧ (trend.layout.labelWidth, trend.layout.langWidth) = (2, 4) ∧
      ShowsPlot trend.layout trend.title trend.plot (trend.series.map Trend.legendLine) text) ∧
    ∃ text, bars.render false = .ok text ∧ (bars.layout.labelWidth, bars.layout.langWidth) = (15, 4) ∧
      ShowsPlot bars.layout bars.title bars.plot (bars.series.map Bars.legendLine) text := by
  intro trend bars
  have htrend : trend.render false = .ok (renderLines false trend.picture) :=
    (Trend.render_eq_ok_iff (Trend.isSound_ofTrials _ _ _)).mpr
      ⟨⟨by decide +kernel, by decide +kernel⟩, .inl (by decide), rfl⟩
  have hbars : bars.render false = .ok (renderLines false bars.picture) :=
    (Bars.render_eq_ok_iff (Bars.isSound_ofTrials _ _)).mpr
      ⟨⟨by decide +kernel, by decide +kernel⟩, rfl⟩
  exact ⟨⟨_, htrend, by decide +kernel, plots_are_aligned.1 trend _ htrend⟩,
    _, hbars, by decide +kernel, plots_are_aligned.2 bars _ hbars⟩

end TimeTrials.Chart
