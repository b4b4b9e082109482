import TimeTrials.Proofs.Chart.Alignment
import TimeTrials.Proofs.Chart.Colors
import TimeTrials.Proofs.Chart.Painting
import TimeTrials.Proofs.Number.Fixed

/-!
# Colours change nothing but colour

Charts are laid out without a thought for colours, and so deleting the colours of a chart gives the chart
that is drawn without them.  All that is needed is that titles and names bring no escape characters with
them, for what a chart adds has no control characters at all.

There is no more than one colour in a line: what belongs to a language, its row or its key, comes last in
its line, and it is painted as a whole.

* `lineLacks_frame`, `paintsFor_frame`: a chart around its plot and its key.
* `Trend.lineLacks_picture`, `Bars.lineLacks_picture`: charts add no control characters.
* `Trend.paintsFor_picture`, `Bars.paintsFor_picture`: the painted lines of a chart are its rows and its key.
* `colors_change_only_color`: both charts of trials.
-/

namespace TimeTrials.Chart

open Number (Binary64)
open Text (IsControl Lacks dividers escapeChar flushLeft repeated)

/-! ## What charts write -/

section

variable {c : Char} (hc : IsControl c)

include hc

theorem lacks_blank : Lacks c " " := Text.lacks_of_all hc (by decide)

theorem lacks_edge : Lacks c " │" := Text.lacks_of_all hc (by decide)

theorem lacks_toString (n : Nat) : Lacks c (toString n) := by
  have htext : (toString n).toList = Number.digitsOf n := Nat.toList_repr
  refine Text.lacks_of_forall hc fun shown hshown => ?_
  rw [htext] at hshown
  exact Number.le_toNat_of_isDigit (Number.isDigits_digitsOf _ _ hshown)

theorem lacks_fixed (x : Binary64) (places : Nat) : Lacks c (x.fixed places) := by
  refine Text.lacks_of_forall hc fun shown hshown => ?_
  refine Binary64.forall_mem_fixed (fun _ => Number.le_toNat_of_isDigit) ?_ hshown
  have hmarks : Binary64.marks.all (32 ≤ ·.toNat) = true := by decide
  exact fun mark hmark => of_decide_eq_true (List.all_eq_true.mp hmarks mark hmark)

theorem lineLacks_axisLines (layout : Layout) : ∀ line ∈ layout.axisLines, LineLacks c line := by
  have hcorner : Lacks c "└" := Text.lacks_of_all hc (by decide)
  have hzero : Lacks c " 0" := Text.lacks_of_all hc (by decide)
  have hlabel : Lacks c axisLabel := Text.lacks_of_all hc (by decide)
  have hindent := Text.lacks_spaces hc layout.indent
  have hline : Lacks c (repeated layout.width '─') := Text.lacks_repeated hc (by decide) _
  have hmiddle := Text.lacks_centred hc hlabel (axisMiddle layout.width layout.scale)
  have hend := lacks_fixed hc layout.scale 3
  intro line hline'
  simp only [Layout.axisLines, List.mem_cons, List.not_mem_nil, or_false] at hline'
  rcases hline' with rfl | rfl
  · exact lineLacks_plain_iff.mpr ((hindent.append hcorner).append hline)
  · exact lineLacks_plain_iff.mpr (((hindent.append hzero).append hmiddle).append hend)

theorem lineLacks_header (layout : Layout) {label : String} (h : Lacks c label) :
    LineLacks c (layout.header label) := by
  have hblanks := Text.lacks_spaces hc layout.langWidth
  exact lineLacks_plain_iff.mpr (((h.append (lacks_blank hc)).append hblanks).append (lacks_edge hc))

end

/-! ## Around the plot -/

section

variable {layout : Layout} {title label : String}

/-- The lines over a plot. -/
theorem lineLacks_head {c : Char} (hc : IsControl c) (htitle : Lacks c title) (hlabel : Lacks c label) :
    ∀ line ∈ [[.plain title], [], layout.header label], LineLacks c line := by
  simp only [List.mem_cons, List.not_mem_nil, or_false]
  rintro line (rfl | rfl | rfl)
  · exact lineLacks_plain_iff.mpr htitle
  · exact lineLacks_nil c
  · exact lineLacks_header hc layout hlabel

variable {plot key : List Line}

/-- A chart adds no control characters to its title, its rows and its key. -/
theorem lineLacks_frame {c : Char} (hc : IsControl c) (htitle : Lacks c title) (hlabel : Lacks c label)
    (hplot : ∀ line ∈ plot, LineLacks c line) (hkey : ∀ line ∈ key, LineLacks c line) :
    ∀ line ∈ [[.plain title], [], layout.header label] ++ plot ++ layout.axisLines ++ [[]] ++ key,
      LineLacks c line := by
  simp only [List.forall_mem_append]
  refine ⟨⟨⟨⟨lineLacks_head hc htitle hlabel, hplot⟩, lineLacks_axisLines hc layout⟩, ?_⟩, hkey⟩
  exact List.forall_mem_singleton.mpr (lineLacks_nil c)

/-- And it has no colours except in its rows and its key. -/
theorem paintsFor_frame {owners owners' : List (String × Color)} (htitle : Lacks escapeChar title)
    (hlabel : Lacks escapeChar label) (hplot : PaintsFor layout owners plot)
    (hkey : PaintsFor layout owners' key) : PaintsFor layout (owners ++ owners')
      ([[.plain title], [], layout.header label] ++ plot ++ layout.axisLines ++ [[]] ++ key) := by
  have hhead : PaintsFor layout [] [[.plain title], [], layout.header label] :=
    paintsFor_of_plain (by simp [Layout.header, Segment.render])
      (lineLacks_head Text.isControl_escapeChar htitle hlabel)
  have haxis : PaintsFor layout [] layout.axisLines :=
    paintsFor_of_plain (by simp [Layout.axisLines, Segment.render])
      (lineLacks_axisLines Text.isControl_escapeChar layout)
  have hempty : PaintsFor layout [] [[]] := paintsFor_of_plain (by simp) (by simp [LineLacks])
  have hall := paintsFor_append
    (paintsFor_append (paintsFor_append (paintsFor_append hhead hplot) haxis) hempty) hkey
  rwa [List.nil_append, List.append_nil, List.append_nil] at hall

end

/-! ## Names and owners -/

/-- Neither languages nor what they were run on have the character in their names. -/
def NamesLack (c : Char) (trials : List Trial) : Prop :=
  ∀ trial ∈ trials, Lacks c trial.lang ∧ Lacks c trial.param.text

theorem namesLack_of_mem_dividers {c : Char} (hc : c ∈ dividers) {trials : List Trial}
    (hescapes : NamesLack escapeChar trials) (hends : NamesLack '\n' trials) : NamesLack c trials := by
  rcases List.mem_pair.mp hc with rfl | rfl
  · exact hescapes
  · exact hends

/-- The owner of a painted line is a language of the chart, and its colour is the one that the settings have
for the language in its place. -/
def HasColor (settings : Settings) (langs : List String) (owner : String × Color) : Prop :=
  ∃ place : Nat, langs[place]? = some owner.1 ∧ owner.2 = settings.colorOf owner.1 place

theorem hasColor_of_mem {α : Type} {settings : Settings} {series : List α} {lang : α → String}
    {color : α → Color} (h : series.map color =
      (series.map lang).mapIdx fun i name => settings.colorOf name i) {entry : α}
    (hmem : entry ∈ series) : HasColor settings (series.map lang) (lang entry, color entry) := by
  obtain ⟨i, hi, rfl⟩ := List.getElem_of_mem hmem
  refine ⟨i, by rw [List.getElem?_map, List.getElem?_eq_getElem hi, Option.map_some], ?_⟩
  have hcolor := congrArg (·[i]?) h
  simpa [hi] using hcolor

/-! ## The trend chart -/

namespace Trend

/-- The languages that the painted lines belong to, with their colours: those of the rows, and then those in
the key. -/
def owners (chart : Trend) : List (String × Color) :=
  chart.plotted.map (fun point => (point.2.1.lang, point.2.1.color)) ++
    chart.series.map fun series => (series.lang, series.color)

/-- A language whose name and marks do not have the character. -/
def SeriesLacks (c : Char) (series : Series) : Prop :=
  c ≠ series.marker ∧ c ≠ series.stem ∧ Lacks c series.lang

section

variable {c : Char} (hc : IsControl c) {series : Series} (h : SeriesLacks c series)

include hc h

theorem lacks_text (w : Whisker) : Lacks c (w.text series.marker series.stem) := by
  obtain ⟨hmarker, hstem, -⟩ := h
  intro hmem
  rw [Whisker.text, String.toList_ofList, rowOf] at hmem
  obtain ⟨column, -, hchar⟩ := List.mem_map.mp hmem
  rw [Whisker.char] at hchar
  split_ifs at hchar
  · exact hmarker hchar.symm
  · exact Text.ne_of_isControl hc (by decide) hchar.symm
  · exact Text.ne_of_isControl hc (by decide) hchar.symm
  · exact hstem hchar.symm
  · exact Text.ne_of_isControl hc (by decide) hchar.symm
  · exact Text.ne_of_isControl hc (by decide) hchar.symm

theorem lineLacks_row (layout : Layout) (n : UInt64) (aggregate : Aggregate) :
    LineLacks c (row layout (n, series, aggregate)) := by
  have hbetween : Lacks c " ± " := Text.lacks_of_all hc (by decide)
  have hlabel := Text.lacks_flushRight hc (lacks_toString hc n.toNat) layout.labelWidth
  have hlang := Text.lacks_flushLeft hc h.2.2 layout.langWidth
  have hdrawn := lacks_text hc h (whiskerOf aggregate layout.scale layout.width)
  have hmean := lacks_fixed hc aggregate.mean 4
  have hdeviation := lacks_fixed hc aggregate.deviation 4
  have hrow := (hlang.append (lacks_edge hc)).append hdrawn
  refine lineLacks_painted_iff.mpr ⟨hlabel.append (lacks_blank hc), ?_⟩
  exact (((hrow.append (lacks_blank hc)).append hmean).append hbetween).append hdeviation

theorem lineLacks_legendLine : LineLacks c (legendLine series) := by
  have hindent : Lacks c "  " := Text.lacks_of_all hc (by decide)
  have hmarker := Text.lacks_singleton h.1
  have hstem := Text.lacks_singleton h.2.1
  refine lineLacks_painted_iff.mpr ⟨hindent, ?_⟩
  exact (((hstem.append hmarker).append hstem).append (lacks_blank hc)).append h.2.2

end

theorem belongsTo_row (layout : Layout) (series : Series) (drawn mean deviation : String) :
    BelongsTo layout series.lang (flushLeft layout.langWidth series.lang ++ " │" ++ drawn ++ " " ++ mean
      ++ " ± " ++ deviation) := by
  have hrow : BelongsTo layout series.lang (flushLeft layout.langWidth series.lang ++ " │" ++
      (drawn ++ (" " ++ (mean ++ (" ± " ++ deviation))))) := .row _
  simpa only [String.append_assoc] using hrow

section

variable {chart : Trend}

theorem lineLacks_picture {c : Char} (hc : IsControl c) (htitle : Lacks c chart.title)
    (hseries : ∀ series ∈ chart.series, SeriesLacks c series) :
    ∀ line ∈ chart.picture, LineLacks c line := by
  have hlabel : Lacks c sizeLabel := Text.lacks_of_all hc (by decide)
  refine lineLacks_frame hc htitle (Text.lacks_flushRight hc hlabel _) ?_ ?_
  · intro line hline
    obtain ⟨⟨n, series, aggregate⟩, hpoint, rfl⟩ := List.mem_map.mp hline
    exact lineLacks_row hc (hseries series (mem_of_mem_plotted hpoint).1) _ n aggregate
  · intro line hline
    obtain ⟨series, hmem, rfl⟩ := List.mem_map.mp hline
    exact lineLacks_legendLine hc (hseries series hmem)

theorem paintsFor_picture (htitle : Lacks escapeChar chart.title)
    (hseries : ∀ c ∈ dividers, ∀ series ∈ chart.series, SeriesLacks c series) :
    PaintsFor chart.layout chart.owners chart.picture := by
  have hlabel : Lacks escapeChar sizeLabel := Text.lacks_of_all Text.isControl_escapeChar (by decide)
  refine paintsFor_frame htitle (Text.lacks_flushRight Text.isControl_escapeChar hlabel _) ?_ ?_
  · refine paintsFor_map fun ⟨n, series, aggregate⟩ hpoint => ?_
    refine paintsFor_painted (belongsTo_row _ _ _ _ _) fun c hc => ?_
    have hlacks := hseries c hc series (mem_of_mem_plotted hpoint).1
    exact lineLacks_row (Text.isControl_of_mem_dividers hc) hlacks _ n aggregate
  · refine paintsFor_map fun series hmem => ?_
    refine paintsFor_painted (BelongsTo.key _) fun c hc => ?_
    exact lineLacks_legendLine (Text.isControl_of_mem_dividers hc) (hseries c hc series hmem)

end

/-! ### Charts of trials -/

theorem ne_pick {c : Char} (hc : IsControl c) {marks : List Char} (hmarks : marks ≠ [])
    (hshown : marks.all (32 ≤ ·.toNat) = true) (index : Nat) : c ≠ pick marks index :=
  Text.ne_of_isControl hc <| of_decide_eq_true <|
    List.all_eq_true.mp hshown _ (pick_mem hmarks index)

theorem seriesLacks_of_names {settings : Settings} {trials : List Trial} {minSize : Option UInt64}
    {c : Char} (hc : IsControl c) (hnames : NamesLack c trials) :
    ∀ series ∈ (ofTrials settings trials minSize).series, SeriesLacks c series := by
  intro series hseries
  obtain ⟨trial, htrial, hlang, -⟩ := mem_langs_iff.mp (List.mem_map_of_mem hseries)
  refine ⟨?_, ?_, hlang ▸ (hnames trial htrial).1⟩
  · obtain ⟨i, hi, rfl⟩ := List.mem_mapIdx.mp hseries
    exact ne_pick hc (by decide) (by decide) i
  · obtain ⟨i, hi, rfl⟩ := List.mem_mapIdx.mp hseries
    exact ne_pick hc (by decide) (by decide) i

theorem hasColor_of_mem_owners {settings : Settings} {trials : List Trial} {minSize : Option UInt64} :
    ∀ owner ∈ (ofTrials settings trials minSize).owners,
      HasColor settings ((ofTrials settings trials minSize).series.map (·.lang)) owner := by
  intro owner howner
  rcases List.mem_append.mp howner with hrow | hkey
  · obtain ⟨point, hpoint, rfl⟩ := List.mem_map.mp hrow
    exact hasColor_of_mem map_color_series (mem_of_mem_plotted hpoint).1
  · obtain ⟨series, hmem, rfl⟩ := List.mem_map.mp hkey
    exact hasColor_of_mem map_color_series hmem

end Trend

/-! ## The bar chart -/

namespace Bars

/-- The languages that the painted lines belong to, with their colours: those of the rows, category by
category, and then those in the key. -/
def owners (chart : Bars) : List (String × Color) :=
  chart.names.flatMap (fun _ => chart.series.map fun series => (series.lang, series.color)) ++
    chart.series.map fun series => (series.lang, series.color)

section

variable {c : Char} (hc : IsControl c)

include hc

theorem lacks_bar (layout : Layout) (value : Option Binary64) : Lacks c (bar layout value) := by
  have hdash : Lacks c "-" := Text.lacks_of_all hc (by decide)
  cases value with
  | none => exact hdash
  | some value =>
    have hblocks : Lacks c (repeated (length value layout.scale layout.width) block) :=
      Text.lacks_repeated hc (by decide) _
    exact (hblocks.append (lacks_blank hc)).append (lacks_fixed hc value 4)

variable {series : BarSeries} (hlang : Lacks c series.lang)

include hlang

theorem lineLacks_row (layout : Layout) {label : String} (hlabel : Lacks c label) (category : Nat) :
    LineLacks c (row layout label category series) := by
  refine lineLacks_painted_iff.mpr ⟨(Text.lacks_flushLeft hc hlabel _).append (lacks_blank hc), ?_⟩
  exact ((Text.lacks_flushLeft hc hlang _).append (lacks_edge hc)).append (lacks_bar hc layout _)

theorem lineLacks_legendLine : LineLacks c (legendLine series) := by
  have hindent : Lacks c "  " := Text.lacks_of_all hc (by decide)
  have hblocks : Lacks c (repeated 2 block) := Text.lacks_repeated hc (by decide) _
  exact lineLacks_painted_iff.mpr ⟨hindent, (hblocks.append (lacks_blank hc)).append hlang⟩

end

section

variable {chart : Bars}

theorem lacks_label {c : Char} {name : String} (h : Lacks c name) (i : Nat) :
    Lacks c (if i = 0 then name else "") := by
  split_ifs
  · exact h
  · exact List.not_mem_nil

theorem lineLacks_picture {c : Char} (hc : IsControl c) (htitle : Lacks c chart.title)
    (hnames : ∀ name ∈ chart.names, Lacks c name)
    (hlangs : ∀ series ∈ chart.series, Lacks c series.lang) :
    ∀ line ∈ chart.picture, LineLacks c line := by
  have hlabel : Lacks c categoryLabel := Text.lacks_of_all hc (by decide)
  refine lineLacks_frame hc htitle (Text.lacks_flushLeft hc hlabel _) ?_ ?_
  · intro line hline
    rcases mem_plotLines hline with rfl | ⟨category, name, hname, hrow⟩
    · exact lineLacks_header hc chart.layout (Text.lacks_spaces hc _)
    · obtain ⟨i, hi, rfl⟩ := List.mem_mapIdx.mp hrow
      exact lineLacks_row hc (hlangs _ (List.getElem_mem hi)) _ (lacks_label (hnames name hname) i) _
  · intro line hline
    obtain ⟨series, hmem, rfl⟩ := List.mem_map.mp hline
    exact lineLacks_legendLine hc (hlangs series hmem)

theorem paintsFor_picture (htitle : Lacks escapeChar chart.title)
    (hnames : ∀ c ∈ dividers, ∀ name ∈ chart.names, Lacks c name)
    (hlangs : ∀ c ∈ dividers, ∀ series ∈ chart.series, Lacks c series.lang) :
    PaintsFor chart.layout chart.owners chart.picture := by
  have hescape := Text.isControl_escapeChar
  have hlabel : Lacks escapeChar categoryLabel := Text.lacks_of_all hescape (by decide)
  have hblank : PaintsFor chart.layout [] [blankRow chart.layout] := by
    refine paintsFor_of_plain (by simp [blankRow, Segment.render]) ?_
    exact List.forall_mem_singleton.mpr (lineLacks_header hescape chart.layout (Text.lacks_spaces hescape _))
  refine paintsFor_frame htitle (Text.lacks_flushLeft hescape hlabel _) ?_ ?_
  · refine paintsFor_intercalate hblank fun category name hname => ?_
    refine paintsFor_mapIdx fun i series hmem => ?_
    refine paintsFor_painted (BelongsTo.row _) fun c hc => ?_
    exact lineLacks_row (Text.isControl_of_mem_dividers hc) (hlangs c hc series hmem) _
      (lacks_label (hnames c hc name hname) i) category
  · refine paintsFor_map fun series hmem => ?_
    refine paintsFor_painted (BelongsTo.key _) fun c hc => ?_
    exact lineLacks_legendLine (Text.isControl_of_mem_dividers hc) (hlangs c hc series hmem)

end

/-! ### Charts of trials -/

section

variable {settings : Settings} {trials : List Trial} {c : Char} (hnames : NamesLack c trials)

include hnames

theorem lacks_of_mem_names : ∀ name ∈ (ofTrials settings trials).names, Lacks c name := by
  intro name hname
  obtain ⟨param, hparam, rfl⟩ := List.mem_map.mp hname
  obtain ⟨trial, htrial, rfl⟩ := mem_categories_iff.mp hparam
  exact (hnames trial (mem_remaining_iff.mp htrial).1).2

theorem lacks_of_mem_series : ∀ series ∈ (ofTrials settings trials).series, Lacks c series.lang := by
  intro series hseries
  obtain ⟨trial, htrial, hlang⟩ := exists_of_mem_langs (List.mem_map_of_mem hseries)
  exact hlang ▸ (hnames trial htrial).1

end

theorem hasColor_of_mem_owners {settings : Settings} {trials : List Trial} :
    ∀ owner ∈ (ofTrials settings trials).owners,
      HasColor settings ((ofTrials settings trials).series.map (·.lang)) owner := by
  have hall : ∀ owner ∈ (ofTrials settings trials).series.map fun series => (series.lang, series.color),
      HasColor settings ((ofTrials settings trials).series.map (·.lang)) owner := by
    intro owner howner
    obtain ⟨series, hmem, rfl⟩ := List.mem_map.mp howner
    exact hasColor_of_mem map_color_series hmem
  intro owner howner
  rcases List.mem_append.mp howner with hrow | hkey
  · obtain ⟨_, -, hmem⟩ := List.mem_flatMap.mp hrow
    exact hall owner hmem
  · exact hall owner hkey

end Bars

/-! ## What is shown -/

/-- A text in which nothing is painted but what belongs to the owners, each in its own colour. -/
structure ShowsColors (settings : Settings) (langs : List String) (layout : Layout)
    (owners : List (String × Color)) (text : String) : Prop where
  paints : Paints layout owners text.toList
  hasColor : ∀ owner ∈ owners, HasColor settings langs owner

section

variable {lines : Except Fault (List Line)} {picture : List Line}
  (h : ∀ lines', lines = .ok lines' → lines' = picture)

include h

theorem map_uncolored_renderLines (hlacks : ∀ line ∈ picture, LineLacks escapeChar line) :
    (lines.map (renderLines true)).map uncolored = lines.map (renderLines false) := by
  cases lines with
  | error fault => rfl
  | ok lines' =>
    obtain rfl := h lines' rfl
    exact congrArg Except.ok (uncolored_renderLines hlacks)

theorem paints_of_render {layout : Layout} {owners : List (String × Color)}
    (hpaints : PaintsFor layout owners picture) {text : String}
    (htext : lines.map (renderLines true) = .ok text) : Paints layout owners text.toList := by
  obtain ⟨lines', hlines, rfl⟩ := map_eq_ok_iff.mp htext
  rwa [h lines' hlines]

end

/-- **Colours change nothing but colour.**  Deleting the sequences that set colours from a chart of trials
gives the chart without colours, as long as titles and names have no escape characters.  When names have no
line ends either, no line has more than one part in a colour, which is what belongs to a language of this
colour. -/
theorem colors_change_only_color {settings : Settings} {trials : List Trial} (minSize : Option UInt64)
    (htrend : Lacks escapeChar settings.chart.trendTitle)
    (hbars : Lacks escapeChar settings.chart.barsTitle) (hnames : NamesLack escapeChar trials) :
    let trend := Trend.ofTrials settings trials minSize
    let bars := Bars.ofTrials settings trials
    ((trend.render true).map uncolored = trend.render false ∧
      (bars.render true).map uncolored = bars.render false) ∧
    (NamesLack '\n' trials →
      (∀ text, trend.render true = .ok text →
        ShowsColors settings (trend.series.map (·.lang)) trend.layout trend.owners text) ∧
      ∀ text, bars.render true = .ok text →
        ShowsColors settings (bars.series.map (·.lang)) bars.layout bars.owners text) := by
  intro trend bars
  have hescape := Text.isControl_escapeChar
  refine ⟨⟨?_, ?_⟩, fun hends => ?_⟩
  · refine map_uncolored_renderLines (fun _ => Trend.eq_picture_of_lines) ?_
    exact Trend.lineLacks_picture hescape htrend (Trend.seriesLacks_of_names hescape hnames)
  · refine map_uncolored_renderLines (fun _ => Bars.eq_picture_of_lines) ?_
    exact Bars.lineLacks_picture hescape hbars (Bars.lacks_of_mem_names hnames)
      (Bars.lacks_of_mem_series hnames)
  have hall : ∀ c ∈ dividers, NamesLack c trials :=
    fun c hc => namesLack_of_mem_dividers hc hnames hends
  have htrend' : PaintsFor trend.layout trend.owners trend.picture :=
    Trend.paintsFor_picture htrend fun c hc =>
      Trend.seriesLacks_of_names (Text.isControl_of_mem_dividers hc) (hall c hc)
  have hbars' : PaintsFor bars.layout bars.owners bars.picture :=
    Bars.paintsFor_picture hbars (fun c hc => Bars.lacks_of_mem_names (hall c hc))
      fun c hc => Bars.lacks_of_mem_series (hall c hc)
  constructor
  · intro text htext
    exact ⟨paints_of_render (fun _ => Trend.eq_picture_of_lines) htrend' htext,
      Trend.hasColor_of_mem_owners⟩
  · intro text htext
    exact ⟨paints_of_render (fun _ => Bars.eq_picture_of_lines) hbars' htext,
      Bars.hasColor_of_mem_owners⟩

/-- Names that are the ends of sequences, or have a blank at their end. -/
theorem colors_change_only_color_sequence_names :
    let trials : List Trial := [⟨"[91m", .size 5, .ofNat 1⟩, ⟨"jlox", .size 5, .ofNat 2⟩,
      ⟨"jlox", .benchmark "0;1m ", .ofNat 3⟩]
    let trend := Trend.ofTrials .default trials none
    let bars := Bars.ofTrials .default trials
    NamesLack escapeChar trials ∧ NamesLack '\n' trials ∧
    trend.owners = [("[91m", .red), ("jlox", .blue), ("[91m", .red), ("jlox", .blue)] ∧
    (∃ text, trend.render true = .ok text ∧ trend.render false = .ok (uncolored text) ∧
      ShowsColors .default ["[91m", "jlox"] trend.layout trend.owners text) ∧
    ∃ text, bars.render true = .ok text ∧ bars.render false = .ok (uncolored text) ∧
      ShowsColors .default ["[91m", "jlox"] bars.layout bars.owners text := by
  intro trials trend bars
  have hescapes : NamesLack escapeChar trials := by
    unfold NamesLack Lacks
    decide
  have hends : NamesLack '\n' trials := by
    unfold NamesLack Lacks
    decide
  have htrend : trend.render true = .ok (renderLines true trend.picture) :=
    (Trend.render_eq_ok_iff (Trend.isSound_ofTrials _ _ _)).mpr
      ⟨⟨by decide +kernel, by decide +kernel⟩, .inl (by decide), rfl⟩
  have hbars : bars.render true = .ok (renderLines true bars.picture) :=
    (Bars.render_eq_ok_iff (Bars.isSound_ofTrials _ _)).mpr
      ⟨⟨by decide +kernel, by decide +kernel⟩, rfl⟩
  have htrendTitle : Lacks escapeChar Settings.default.chart.trendTitle := by
    unfold Lacks
    decide
  have hbarsTitle : Lacks escapeChar Settings.default.chart.barsTitle := by
    unfold Lacks
    decide
  obtain ⟨⟨htrend', hbars'⟩, hcolors⟩ := colors_change_only_color none htrendTitle hbarsTitle hescapes
  obtain ⟨htrendColors, hbarsColors⟩ := hcolors hends
  rw [htrend] at htrend'
  rw [hbars] at hbars'
  have htrendLangs : trend.series.map (·.lang) = ["[91m", "jlox"] := by decide +kernel
  have hbarsLangs : bars.series.map (·.lang) = ["[91m", "jlox"] := by decide +kernel
  refine ⟨hescapes, hends, by decide +kernel, ⟨_, htrend, htrend'.symm, ?_⟩, _, hbars, hbars'.symm, ?_⟩
  · exact htrendLangs ▸ htrendColors _ htrend
  · exact hbarsLangs ▸ hbarsColors _ hbars

end TimeTrials.Chart
