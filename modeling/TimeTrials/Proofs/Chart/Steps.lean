import TimeTrials.Proofs.Chart.Columns

/-!
# Steps that fail on widths only

A chart is made of many steps that could each go wrong, and it is to be seen that only one kind does:
text is set in a column that is wider than the limit.  What comes of such steps is told by `Yields`: a
value if all columns fit, and otherwise the report of a column that does not.  It is closed under doing
one thing after another, so no step needs to know which of the others fails first.

* `Yields.bind`: steps in a row.
* `yields_inColumn`: a text in a column.
* `Layout.Fits`, `Layout.yields_tryAxisLines`: the two columns that decide, which are those of the axis.
* `FailsOnlyOnWidths`: what this means for a chart and for its text.
* `Layout.yields_tryChart`: the columns of names come first, and when they fit the rows can be laid out.
-/

namespace TimeTrials.Chart

open Number (Binary64)
open Text (centred repeated spaces)

/-! ## Steps that fail on widths only -/

/-- What steps come to: a value if everything fits, and otherwise a column that is too wide. -/
structure Yields {α : Type} (steps : Except Mishap α) (value : α) (fits : Prop) : Prop where
  of_fits : fits → steps = .ok value
  of_not_fits : ¬fits → ∃ width, widthLimit < width ∧ steps = .error (.wideColumn width)

namespace Yields

variable {α β : Type} {steps : Except Mishap α} {a : α} {b : β} {p q : Prop}

theorem of_eq_ok (h : steps = .ok a) : Yields steps a True :=
  ⟨fun _ => h, fun hnot => absurd trivial hnot⟩

theorem pure : Yields (pure a) a True := of_eq_ok rfl

theorem congr (h : Yields steps a p) (hpq : p ↔ q) : Yields steps a q :=
  ⟨fun hq => h.of_fits (hpq.mpr hq), fun hq => h.of_not_fits fun hp => hq (hpq.mp hp)⟩

/-- One thing after the other.  What comes second need only be looked at when the first one fits. -/
theorem bind {next : α → Except Mishap β} (h : Yields steps a p) (h' : p → Yields (next a) b q) :
    Yields (steps >>= next) b (p ∧ q) := by
  constructor
  · rintro ⟨hp, hq⟩
    rw [h.of_fits hp]
    exact (h' hp).of_fits hq
  · intro hnot
    by_cases hp : p
    · rw [h.of_fits hp]
      exact (h' hp).of_not_fits fun hq => hnot ⟨hp, hq⟩
    · obtain ⟨width, hwidth, heq⟩ := h.of_not_fits hp
      refine ⟨width, hwidth, ?_⟩
      rw [heq]
      rfl

end Yields

/-- A text set in a column of the given width. -/
def inColumn (width : Nat) (text : String) : Except Mishap String :=
  if widthLimit < width then .error (.wideColumn width) else .ok text

theorem inColumn_eq_ok {width : Nat} (h : width ≤ widthLimit) (text : String) :
    inColumn width text = .ok text := by
  rw [inColumn, if_neg (Nat.not_lt.mpr h)]

theorem yields_inColumn (width : Nat) (text : String) :
    Yields (inColumn width text) text (width ≤ widthLimit) := by
  refine ⟨fun h => inColumn_eq_ok h text, fun hnot => ?_⟩
  have hwide : widthLimit < width := Nat.not_le.mp hnot
  exact ⟨width, hwide, if_pos hwide⟩

/-! ## The axis -/

namespace Layout

/-- The two columns that could be too wide are not. -/
def Fits (layout : Layout) : Prop :=
  layout.indent ≤ widthLimit ∧ axisMiddle layout.width layout.scale ≤ widthLimit

variable {layout : Layout}

theorem check_of_fits (h : layout.Fits) : layout.check = .ok () := by
  rw [check, if_neg]
  rintro (hwide | hwide)
  · exact absurd h.1 (Nat.not_le.mpr hwide)
  · exact absurd h.2 (Nat.not_le.mpr hwide)

theorem check_of_not_fits (h : ¬layout.Fits) : layout.check = .error .tooWide := by
  rw [check, if_pos]
  rwa [Fits, not_and_or, Nat.not_le, Nat.not_le] at h

/-- The two columns of names are not too wide. -/
def NamesFit (layout : Layout) : Prop :=
  layout.labelWidth ≤ widthLimit ∧ layout.langWidth ≤ widthLimit

/-- The columns of names are part of the one before the plot. -/
theorem Fits.namesFit (h : layout.Fits) : layout.NamesFit := by
  have hindent : layout.labelWidth + layout.langWidth + 2 ≤ widthLimit := h.1
  constructor <;> omega

/-- The line over the plot, with the name of the labels. -/
def header (layout : Layout) (label : String) : Line :=
  [.plain (label ++ " " ++ spaces layout.langWidth ++ " │")]

/-- The line over the plot, step by step. -/
def tryHeader (layout : Layout) (label : String) : Except Mishap Line := do
  let label ← inColumn layout.labelWidth label
  let blank ← inColumn layout.langWidth (spaces layout.langWidth)
  return [.plain (label ++ " " ++ blank ++ " │")]

theorem yields_tryHeader (layout : Layout) (label : String) :
    Yields (layout.tryHeader label) (layout.header label) layout.NamesFit := by
  refine .congr (.bind (yields_inColumn _ _) fun _ => .bind (yields_inColumn _ _) fun _ => .pure) ?_
  rw [and_true, NamesFit]

/-- The axis, step by step. -/
def tryAxisLines (layout : Layout) : Except Mishap (List Line) := do
  let corner ← inColumn layout.indent (spaces layout.indent)
  let before ← inColumn layout.indent (spaces layout.indent)
  let middle ← inColumn (axisMiddle layout.width layout.scale)
    (centred (axisMiddle layout.width layout.scale) axisLabel)
  return [[.plain (corner ++ "└" ++ repeated layout.width '─')],
    [.plain (before ++ " 0" ++ middle ++ axisEnd layout.scale)]]

theorem yields_tryAxisLines (layout : Layout) :
    Yields layout.tryAxisLines layout.axisLines layout.Fits := by
  refine .congr (.bind (yields_inColumn _ _) fun _ => .bind (yields_inColumn _ _) fun _ =>
    .bind (yields_inColumn _ _) fun _ => .pure) ?_
  rw [and_true, ← and_assoc, and_self, Fits]

/-- The lines of a chart, step by step. -/
def tryChart (layout : Layout) (title label : String) (rows : Except Mishap (List Line))
    (legend : List Line) : Except Mishap (List Line) := do
  let header ← layout.tryHeader label
  let rows ← rows
  let axis ← layout.tryAxisLines
  return [[.plain title], [], header] ++ rows ++ axis ++ [[]] ++ legend

/-- When names fit, the rows are laid out; when the axis fits as well, so is the chart. -/
theorem yields_tryChart {layout : Layout} {title label : String} {steps : Except Mishap (List Line)}
    (rows : List Line) {legend : List Line} (h : layout.NamesFit → steps = .ok rows) :
    Yields (layout.tryChart title label steps legend)
      ([[.plain title], [], layout.header label] ++ rows ++ layout.axisLines ++ [[]] ++ legend)
      layout.Fits := by
  refine .congr (.bind (yields_tryHeader _ _) fun hnames => .bind (.of_eq_ok (h hnames)) fun _ =>
    .bind (yields_tryAxisLines _) fun _ => .pure) ?_
  rw [true_and, and_true]
  exact and_iff_right_of_imp Fits.namesFit

end Layout

/-! ## Charts -/

/-- Laying out a chart only fails on a column that is too wide, which is the one before the plot or the
one under it; and what is shown is what the steps come to. -/
structure FailsOnlyOnWidths (layout : Layout) (steps : Except Mishap (List Line))
    (render : Bool → Except Fault String) : Prop where
  mishap_eq : ∀ mishap, steps = .error mishap →
    ∃ width, widthLimit < width ∧ mishap = .wideColumn width
  fails_iff : (∃ mishap, steps = .error mishap) ↔
    widthLimit < layout.labelWidth + layout.langWidth + 2 ∨
      widthLimit < layout.width - (1 + (axisEnd layout.scale).utf8ByteSize)
  render_eq : ∀ colored,
    render colored = (steps.mapError fun _ => .tooWide).map (renderLines colored)

/-- A chart with a wide column under its plot is not shown. -/
theorem FailsOnlyOnWidths.not_shown {layout : Layout} {steps : Except Mishap (List Line)}
    {render : Bool → Except Fault String} (h : FailsOnlyOnWidths layout steps render)
    (hwide : widthLimit < layout.width - (1 + (axisEnd layout.scale).utf8ByteSize)) :
    (∃ width, widthLimit < width ∧ steps = .error (.wideColumn width)) ∧
      ∀ colored, render colored = .error .tooWide := by
  obtain ⟨mishap, hsteps⟩ := h.fails_iff.mpr (.inr hwide)
  obtain ⟨width, hwidth, rfl⟩ := h.mishap_eq mishap hsteps
  refine ⟨⟨width, hwidth, hsteps⟩, fun colored => ?_⟩
  rw [h.render_eq, hsteps]
  rfl

theorem failsOnlyOnWidths {layout : Layout} {steps : Except Mishap (List Line)}
    {lines : Except Fault (List Line)} {picture : List Line}
    (hlines : layout.Fits → lines = .ok picture) (hwide : ¬layout.Fits → lines = .error .tooWide)
    (h : Yields steps picture layout.Fits) :
    FailsOnlyOnWidths layout steps fun colored => lines.map (renderLines colored) := by
  have hnot : ¬layout.Fits ↔ widthLimit < layout.labelWidth + layout.langWidth + 2 ∨
      widthLimit < layout.width - (1 + (axisEnd layout.scale).utf8ByteSize) := by
    rw [Layout.Fits, not_and_or, Nat.not_le, Nat.not_le]
    rfl
  by_cases hfits : layout.Fits
  · have hsteps := h.of_fits hfits
    rw [hsteps, hlines hfits]
    refine ⟨?_, ?_, fun _ => rfl⟩
    · intro mishap heq
      cases heq
    · refine iff_of_false ?_ fun hcontra => hnot.mpr hcontra hfits
      rintro ⟨mishap, heq⟩
      cases heq
  · obtain ⟨width, hwidth, hsteps⟩ := h.of_not_fits hfits
    rw [hsteps, hwide hfits]
    refine ⟨?_, iff_of_true ⟨_, rfl⟩ (hnot.mp hfits), fun _ => rfl⟩
    intro mishap heq
    cases heq
    exact ⟨width, hwidth, rfl⟩

end TimeTrials.Chart
