import TimeTrials.Proofs.Chart.Rendering
import TimeTrials.Proofs.Chart.Scale

/-!
# Whiskers

The row of a whisker is drawn in five strokes that overlap, so what is seen of it depends on which of its
three columns are the same.  `IsWhisker` says what is seen, column by column, and leaves the cases out: the
marker is on top, an end is seen if the marker is not on it, and everything else is stem, line, or cut off.

The columns are in the order of the heights, and a deviation takes away from a mean and adds to it.  Two
things have to be kept in mind.  A deviation that is a NaN makes a NaN of the far end, which is drawn in the
first column and may leave the mean behind.  And so many times that their count is taken for infinity do
have such a deviation, but then the mean is in the first column itself (`height_mean_eq_zero_or`).

* `whiskerOf_low_le_mid`, `whiskerOf_mid_le_high`: the order of the columns.
* `isWhisker_text`: what is seen of a whisker whose columns are in order.
* `exists_high_eq_last`: the longest whisker reaches the last column.
* `whiskers_of_valid_times`: charts of trials.
-/

namespace TimeTrials.Chart

open Number (Binary64 Magnitude)
open Number.Binary64

namespace Trend

/-! ## Columns -/

section

variable {aggregate : Aggregate} (scale : Binary64) (width : Nat)

/-- The near end of a whisker is not beyond its mean. -/
theorem whiskerOf_low_le_mid (h : aggregate.deviation.IsUnsigned) :
    (whiskerOf aggregate scale width).low ≤ (whiskerOf aggregate scale width).mid := by
  refine cell_mono ?_ scale width
  rw [height_max_zero]
  rcases h.eq_nan_or with hnan | ⟨m, hm⟩
  · rw [hnan]
    cases aggregate.mean <;> exact Nat.zero_le _
  · rw [hm]
    exact height_sub_le_height aggregate.mean m

/-- The mean is not beyond the far end, unless the deviation is a NaN. -/
theorem whiskerOf_mid_le_high
    (h : aggregate.mean.height = 0 ∨ ∃ m, aggregate.deviation = .signed false m) :
    (whiskerOf aggregate scale width).mid ≤ (whiskerOf aggregate scale width).high := by
  refine cell_mono ?_ scale width
  rcases h with hzero | ⟨m, hm⟩
  · rw [hzero]
    exact Nat.zero_le _
  · rw [hm]
    exact height_le_height_add aggregate.mean m

end

/-! ## Rows -/

/-- What is seen of a whisker, from the first column to its far end. -/
structure IsWhisker (w : Whisker) (marker stem : Char) (text : String) : Prop where
  length_eq : text.length = w.high + 1
  mid : text.toList[w.mid]? = some marker
  low : w.low < w.mid → text.toList[w.low]? = some '├'
  high : w.mid < w.high → text.toList[w.high]? = some '┤'
  stem : ∀ i < w.low, text.toList[i]? = some stem
  line : ∀ i, w.low < i → i < w.high → i ≠ w.mid → text.toList[i]? = some '─'

/-- When the columns are in order, the far end is the last one that is not blank. -/
theorem isWhisker_text {w : Whisker} (hlow : w.low ≤ w.mid) (hhigh : w.mid ≤ w.high)
    (marker stem : Char) : IsWhisker w marker stem (w.text marker stem) := by
  have hlast : Nat.max w.mid w.high = w.high := Nat.max_eq_right hhigh
  have hchar : ∀ i ≤ w.high, (w.text marker stem).toList[i]? = some (w.char marker stem i) := by
    intro i hi
    have hlength : i < (rowOf (w.high + 1) (w.char marker stem)).length := by
      rw [length_rowOf]
      omega
    rw [Whisker.text, hlast, String.toList_ofList, List.getElem?_eq_getElem hlength, getElem_rowOf]
  refine ⟨?_, ?mid, ?low, ?high, ?before, ?between⟩
  · rw [Whisker.text, hlast, String.length_ofList, length_rowOf]
  case mid =>
    rw [hchar _ hhigh, Whisker.char, if_pos rfl]
  case low =>
    intro hlt
    rw [hchar _ (by omega), Whisker.char, if_neg (by omega), if_neg (by omega), if_pos rfl]
  case high =>
    intro hlt
    rw [hchar _ le_rfl, Whisker.char, if_neg (by omega), if_pos rfl]
  case before =>
    intro i hi
    rw [hchar i (by omega), Whisker.char, if_neg (by omega), if_neg (by omega), if_neg (by omega),
      if_pos hi]
  case between =>
    intro i hi hi' hne
    rw [hchar i (by omega), Whisker.char, if_neg hne, if_neg (by omega), if_neg (by omega),
      if_neg (by omega), if_pos hi']

/-! ## The longest whisker -/

theorem exists_high_eq_last {chart : Trend} (hpos : Binary64.zero.lt chart.scale = true)
    (hfinite : chart.scale.isFinite = true) {width : Nat} (hlast : width - 1 ≤ Nat.pow 2 53) :
    ∃ series ∈ chart.series, ∃ point ∈ series.points,
      (whiskerOf point.2 chart.scale width).high = width - 1 := by
  have hheight := zero_lt_iff.mp hpos
  obtain ⟨point, hpoint, hend⟩ := List.mem_map.mp (scaleOf_mem hheight)
  obtain ⟨series, hseries, hmem⟩ := List.mem_flatMap.mp hpoint
  refine ⟨series, hseries, point, hmem, ?_⟩
  have hfar : point.2.mean.add point.2.deviation = chart.scale := hend
  show cell (point.2.mean.add point.2.deviation) chart.scale width = width - 1
  rw [hfar]
  obtain ⟨m, hm⟩ := exists_of_height_pos hheight
  rw [hm] at hfinite hheight ⊢
  exact cell_self ((Bool.not_eq_true' _).mp hfinite) hheight.ne' hlast

end Trend

open Trend (IsWhisker tryWhisker whiskerOf)

/-- **The whiskers of a chart of valid times.**  The near end of a whisker, its mean and its far end are in
order and on the plot; it is drawn, and without a mishap, as `IsWhisker` says.  If the axis ends at a finite
number above zero, then a whisker reaches the last column. -/
theorem whiskers_of_valid_times {settings : Settings} (hvalid : settings.validate = .ok ())
    (hwidth : settings.chart.width ≤ Nat.pow 2 53) {trials : List Trial}
    (htimes : ∀ trial ∈ trials, isValidTime trial.time = true) (minSize : Option UInt64) :
    let chart := Trend.ofTrials settings trials minSize
    let width := settings.chart.width
    (∀ series ∈ chart.series, ∀ point ∈ series.points,
      let w := whiskerOf point.2 chart.scale width
      (w.low ≤ w.mid ∧ w.mid ≤ w.high ∧ w.high ≤ width - 1) ∧
      ∃ text, w.draw series.marker series.stem width = .ok text ∧
        tryWhisker series point.2 chart.scale width = .ok text ∧
        IsWhisker w series.marker series.stem text) ∧
    (Binary64.zero.lt chart.scale = true → chart.scale.isFinite = true →
      ∃ series ∈ chart.series, ∃ point ∈ series.points,
        (whiskerOf point.2 chart.scale width).high = width - 1) := by
  intro chart width
  have h₀ : width ≠ 0 := (Settings.validate_eq_ok_iff.mp hvalid).width_ne_zero
  have hlast : width - 1 ≤ Nat.pow 2 53 := (Nat.sub_le _ _).trans hwidth
  refine ⟨fun series hseries point hpoint => ?_,
    fun hpos hfinite => Trend.exists_high_eq_last hpos hfinite hlast⟩
  obtain ⟨hmarker, hdeviations⟩ := Trend.isSound_ofTrials settings trials minSize series hseries
  have hdeviation := hdeviations point hpoint
  obtain ⟨-, hsome⟩ := Trend.ofSamples?_of_mem_points hseries hpoint
  have hmean := Aggregate.height_mean_eq_zero_or hsome fun time htime => by
    obtain ⟨trial, htrial, rfl⟩ := Groups.exists_of_mem_timesOf htime
    exact htimes trial (List.mem_of_mem_filter htrial)
  have hlow := Trend.whiskerOf_low_le_mid chart.scale width hdeviation
  have hhigh := Trend.whiskerOf_mid_le_high chart.scale width hmean
  have hplot : (whiskerOf point.2 chart.scale width).high < width := cell_lt _ _ h₀
  exact ⟨⟨hlow, hhigh, Nat.le_sub_one_of_lt hplot⟩, _, Trend.draw_whiskerOf _ h₀ hdeviation _ _,
    Trend.tryWhisker_eq_ok hmarker hdeviation _ h₀ hlast, Trend.isWhisker_text hlow hhigh _ _⟩

/-- Two times, four and six, on a plot of eleven columns. -/
theorem whiskers_of_valid_times_four_six :
    let settings := { Settings.default with chart.width := 11 }
    let trials : List Trial := [⟨"jlox", .size 1, .ofNat 4⟩, ⟨"jlox", .size 1, .ofNat 6⟩]
    let chart := Trend.ofTrials settings trials none
    settings.validate = .ok () ∧ (∀ trial ∈ trials, isValidTime trial.time = true) ∧
    (∃ series ∈ chart.series, ∃ point ∈ series.points,
      (whiskerOf point.2 chart.scale 11).high = 10 ∧
      ∃ text, tryWhisker series point.2 chart.scale 11 = .ok text ∧
        IsWhisker (whiskerOf point.2 chart.scale 11) series.marker series.stem text) ∧
    (chart.series.flatMap fun series => series.points.map fun point =>
      (whiskerOf point.2 chart.scale 11).draw series.marker series.stem 11) =
        [.ok "━━━━━━├─●─┤"] := by
  intro settings trials chart
  have htimes : ∀ trial ∈ trials, isValidTime trial.time = true := by decide +kernel
  obtain ⟨hwhiskers, hlongest⟩ :=
    @whiskers_of_valid_times settings rfl (by decide) trials htimes none
  obtain ⟨series, hseries, point, hpoint, hhigh⟩ :=
    hlongest (by decide +kernel) (by decide +kernel)
  obtain ⟨-, text, -, htext, hseen⟩ := hwhiskers series hseries point hpoint
  exact ⟨rfl, htimes, ⟨series, hseries, point, hpoint, hhigh, text, htext, hseen⟩, by decide +kernel⟩

end TimeTrials.Chart
