import TimeTrials.Proofs.Chart.Rendering
import TimeTrials.Proofs.Chart.Scale
import TimeTrials.Proofs.Number.Fixed

/-!
# The lengths of bars

A bar is as long as its value is high on the axis.  Its blocks are the columns that `cell` counts off on a
plot that is one column wider, so that the end of the axis is one past the last column and a bar that
reaches it fills the plot.  A value above zero that is rounded to no column gets one block all the same.

All of this goes by heights, so that it makes no difference whether a mean is finite.  Only a value that is
finite and ends the axis is known to be its own quotient, and has a bar of the whole width.

* `length_eq_zero`, `length_pos`, `length_le`, `length_mono`, `length_self`: how many blocks a bar has.
* `count_block_bar`: and how many of them are seen in the row, the value after the bar having none.
* `bar_lengths_are_faithful`: charts of trials.
-/

namespace TimeTrials.Chart

open Number (Binary64 Magnitude)
open Number.Binary64
open Text (flushLeft repeated)

namespace Bars

/-! ## Lengths -/

section

variable {v w scale : Binary64} {width : Nat}

theorem length_eq_zero (h : v.height = 0) : length v scale width = 0 := by
  have hlt : ¬ zero.lt v = true := by
    rw [zero_lt_iff, h]
    exact Nat.lt_irrefl 0
  unfold length
  rw [if_neg hlt, cell_eq_zero h]

theorem length_eq_max (h : 0 < v.height) :
    length v scale width = Nat.max (cell v scale (width + 1)) 1 := by
  unfold length
  rw [if_pos (zero_lt_iff.mpr h)]

theorem length_pos (h : 0 < v.height) : 1 ≤ length v scale width := by
  rw [length_eq_max h]
  exact Nat.le_max_right _ _

theorem length_le (h₀ : width ≠ 0) : length v scale width ≤ width := by
  have hcell : cell v scale (width + 1) < width + 1 := cell_lt v scale (Nat.succ_ne_zero width)
  rcases Nat.eq_zero_or_pos v.height with hzero | hpos
  · rw [length_eq_zero hzero]
    exact Nat.zero_le width
  · rw [length_eq_max hpos]
    exact Nat.max_le.mpr ⟨Nat.le_of_lt_succ hcell, Nat.pos_of_ne_zero h₀⟩

/-- The correction for values that are rounded to no column does not turn lengths around: what is higher
than such a value is corrected as well, or has a column. -/
theorem length_mono (h : v.height ≤ w.height) : length v scale width ≤ length w scale width := by
  rcases Nat.eq_zero_or_pos v.height with hzero | hpos
  · rw [length_eq_zero hzero]
    exact Nat.zero_le _
  · have hcell := cell_mono h scale (width + 1)
    rw [length_eq_max hpos, length_eq_max (Nat.lt_of_lt_of_le hpos h)]
    exact Nat.max_le.mpr ⟨hcell.trans (Nat.le_max_left _ _), Nat.le_max_right _ _⟩

/-- The bar of a finite value that ends the axis fills the plot. -/
theorem length_self (hfinite : v.isFinite = true) (hpos : 0 < v.height) (h₀ : width ≠ 0)
    (hwidth : width ≤ Nat.pow 2 53) : length v v width = width := by
  obtain ⟨m, rfl⟩ := exists_of_height_pos hpos
  have hm : m.isInfinite = false := (Bool.not_eq_true' _).mp hfinite
  have hlast : cell (.signed false m) (.signed false m) (width + 1) = width :=
    cell_self hm hpos.ne' hwidth
  rw [length_eq_max hpos, hlast]
  exact Nat.max_eq_left (Nat.pos_of_ne_zero h₀)

end

/-! ## Blocks -/

/-- How many blocks are drawn for a value after the edge of the plot. -/
def blocks (chart : Bars) (value : Binary64) : Nat :=
  (bar chart.layout (some value)).toList.count block

/-- The means that a chart shows. -/
def means (chart : Bars) : List Binary64 :=
  chart.series.flatMap fun series => series.values.filterMap id

section

variable {chart : Bars}

theorem scale_eq (chart : Bars) : chart.scale = scaleOf chart.means := rfl

theorem notMem_block_fixed (x : Binary64) (places : Nat) : block ∉ (x.fixed places).toList := by
  intro h
  have hsize : block.utf8Size = 1 := utf8Size_of_mem_fixed h
  exact absurd hsize (by decide)

/-- The value after a bar has no blocks, so the ones that are seen are those of the bar. -/
theorem count_block_bar (layout : Layout) (value : Binary64) :
    (bar layout (some value)).toList.count block = length value layout.scale layout.width := by
  rw [bar, repeated]
  simp only [String.toList_append, String.toList_ofList, List.count_append, List.count_replicate_self]
  rw [List.count_eq_zero_of_not_mem (notMem_block_fixed value 4)]
  rfl

theorem blocks_eq (chart : Bars) (value : Binary64) :
    chart.blocks value = length value chart.scale chart.width :=
  count_block_bar chart.layout value

/-- What is drawn for a value is its blocks, and the value. -/
theorem bar_eq_blocks (chart : Bars) (value : Binary64) : bar chart.layout (some value) =
    repeated (chart.blocks value) block ++ " " ++ value.fixed 4 := by
  rw [bar, blocks_eq]
  rfl

/-- It is drawn in the row of the value, after the edge of the plot. -/
theorem barRow_eq_blocks {series : BarSeries} {category : Nat} {value : Binary64}
    (h : series.values[category]? = some (some value)) (label : String) :
    barRow chart.layout label category series =
      .ok [.plain (flushLeft chart.layout.labelWidth label ++ " "),
        .painted series.color (flushLeft chart.layout.langWidth series.lang ++ " │"
          ++ (repeated (chart.blocks value) block ++ " " ++ value.fixed 4))] := by
  rw [barRow, h, ← bar_eq_blocks]
  rfl

/-- No step towards it goes wrong. -/
theorem tryBar_eq_blocks (hwidth : chart.width ≤ Nat.pow 2 53) (value : Binary64) :
    tryBar chart.layout (some value) =
      .ok (repeated (chart.blocks value) block ++ " " ++ value.fixed 4) := by
  rw [tryBar_eq_ok hwidth, bar_eq_blocks]

/-- The largest mean ends the axis, if it is above zero. -/
theorem scale_eq_of_largest {v : Binary64} (hmem : v ∈ chart.means)
    (hlargest : ∀ w ∈ chart.means, w.le v = true) (hpos : 0 < v.height) : chart.scale = v := by
  rw [scale_eq]
  exact scaleOf_eq_of_largest hmem hpos fun w hw => height_le_of_le (hlargest w hw)

end

end Bars

/-- **Bars are as long as their values are high.**  A value is drawn in its row by its blocks, and none of
the steps towards them goes wrong.  A value of zero has no blocks, a value above zero has
at least one and at most as many as the plot is wide, and a higher value has no fewer; whether a value is
finite does not matter.  The largest mean is written at the end of the axis if it is above zero, and its bar
fills the plot if it is finite too. -/
theorem bar_lengths_are_faithful {settings : Settings} (hvalid : settings.validate = .ok ())
    (hwidth : settings.chart.width ≤ Nat.pow 2 53) (trials : List Trial) :
    let chart := Bars.ofTrials settings trials
    let width := settings.chart.width
    (∀ (series : BarSeries) (category : Nat) (label : String) (v : Binary64),
      series.values[category]? = some (some v) →
        Bars.barRow chart.layout label category series =
          .ok [.plain (flushLeft chart.layout.labelWidth label ++ " "),
            .painted series.color (flushLeft chart.layout.langWidth series.lang ++ " │"
              ++ (repeated (chart.blocks v) block ++ " " ++ v.fixed 4))]) ∧
    (∀ v, Bars.tryBar chart.layout (some v) =
      .ok (repeated (chart.blocks v) block ++ " " ++ v.fixed 4)) ∧
    (∀ v, v = .zero ∨ v = .negativeZero → chart.blocks v = 0) ∧
    (∀ v, Binary64.zero.lt v = true → 1 ≤ chart.blocks v ∧ chart.blocks v ≤ width) ∧
    (∀ v w, v.le w = true → chart.blocks v ≤ chart.blocks w) ∧
    ∀ v ∈ chart.means, (∀ w ∈ chart.means, w.le v = true) → Binary64.zero.lt v = true →
      axisEnd chart.layout.scale = v.fixed 3 ∧ (v.isFinite = true → chart.blocks v = width) := by
  intro chart width
  have h₀ : width ≠ 0 := (Settings.validate_eq_ok_iff.mp hvalid).width_ne_zero
  refine ⟨fun series category label v hv => Bars.barRow_eq_blocks hv label,
    Bars.tryBar_eq_blocks hwidth, fun v hv => ?_, fun v hv => ?_, fun v w hle => ?_,
    fun v hmem hlargest hv => ?_⟩
  · have hheight : v.height = 0 := by rcases hv with rfl | rfl <;> rfl
    rw [Bars.blocks_eq]
    exact Bars.length_eq_zero hheight
  · rw [Bars.blocks_eq]
    exact ⟨Bars.length_pos (zero_lt_iff.mp hv), Bars.length_le h₀⟩
  · rw [Bars.blocks_eq, Bars.blocks_eq]
    exact Bars.length_mono (height_le_of_le hle)
  · have hpos := zero_lt_iff.mp hv
    have hscale : chart.scale = v := Bars.scale_eq_of_largest hmem hlargest hpos
    refine ⟨congrArg axisEnd hscale, fun hfinite => ?_⟩
    rw [Bars.blocks_eq, hscale]
    exact Bars.length_self hfinite hpos h₀ hwidth

/-- A time of zero, a time that is half of the longest one, and the longest one. -/
theorem bar_lengths_are_faithful_half :
    let trials : List Trial := [⟨"jlox", .benchmark "zoo", .ofNat 2⟩,
      ⟨"rubylox", .benchmark "zoo", .ofNat 1⟩, ⟨"rubylox", .benchmark "equality", .zero⟩]
    let chart := Bars.ofTrials Settings.default trials
    chart.blocks .zero = 0 ∧
    1 ≤ chart.blocks (.ofNat 1) ∧ chart.blocks (.ofNat 1) ≤ chart.blocks (.ofNat 2) ∧
    chart.blocks (.ofNat 2) = 50 ∧ axisEnd chart.layout.scale = (Binary64.ofNat 2).fixed 3 ∧
    chart.blocks (.ofNat 1) = 25 := by
  intro trials chart
  obtain ⟨-, -, hzero, hpos, hmono, hlargest⟩ :=
    @bar_lengths_are_faithful Settings.default rfl (by decide) trials
  have hmeans : chart.means = [.ofNat 2, .ofNat 1, .zero] := by decide +kernel
  obtain ⟨hend, hfull⟩ := hlargest (.ofNat 2) (by rw [hmeans]; simp)
    (by rw [hmeans]; decide +kernel) (by decide +kernel)
  exact ⟨hzero .zero (.inl rfl), (hpos (.ofNat 1) (by decide +kernel)).1,
    hmono _ _ (by decide +kernel), hfull (by decide +kernel), hend, by decide +kernel⟩

end TimeTrials.Chart
