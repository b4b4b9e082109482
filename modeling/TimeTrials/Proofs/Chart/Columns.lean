import TimeTrials.Chart.Trend
import TimeTrials.Proofs.Aggregates

/-!
# Columns on the value axis

`cell` says where a value is drawn.  Here the same column is worked out step by step, with every step
that could go wrong on the way: one is taken from the width, the quotient is rounded, it is held between
zero and the last column, which have to be in order, and it is cut to an index (`tryCell`).

* `tryCell_eq_ok`: on a plot that has columns, and not more of them than binary64 can count, no step goes
  wrong, and the result is `cell`.
* `cell_lt`: the column is on the plot, whatever the value and the scale are.
* `cell_mono`: columns are in the order of the heights of what is drawn.
* `whiskerOf_low_le_high`: so the near end of a whisker is not beyond its far end.

Nothing is asked of the times: the only thing known about an aggregate is that its deviation has no minus
sign, and this holds of any samples.
-/

namespace TimeTrials.Chart

open Number (Binary64 Magnitude one)
open Number.Binary64

/-- What can go wrong while a chart is laid out. -/
inductive Mishap where
  /-- Text is set in a column that is wider than the limit. -/
  | wideColumn (width : Nat)
  /-- The last column is asked for where there is none. -/
  | noColumns
  /-- A number is to be held between bounds that are not in order. -/
  | crossedBounds (low high : Binary64)
  /-- The cells from `start` up to `stop` are asked for in a row of `length` cells. -/
  | badRange (start stop length : Nat)
  /-- An entry is asked for that a list of `length` entries does not have. -/
  | badIndex (index length : Nat)
  deriving DecidableEq

/-! ## Step by step -/

/-- The largest index of a 64-bit machine. -/
def largestIndex : Nat := Nat.pow 2 64 - 1

/-- The nearest whole number, with a half rounded away from zero. -/
def rounded : Binary64 → Binary64
  | .nan => .nan
  | .signed negative m =>
    if m.isInfinite then .signed negative m
    else nearest negative ((m.units + one / 2) / one * one) 1

/-- The number between two bounds that is nearest to the given one; a NaN stays what it is. -/
def hold (low high x : Binary64) : Except Mishap Binary64 :=
  if low.le high then .ok (if x.lt low then low else if high.lt x then high else x)
  else .error (.crossedBounds low high)

/-- The index that a number is cut to. -/
def indexOf : Binary64 → Nat
  | .signed false m => if m.isInfinite then largestIndex else min largestIndex (m.units / one)
  | _ => 0

/-- The column of a value, step by step. -/
def tryCell (value scale : Binary64) (width : Nat) : Except Mishap Nat :=
  if scale.le .zero then .ok 0
  else if width = 0 then .error .noColumns
  else do
    let last := Binary64.ofNat (width - 1)
    let held ← hold .zero last (rounded ((value.div scale).mul last))
    return indexOf held

/-! ## Holding a number on the plot -/

theorem lt_positive (a b : Magnitude) :
    lt (.signed false a) (.signed false b) = decide (a.rank < b.rank) := by
  simp [lt, position]

theorem not_lt_zero (m : Magnitude) : lt (.signed false m) .zero = false := by
  simp [zero, lt_positive, Magnitude.zero]

theorem zero_le_ofNat (n : Nat) : zero.le (ofNat n) = true := by
  simp [le, position, zero, ofNat, nearest, Magnitude.zero]

theorem indexOf_zero : indexOf .zero = 0 := by
  have hfinite : Magnitude.zero.isInfinite = false := rfl
  have hunits : Magnitude.zero.units = 0 := rfl
  rw [indexOf.eq_def, zero]
  simp only [hfinite, hunits, Nat.zero_div, Nat.min_zero, Bool.false_eq_true, if_false]

/-- Numbers below zero are held at zero. -/
theorem indexOf_hold_negative (m : Magnitude) (high : Binary64) (hhigh : zero.le high = true) :
    ∃ y, hold .zero high (.signed true m) = .ok y ∧ indexOf y = 0 := by
  rw [hold, if_pos hhigh]
  split_ifs with hlow habove
  · exact ⟨.zero, rfl, indexOf_zero⟩
  · refine absurd habove ?_
    cases high with
    | nan => simp [lt, position]
    | signed negative b =>
      cases negative with
      | true => simp_all [le, lt, position, zero, Magnitude.zero]
      | false =>
        have hle : -(m.rank : Int) ≤ b.rank := by omega
        simp [lt, position, hle]
  · exact ⟨_, rfl, rfl⟩

theorem hold_positive (n : Nat) (m : Magnitude) :
    hold .zero (ofNat n) (.signed false m) =
      .ok (if (Magnitude.nearest (n * one) 1).rank < m.rank then ofNat n else .signed false m) := by
  rw [hold, if_pos (zero_le_ofNat n), not_lt_zero]
  simp only [ofNat, nearest, lt_positive, decide_eq_true_eq, Bool.false_eq_true, if_false]

section

variable {n : Nat} (hn : n ≤ Nat.pow 2 53)
include hn

theorem isInfinite_of_count : (Magnitude.nearest (n * one) 1).isInfinite = false :=
  isInfinite_nearest_mul_one (hn.trans (by decide))

theorem indexOf_ofNat : indexOf (ofNat n) = n := by
  have hle : n ≤ largestIndex := hn.trans (by decide)
  rw [ofNat, nearest, indexOf, isInfinite_of_count hn, Number.units_nearest_mul_one hn,
    Nat.mul_div_cancel n Number.one_pos, if_neg (by decide), Nat.min_eq_right hle]

/-- A whole number is held at `n`, which is exact, and cut to an index without loss. -/
theorem indexOf_hold_whole (k : Nat) : ∃ y,
    hold .zero (ofNat n) (nearest false (k * one) 1) = .ok y ∧ indexOf y = min n k := by
  have hexact := Number.units_nearest_mul_one hn
  rw [nearest, hold_positive]
  refine ⟨_, rfl, ?_⟩
  split_ifs with habove
  · have hlt : n < k := by
      by_contra hle
      have hmono : Number.nearestRank (k * one) 1 ≤ Number.nearestRank (n * one) 1 :=
        Number.nearestRank_mono_left Nat.one_pos
          (Nat.mul_le_mul_right one (Nat.not_lt.mp hle))
      exact absurd habove (Nat.not_lt.mpr hmono)
    rw [indexOf_ofNat hn, Nat.min_eq_left hlt.le]
  · have hrank : (Magnitude.nearest (k * one) 1).rank ≤ (Magnitude.nearest (n * one) 1).rank :=
      Nat.not_lt.mp habove
    rcases Nat.lt_or_ge k n with hlt | hge
    · exact (indexOf_ofNat (hlt.le.trans hn)).trans (Nat.min_eq_right hlt.le).symm
    · have heq : Magnitude.nearest (k * one) 1 = Magnitude.nearest (n * one) 1 := by
        have hmono : Number.nearestRank (n * one) 1 ≤ Number.nearestRank (k * one) 1 :=
          Number.nearestRank_mono_left Nat.one_pos (Nat.mul_le_mul_right one hge)
        have hranks : Number.nearestRank (k * one) 1 = Number.nearestRank (n * one) 1 :=
          Nat.le_antisymm hrank hmono
        simp only [Magnitude.nearest, hranks]
      rw [heq, Nat.min_eq_left hge]
      exact indexOf_ofNat hn

/-- Rounding, holding and cutting come to what `roundTo` does at once. -/
theorem indexOf_hold_rounded (x : Binary64) :
    ∃ y, hold .zero (ofNat n) (rounded x) = .ok y ∧ indexOf y = x.roundTo n := by
  cases x with
  | nan =>
    refine ⟨.nan, ?_, rfl⟩
    simp [rounded, hold, zero_le_ofNat, lt, position]
  | signed negative m =>
    cases negative with
    | true =>
      rw [rounded]
      split_ifs
      · exact indexOf_hold_negative m _ (zero_le_ofNat n)
      · exact indexOf_hold_negative _ _ (zero_le_ofNat n)
    | false =>
      rw [rounded, roundTo]
      split_ifs with hinf
      · have hlt : (Magnitude.nearest (n * one) 1).rank < m.rank := by
          rw [Magnitude.isInfinite_iff.mp hinf]
          exact Magnitude.rank_lt_of_finite (isInfinite_of_count hn)
        rw [hold_positive, if_pos hlt]
        exact ⟨_, rfl, indexOf_ofNat hn⟩
      · exact indexOf_hold_whole hn _

end

/-- Where the plot has columns, no step towards a column goes wrong. -/
theorem tryCell_eq_ok (value scale : Binary64) {width : Nat} (h₀ : width ≠ 0)
    (h : width - 1 ≤ Nat.pow 2 53) : tryCell value scale width = .ok (cell value scale width) := by
  rw [tryCell, cell]
  split_ifs with hscale
  · rfl
  · obtain ⟨y, hy, hindex⟩ :=
      indexOf_hold_rounded h ((value.div scale).mul (.ofNat (width - 1)))
    simp only [hy, ← hindex]
    rfl

/-! ## Where columns are -/

theorem cell_lt (value scale : Binary64) {width : Nat} (h₀ : width ≠ 0) :
    cell value scale width < width := by
  rw [cell]
  split_ifs
  · exact Nat.pos_of_ne_zero h₀
  · have hle := roundTo_le (width - 1) ((value.div scale).mul (.ofNat (width - 1)))
    omega

/-- Columns are in the order of heights, on any scale. -/
theorem cell_mono {x y : Binary64} (h : x.height ≤ y.height) (scale : Binary64) (width : Nat) :
    cell x scale width ≤ cell y scale width := by
  rw [cell, cell]
  split_ifs with hscale
  · exact le_rfl
  · refine roundTo_mono _ (height_mul_mono _ ?_)
    cases scale with
    | nan => cases x <;> cases y <;> exact le_rfl
    | signed negative m =>
      cases negative with
      | true => simp [le, position, zero, Magnitude.zero] at hscale
      | false =>
        refine height_div_mono ?_ h
        simpa [le, position, zero, Magnitude.zero] using hscale

/-- The near end of a whisker is not beyond its far end. -/
theorem whiskerOf_low_le_high {aggregate : Aggregate} (h : aggregate.deviation.IsUnsigned)
    (scale : Binary64) (width : Nat) :
    (Trend.whiskerOf aggregate scale width).low ≤ (Trend.whiskerOf aggregate scale width).high := by
  refine cell_mono ?_ scale width
  rw [height_max_zero]
  exact height_sub_le_height_add aggregate.mean h.eq_nan_or

end TimeTrials.Chart
