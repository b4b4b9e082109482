import TimeTrials.Proofs.Chart.Columns

/-!
# The end of the axis

An axis ends at the largest value that is plotted, or at zero if no value is above it.  The end is found
by going through the values once and keeping the larger of two numbers, so what is said about it here is
an induction from the last value (`scaleOf_append_singleton`).

* `exists_scaleOf`: the end has no minus sign, no value is higher, and it is one of the values unless it is
  zero.
* `scaleOf_eq_of_largest`: so a value above zero that none is higher than is the end.
* `isInfinite_scaleOf_iff`: the end is infinite just when a value is.
* `cell_eq_zero`, `cell_self`: what is not above zero is drawn in the first column, and the end in the last.
-/

namespace TimeTrials.Chart

open Number (Binary64 Magnitude one nearestRank)
open Number.Binary64

/-! ## The largest value -/

theorem scaleOf_append_singleton (values : List Binary64) (x : Binary64) :
    scaleOf (values ++ [x]) = (scaleOf values).max x := by
  rw [scaleOf, List.foldl_append]
  rfl

theorem exists_scaleOf (values : List Binary64) :
    ∃ m, scaleOf values = .signed false m ∧ (∀ x ∈ values, x.height ≤ m.rank) ∧
      (m.rank ≠ 0 → .signed false m ∈ values) := by
  induction values using List.reverseRecOn with
  | nil => exact ⟨.zero, rfl, by simp, fun h => absurd rfl h⟩
  | append_singleton values x ih =>
    obtain ⟨m, hm, hle, hmem⟩ := ih
    rw [scaleOf_append_singleton, hm, max_positive]
    by_cases hlt : m.rank < x.height
    · obtain ⟨a, rfl⟩ := exists_of_height_pos (Nat.zero_lt_of_lt hlt)
      rw [if_pos hlt]
      refine ⟨a, rfl, fun y hy => ?_, fun _ => by simp⟩
      rcases List.mem_append.mp hy with hbefore | hlast
      · exact (hle y hbefore).trans hlt.le
      · rw [List.mem_singleton.mp hlast]
        exact le_rfl
    · rw [if_neg hlt]
      refine ⟨m, rfl, fun y hy => ?_, fun hne => List.mem_append_left _ (hmem hne)⟩
      rcases List.mem_append.mp hy with hbefore | hlast
      · exact hle y hbefore
      · rw [List.mem_singleton.mp hlast]
        exact Nat.not_lt.mp hlt

section

variable {values : List Binary64}

/-- A value above zero that none is higher than is the end of the axis. -/
theorem scaleOf_eq_of_largest {v : Binary64} (hmem : v ∈ values) (hpos : 0 < v.height)
    (hlargest : ∀ x ∈ values, x.height ≤ v.height) : scaleOf values = v := by
  obtain ⟨m, hm, hle, hend⟩ := exists_scaleOf values
  obtain ⟨a, rfl⟩ := exists_of_height_pos hpos
  have hge : a.rank ≤ m.rank := hle _ hmem
  have hne : m.rank ≠ 0 := (Nat.lt_of_lt_of_le hpos hge).ne'
  have hrank : m.rank = a.rank := Nat.le_antisymm (hlargest _ (hend hne)) hge
  rw [hm, Magnitude.eq_of_rank_eq hrank]

/-- An end beyond zero is one of the values. -/
theorem scaleOf_mem (hpos : 0 < (scaleOf values).height) : scaleOf values ∈ values := by
  obtain ⟨m, hm, -, hend⟩ := exists_scaleOf values
  rw [hm] at hpos ⊢
  exact hend hpos.ne'

theorem isInfinite_scaleOf_iff {m : Magnitude} (hm : scaleOf values = .signed false m) :
    m.isInfinite = true ↔ .infinite false ∈ values := by
  obtain ⟨m', hm', hle, hend⟩ := exists_scaleOf values
  obtain rfl : m = m' := by
    rw [hm] at hm'
    injection hm'
  constructor
  · intro hinf
    have hmem := hend (Magnitude.rank_ne_zero_of_infinite hinf)
    rwa [signed_eq_infinite_iff.mpr hinf] at hmem
  · intro hmem
    have hge : Number.infinityRank ≤ m.rank := hle _ hmem
    exact Magnitude.isInfinite_iff.mpr (Nat.le_antisymm m.rank_le hge)

end

/-! ## The first column and the last -/

theorem cell_eq_zero {x : Binary64} (h : x.height = 0) (scale : Binary64) (width : Nat) :
    cell x scale width = 0 := by
  refine Nat.le_zero.mp ?_
  calc cell x scale width ≤ cell .nan scale width := cell_mono h.le scale width
    _ = 0 := by
      rw [cell]
      split_ifs <;> rfl

/-- What ends the axis is drawn in its last column. -/
theorem cell_self {m : Magnitude} (hfinite : m.isInfinite = false) (hm : m.rank ≠ 0) {width : Nat}
    (hwidth : width - 1 ≤ Nat.pow 2 53) :
    cell (.signed false m) (.signed false m) width = width - 1 := by
  have hscale : le (.signed false m) zero = false := by
    simpa [le, position, zero, Magnitude.zero] using hm
  have hlast : (Magnitude.nearest ((width - 1) * one) 1).isInfinite = false :=
    isInfinite_of_count hwidth
  rw [cell, hscale, if_neg (by decide), roundTo_eq_columnAt, ofNat, nearest, height_mul,
    height_div _ hm, height_positive, quotientHeight_self hfinite hm, productHeight_one hlast]
  exact columnAt_nearestRank hwidth

end TimeTrials.Chart
