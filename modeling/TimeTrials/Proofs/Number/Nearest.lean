import Mathlib.Tactic.Ring
import TimeTrials.Number.Binary64

/-!
# Rounding to the nearest rank

What `Number.Binary64` says about `nearestRank` in prose, proved.

* `nearestRank_mul_right`: the rank nearest to a quotient does not depend on how the quotient is
  written.
* `significand`, `log2_unitsOfRank`: a rank splits into a binade and 53 significant bits, and the
  binade can be read off the units alone.
* `nearestRank_unitsOfRank`, `Magnitude.nearest_units_mul`: the exact value of a magnitude rounds to
  that magnitude.
* `Magnitude.units_pos`: only zero has no units.
-/

namespace TimeTrials.Number

/-! ## Rounding depends on the quotient only -/

theorem roundHalfEven_mul_right (num den : Nat) {c : Nat} (hc : 0 < c) :
    roundHalfEven (num * c) (den * c) = roundHalfEven num den := by
  have lt : ∀ a b : Nat, a * c < b * c ↔ a < b := fun a b => Nat.mul_lt_mul_right hc
  rw [roundHalfEven, roundHalfEven, Nat.mul_div_mul_right _ _ hc, Nat.mul_mod_mul_right]
  simp only [← Nat.mul_assoc, lt]

/-- A whole number is not rounded. -/
theorem roundHalfEven_mul_self (n : Nat) {den : Nat} (hd : 0 < den) :
    roundHalfEven (n * den) den = n := by
  rw [roundHalfEven, Nat.mul_div_cancel _ hd, Nat.mul_mod_left]
  simp only [Nat.mul_zero, hd, if_true]

theorem nearestRank_mul_right (num den : Nat) {c : Nat} (hc : 0 < c) :
    nearestRank (num * c) (den * c) = nearestRank num den := by
  rw [nearestRank, nearestRank, Nat.mul_div_mul_right _ _ hc, Nat.mul_right_comm den c,
    roundHalfEven_mul_right _ _ hc]

theorem Magnitude.nearest_mul_right (num den : Nat) {c : Nat} (hc : 0 < c) :
    nearest (num * c) (den * c) = nearest num den := by
  rw [nearest, nearest]
  simp only [nearestRank_mul_right num den hc]

/-! ## A finite rank is nearest to its own value -/

/-- The significant bits of a rank, as a whole number. -/
def significand (rank : Nat) : Nat := rank - binade rank * Nat.pow 2 52

theorem unitsOfRank_eq (rank : Nat) :
    unitsOfRank rank = significand rank * Nat.pow 2 (binade rank) := rfl

theorem binade_mul_add_significand (rank : Nat) :
    binade rank * Nat.pow 2 52 + significand rank = rank := by
  simp only [significand, binade, Nat.pow_eq]
  omega

theorem significand_lt (rank : Nat) : significand rank < Nat.pow 2 53 := by
  simp only [significand, binade, Nat.pow_eq]
  omega

/-- Only subnormal numbers leave the first of the 53 significant bits unset. -/
theorem le_significand {rank : Nat} (h : binade rank ≠ 0) : Nat.pow 2 52 ≤ significand rank := by
  simp only [significand, binade, Nat.pow_eq] at h ⊢
  omega

/-- The spacing of a binade can be told from any value in it. -/
theorem log2_unitsOfRank (rank : Nat) : (unitsOfRank rank).log2 - 52 = binade rank := by
  rw [unitsOfRank_eq]
  have lt := significand_lt rank
  by_cases hb : binade rank = 0
  · rw [hb, Nat.pow_eq, Nat.pow_zero, Nat.mul_one]
    by_cases hs : significand rank = 0
    · rw [hs, Nat.log2_zero]
    · exact Nat.sub_eq_zero_of_le (Nat.le_of_lt_succ ((Nat.log2_lt hs).mpr lt))
  · have le := le_significand hb
    have pos : 0 < Nat.pow 2 (binade rank) := Nat.pow_pos (by decide)
    have ne : significand rank * Nat.pow 2 (binade rank) ≠ 0 :=
      Nat.mul_ne_zero (Nat.ne_of_gt (Nat.lt_of_lt_of_le (by decide) le)) (Nat.ne_of_gt pos)
    have hlog : (significand rank * Nat.pow 2 (binade rank)).log2 = 52 + binade rank := by
      rw [Nat.log2_eq_iff ne, Nat.add_right_comm, Nat.pow_add, Nat.pow_add]
      exact ⟨Nat.mul_le_mul_right _ le, (Nat.mul_lt_mul_right pos).mpr lt⟩
    rw [hlog, Nat.add_sub_cancel_left]

theorem nearestRank_unitsOfRank {rank : Nat} (h : rank ≤ infinityRank) :
    nearestRank (unitsOfRank rank) 1 = rank := by
  have pos : 0 < Nat.pow 2 (binade rank) := Nat.pow_pos (by decide)
  rw [nearestRank, Nat.div_one, Nat.one_mul, log2_unitsOfRank, unitsOfRank_eq]
  simp only [roundHalfEven_mul_self _ pos, binade_mul_add_significand]
  exact Nat.min_eq_right h

/-- Rounding the exact value of a magnitude gives it back. -/
theorem Magnitude.nearest_units_mul (m : Magnitude) {den : Nat} (hd : 0 < den) :
    nearest (m.units * den) den = m := by
  have h := nearest_mul_right m.units 1 hd
  rw [Nat.one_mul] at h
  rw [h, nearest]
  simp only [units, nearestRank_unitsOfRank m.rank_le]

-- Both exponents are variables here, so that no power of `lastBinade` is ever computed.
theorem two_pow_le_two_pow {j k : Nat} (h : j ≤ k) : Nat.pow 2 j ≤ Nat.pow 2 k :=
  Nat.pow_le_pow_right (by decide) h

/-- Which binade the largest finite numbers are in. -/
def lastBinade : Nat := 2045

theorem Magnitude.units_pos {m : Magnitude} (h : m.rank ≠ 0) : 0 < m.units := by
  have hs : 0 < significand m.rank := by
    by_cases hb : binade m.rank = 0
    · simpa [significand, hb] using Nat.pos_of_ne_zero h
    · exact Nat.lt_of_lt_of_le (by decide) (le_significand hb)
  exact Nat.mul_pos hs (Nat.pow_pos (by decide))

end TimeTrials.Number
