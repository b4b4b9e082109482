import Mathlib.Algebra.Order.Field.Basic
import Mathlib.Algebra.Order.Field.Power
import Mathlib.Data.Rat.Cast.Order
import Mathlib.Tactic.Positivity
import TimeTrials.Number.Decimal
import TimeTrials.Proofs.Number.Order

/-!
# What a decimal denotes

A decimal denotes a rational number, and the magnitude that is read is the nearest one to it.  The
cut-offs that spare a reader the large powers of ten make no difference, because what they settle is far
outside the range of finite numbers.

Near both ends of the range, numbers that are not zero are read as zero, and finite ones as infinity.
Where exactly is a matter of halves of a step.

* `nearestRank_eq_zero_iff`: up to half of the least positive number, a tie included, the even neighbour
  is zero.
* `nearestRank_eq_infinityRank_iff`: from half a step above the largest finite number on, the neighbour
  is infinity.
* `Decimal.exists_quotient`: the value of a decimal in units is a quotient of whole numbers.
* `Decimal.toMagnitude_eq_nearest`: so a decimal is read as the nearest magnitude, cut-offs or not.
* `Decimal.rank_toMagnitude_eq_zero_iff`, `Decimal.isInfinite_toMagnitude_iff`: which decimals are read as
  zero and as infinity.
-/

namespace TimeTrials.Number

/-! ## The ends of the range -/

/-- A quotient rounds to zero up to a half; a half is as near to one, but zero is even. -/
theorem roundHalfEven_eq_zero_iff {num den : Nat} (hd : 0 < den) :
    roundHalfEven num den = 0 ↔ 2 * num ≤ den := by
  rcases Nat.lt_or_ge num den with hlt | hge
  · simp only [roundHalfEven, Nat.div_eq_of_lt hlt, Nat.mod_eq_of_lt hlt]
    split_ifs with hbelow habove
    · omega
    · exact iff_of_false id (Nat.not_le.mpr habove)
    · omega
  · have hone : 1 ≤ roundHalfEven num den := le_roundHalfEven (by omega) hd
    omega

/-- A quotient rounds down below a half. -/
theorem roundHalfEven_le_of_lt {num den bound : Nat} (h : 2 * num < (2 * bound + 1) * den) :
    roundHalfEven num den ≤ bound := by
  have hnum := Nat.div_add_mod num den
  rcases Nat.lt_trichotomy (num / den) bound with hlt | heq | hgt
  · exact (roundHalfEven_le_succ num den).trans hlt
  · have htwice : 2 * (num % den) < den := by
      rw [heq] at hnum
      have hsplit : (2 * bound + 1) * den = 2 * (den * bound) + den := by ring
      omega
    simp only [roundHalfEven, htwice, if_true, heq, le_refl]
  · have hle : den * (bound + 1) ≤ den * (num / den) := Nat.mul_le_mul_left den hgt
    have hsplit : (2 * bound + 1) * den + den = 2 * (den * (bound + 1)) := by ring
    omega

/-- Zero is nearest up to half of the least positive number. -/
theorem nearestRank_eq_zero_iff {num den : Nat} (hd : 0 < den) :
    nearestRank num den = 0 ↔ 2 * num ≤ den := by
  have hmin : nearestRank num den = 0 ↔
      stepOf num den * Nat.pow 2 52 + roundHalfEven num (den * Nat.pow 2 (stepOf num den)) = 0 := by
    have hpos := infinityRank_pos
    rw [nearestRank_eq]
    omega
  rw [hmin]
  by_cases hstep : stepOf num den = 0
  · rw [hstep, Nat.zero_mul, Nat.zero_add, Nat.pow_eq, Nat.pow_zero, Nat.mul_one,
      roundHalfEven_eq_zero_iff hd]
  · have hround := le_roundHalfEven_step hd hstep
    have hbinade : 0 < Nat.pow 2 52 := by decide
    refine iff_of_false (by omega) fun hle => hstep ?_
    rw [stepOf, Nat.div_eq_of_lt (by omega), Nat.log2_zero]

/-- Half a step above the largest finite number, in units. -/
def overflowUnits : Nat := (Nat.pow 2 54 - 1) * Nat.pow 2 (lastBinade - 1)

theorem nearestRank_overflowUnits : nearestRank overflowUnits 1 = infinityRank := by
  decide +kernel

theorem stepOf_overflowUnits : stepOf overflowUnits 1 = lastBinade := by
  decide +kernel

theorem overflowUnits_eq : 2 * overflowUnits = (2 * (Nat.pow 2 53 - 1) + 1) * Nat.pow 2 lastBinade := by
  decide +kernel

theorem stepOf_le_lastBinade {num den : Nat} (hd : 0 < den) (h : num < overflowUnits * den) :
    stepOf num den ≤ lastBinade := by
  have hmono := stepOf_mono den h.le
  rwa [stepOf, stepOf, Nat.mul_div_cancel _ hd, ← Nat.div_one overflowUnits, ← stepOf, ← stepOf,
    stepOf_overflowUnits] at hmono

/-- Below the end of the range there is a finite neighbour.  In the last binade it takes the exact bound to
see this; the binades before it end far from there. -/
theorem nearestRank_lt_infinityRank {num den : Nat} (hd : 0 < den) (h : num < overflowUnits * den) :
    nearestRank num den < infinityRank := by
  rw [nearestRank_eq]
  refine lt_of_le_of_lt (Nat.min_le_right _ _) ?_
  rcases Nat.lt_or_eq_of_le (stepOf_le_lastBinade hd h) with hbelow | hlast
  · have hround : roundHalfEven num (den * Nat.pow 2 (stepOf num den)) ≤ Nat.pow 2 53 :=
      roundHalfEven_step_le hd
    simp only [infinityRank, lastBinade, Nat.pow_eq] at hround hbelow ⊢
    omega
  · have hround : roundHalfEven num (den * Nat.pow 2 lastBinade) ≤ Nat.pow 2 53 - 1 := by
      refine roundHalfEven_le_of_lt ?_
      calc 2 * num < 2 * overflowUnits * den := by
            rw [Nat.mul_assoc]
            exact (Nat.mul_lt_mul_left (by decide)).mpr h
        _ = (2 * (Nat.pow 2 53 - 1) + 1) * (den * Nat.pow 2 lastBinade) := by
            rw [overflowUnits_eq, Nat.mul_assoc, Nat.mul_comm (Nat.pow 2 lastBinade)]
    rw [hlast]
    generalize roundHalfEven num (den * Nat.pow 2 lastBinade) = rounded at hround
    simp only [infinityRank, lastBinade, Nat.pow_eq] at hround ⊢
    omega

/-- Infinity is nearest from half a step above the largest finite number on. -/
theorem nearestRank_eq_infinityRank_iff {num den : Nat} (hd : 0 < den) :
    nearestRank num den = infinityRank ↔ overflowUnits * den ≤ num := by
  constructor
  · intro h
    by_contra hlt
    exact (nearestRank_lt_infinityRank hd (Nat.not_le.mp hlt)).ne h
  · intro h
    refine (nearestRank_le_infinityRank num den).antisymm ?_
    rw [← nearestRank_overflowUnits]
    exact nearestRank_mono Nat.one_pos hd (by rwa [Nat.mul_one])

/-- Half of the least positive number. -/
def halfUnit : ℚ := 1 / (2 * one)

/-- Half a step above the largest finite number. -/
def overflow : ℚ := overflowUnits / one

theorem cast_one_pos : (0 : ℚ) < one := Nat.cast_pos.mpr one_pos

theorem halfUnit_pos : 0 < halfUnit := div_pos zero_lt_one (mul_pos two_pos cast_one_pos)

theorem overflow_pos : 0 < overflow :=
  div_pos (Nat.cast_pos.mpr (by decide +kernel)) cast_one_pos

/-! ## Counting digits -/

theorem digitCount_pos (n : Nat) : 0 < digitCount n := List.length_pos_iff.mpr Nat.toDigits_ne_nil

theorem digitCount_le {n k : Nat} (hk : 0 < k) (h : n < Nat.pow 10 k) : digitCount n ≤ k :=
  (Nat.length_toDigits_le_iff (by decide) hk).mpr h

theorem lt_pow_digitCount (n : Nat) : n < Nat.pow 10 (digitCount n) :=
  (Nat.length_toDigits_le_iff (by decide) (digitCount_pos n)).mp le_rfl

theorem pow_digitCount_le {n : Nat} (h : n ≠ 0) : Nat.pow 10 (digitCount n - 1) ≤ n := by
  by_contra hlt
  have hcount : 0 < digitCount n - 1 := by
    by_contra hzero
    rw [Nat.eq_zero_of_not_pos hzero] at hlt
    exact hlt (Nat.pos_of_ne_zero h)
  have hle := digitCount_le hcount (Nat.not_le.mp hlt)
  omega

namespace Decimal

/-! ## The value of a decimal -/

/-- The power of ten of the leading digit, plus one. -/
def leading (d : Decimal) : Int := digitCount d.digits + d.exponent

/-- The magnitude nearest to a decimal whose leading digit is in range. -/
def nearest (d : Decimal) : Magnitude :=
  if 0 ≤ d.exponent then .nearest (d.digits * Nat.pow 10 d.exponent.toNat * one) 1
  else .nearest (d.digits * one) (Nat.pow 10 (-d.exponent).toNat)

theorem toMagnitude_eq (d : Decimal) : d.toMagnitude =
    if d.digits = 0 || d.leading < -400 then .zero
    else if 400 < d.leading then .infinity else d.nearest := rfl

/-- What a decimal denotes. -/
def value (d : Decimal) : ℚ := d.digits * (10 : ℚ) ^ d.exponent

/-- A decimal with some number of places. -/
theorem value_mul_pow (n k : Nat) : value ⟨n, -k⟩ * (10 : ℚ) ^ k = n := by
  rw [value, zpow_neg, zpow_natCast, mul_assoc, inv_mul_cancel₀ (pow_ne_zero k (by norm_num)), mul_one]

theorem value_nonneg (d : Decimal) : 0 ≤ d.value := by
  rw [value]
  positivity

theorem value_lt (d : Decimal) : d.value < (10 : ℚ) ^ d.leading := by
  have hdigits : (d.digits : ℚ) < (10 : ℚ) ^ (digitCount d.digits : Int) := by
    rw [zpow_natCast]
    exact_mod_cast lt_pow_digitCount d.digits
  rw [value, leading, zpow_add₀ (by norm_num)]
  exact mul_lt_mul_of_pos_right hdigits (by positivity)

theorem le_value {d : Decimal} (h : d.digits ≠ 0) : (10 : ℚ) ^ (d.leading - 1) ≤ d.value := by
  have hcount := digitCount_pos d.digits
  have hsplit : d.leading - 1 = ((digitCount d.digits - 1 : Nat) : Int) + d.exponent := by
    rw [leading]
    omega
  have hdigits : (10 : ℚ) ^ ((digitCount d.digits - 1 : Nat) : Int) ≤ d.digits := by
    rw [zpow_natCast]
    exact_mod_cast pow_digitCount_le h
  rw [value, hsplit, zpow_add₀ (by norm_num)]
  exact mul_le_mul_of_nonneg_right hdigits (by positivity)

/-- What a decimal denotes is a quotient of whole numbers of units, and the number nearest to it is the
one nearest to the quotient. -/
theorem exists_quotient (d : Decimal) : ∃ num den : Nat, 0 < den ∧
    d.value * one * den = num ∧ d.nearest = .nearest num den := by
  rw [nearest]
  split_ifs with hexponent
  · refine ⟨_, 1, Nat.one_pos, ?_, rfl⟩
    have hpow : (10 : ℚ) ^ d.exponent = (10 : ℚ) ^ d.exponent.toNat := by
      rw [← zpow_natCast, Int.toNat_of_nonneg hexponent]
    rw [value, hpow, Nat.pow_eq]
    push_cast
    ring
  · refine ⟨_, _, Nat.pow_pos (by decide), ?_, rfl⟩
    have hpow : (10 : ℚ) ^ d.exponent * (10 : ℚ) ^ (-d.exponent).toNat = 1 := by
      rw [← zpow_natCast, Int.toNat_of_nonneg (by omega), ← zpow_add₀ (by norm_num), add_neg_cancel,
        zpow_zero]
    calc d.value * one * (Nat.pow 10 (-d.exponent).toNat : Nat)
        = d.digits * one * ((10 : ℚ) ^ d.exponent * (10 : ℚ) ^ (-d.exponent).toNat) := by
          rw [value, Nat.pow_eq]
          push_cast
          ring
      _ = (d.digits * one : Nat) := by
          rw [hpow]
          push_cast
          ring

theorem rank_nearest_eq_zero_iff (d : Decimal) : d.nearest.rank = 0 ↔ d.value ≤ halfUnit := by
  obtain ⟨num, den, hden, hvalue, hnearest⟩ := exists_quotient d
  have hden' : (0 : ℚ) < den := Nat.cast_pos.mpr hden
  rw [hnearest, Magnitude.rank_nearest, nearestRank_eq_zero_iff hden, halfUnit,
    le_div_iff₀ (mul_pos two_pos cast_one_pos)]
  calc 2 * num ≤ den ↔ (2 : ℚ) * num ≤ den := by exact_mod_cast Iff.rfl
    _ ↔ d.value * (2 * one) * den ≤ 1 * den := by
      rw [← hvalue, one_mul]
      ring_nf
    _ ↔ d.value * (2 * one) ≤ 1 := mul_le_mul_iff_left₀ hden'

theorem rank_nearest_eq_infinityRank_iff (d : Decimal) :
    d.nearest.rank = infinityRank ↔ overflow ≤ d.value := by
  obtain ⟨num, den, hden, hvalue, hnearest⟩ := exists_quotient d
  have hden' : (0 : ℚ) < den := Nat.cast_pos.mpr hden
  rw [hnearest, Magnitude.rank_nearest, nearestRank_eq_infinityRank_iff hden, overflow,
    div_le_iff₀ cast_one_pos]
  calc overflowUnits * den ≤ num ↔ (overflowUnits : ℚ) * den ≤ num := by
        exact_mod_cast Iff.rfl
    _ ↔ overflowUnits * den ≤ d.value * one * den := by rw [hvalue]
    _ ↔ overflowUnits ≤ d.value * one := mul_le_mul_iff_left₀ hden'

/-! What the cut-offs settle is far outside the range. -/

theorem le_halfUnit_of_pow {k : Nat} (hk : 2 * one ≤ Nat.pow 10 k) :
    (10 : ℚ) ^ (-(k : Int)) ≤ halfUnit := by
  have hk' : (2 * one : ℚ) ≤ (10 : ℚ) ^ k := by exact_mod_cast hk
  rw [zpow_neg, zpow_natCast, halfUnit, ← one_div]
  exact one_div_le_one_div_of_le (mul_pos two_pos cast_one_pos) hk'

theorem overflow_le_of_pow {k : Nat} (hk : overflowUnits ≤ Nat.pow 10 k * one) :
    overflow ≤ (10 : ℚ) ^ (k : Int) := by
  have hk' : (overflowUnits : ℚ) ≤ (10 : ℚ) ^ k * one := by exact_mod_cast hk
  rwa [zpow_natCast, overflow, div_le_iff₀ cast_one_pos]

theorem value_le_halfUnit_of_leading {d : Decimal} (h : d.leading < -400) : d.value ≤ halfUnit := by
  calc d.value ≤ (10 : ℚ) ^ d.leading := d.value_lt.le
    _ ≤ (10 : ℚ) ^ (-((400 : Nat) : Int)) := zpow_le_zpow_right₀ (by norm_num) h.le
    _ ≤ halfUnit := le_halfUnit_of_pow (by decide +kernel)

theorem overflow_le_value_of_leading {d : Decimal} (hd : d.digits ≠ 0) (h : 400 < d.leading) :
    overflow ≤ d.value := by
  calc overflow ≤ (10 : ℚ) ^ ((400 : Nat) : Int) := overflow_le_of_pow (by decide +kernel)
    _ ≤ (10 : ℚ) ^ (d.leading - 1) := zpow_le_zpow_right₀ (by norm_num) (by omega)
    _ ≤ d.value := le_value hd

/-- **The number that is read is the nearest one**, cut-offs or not. -/
theorem toMagnitude_eq_nearest (d : Decimal) : d.toMagnitude = d.nearest := by
  have hzero (h : d.value ≤ halfUnit) : Magnitude.zero = d.nearest :=
    Magnitude.eq_of_rank_eq (rank_nearest_eq_zero_iff d |>.mpr h).symm
  rw [toMagnitude_eq]
  split_ifs with hsmall hlarge
  · rw [Bool.or_eq_true, decide_eq_true_eq, decide_eq_true_eq] at hsmall
    rcases hsmall with hdigits | hleading
    · refine hzero ?_
      rw [value, hdigits, Nat.cast_zero, zero_mul]
      exact halfUnit_pos.le
    · exact hzero (value_le_halfUnit_of_leading hleading)
  · have hdigits : d.digits ≠ 0 := by
      intro h
      simp [h] at hsmall
    have hrank := (rank_nearest_eq_infinityRank_iff d).mpr
      (overflow_le_value_of_leading hdigits hlarge)
    exact Magnitude.eq_of_rank_eq hrank.symm
  · rfl

/-- What is read from a decimal depends on its value only, as a quotient of whole numbers of units. -/
theorem toMagnitude_of_value {d : Decimal} {num den : Nat} (hden : 0 < den)
    (h : d.value * one * den = num) : d.toMagnitude = .nearest num den := by
  obtain ⟨num', den', hden', h', hnearest⟩ := exists_quotient d
  have hcross : num' * den = num * den' := by
    have hcast : (num' : ℚ) * den = num * den' := by
      rw [← h, ← h']
      ring
    exact_mod_cast hcast
  rw [toMagnitude_eq_nearest, hnearest, ← Magnitude.nearest_mul_right num' den' hden, hcross,
    Nat.mul_comm den', Magnitude.nearest_mul_right num den hden']

theorem toMagnitude_congr {d d' : Decimal} (h : d.value = d'.value) :
    d.toMagnitude = d'.toMagnitude := by
  obtain ⟨num, den, hden, hvalue, hnearest⟩ := exists_quotient d'
  rw [toMagnitude_eq_nearest d', hnearest]
  exact toMagnitude_of_value hden (by rw [h, hvalue])

theorem rank_toMagnitude_eq_zero_iff (d : Decimal) :
    d.toMagnitude.rank = 0 ↔ d.value ≤ halfUnit := by
  rw [toMagnitude_eq_nearest, rank_nearest_eq_zero_iff]

theorem isInfinite_toMagnitude_iff (d : Decimal) :
    d.toMagnitude.isInfinite = true ↔ overflow ≤ d.value := by
  rw [toMagnitude_eq_nearest, Magnitude.isInfinite_iff, rank_nearest_eq_infinityRank_iff]

end Decimal

end TimeTrials.Number
