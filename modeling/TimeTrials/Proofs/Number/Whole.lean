import TimeTrials.Proofs.Number.Order
import TimeTrials.Proofs.Number.Shortest

/-!
# Whole numbers that are exact

Fifty-three bits times a power of two are the exact value of some number, as long as the power leaves
room (`exists_unitsOfRank`).  The proof moves bits from the significand to the power until the
significand is full, or the power is used up.

* `units_nearest_mul_one`: whole numbers up to `2 ^ 53` are not rounded.
* `nearestRank_mul_one_lt`: none up to `2 ^ 64` is taken for infinity.
* `Binary64.quotientHeight_self`, `productHeight_one`: what is divided by itself, and a product with one.
-/

namespace TimeTrials.Number

/-! ## Exact values -/

theorem unitsOfRank_of_le {significand : Nat} (h : significand ≤ Nat.pow 2 53) :
    unitsOfRank significand = significand := by
  simp only [unitsOfRank, binade, Nat.pow_eq] at h ⊢
  rcases Nat.lt_or_eq_of_le h with hlt | rfl
  · have hbinade : significand / 2 ^ 52 - 1 = 0 := by omega
    rw [hbinade]
    omega
  · decide

/-- The value of a full significand in a binade. -/
theorem unitsOfRank_binade {significand exponent : Nat} (hlow : Nat.pow 2 52 < significand)
    (hhigh : significand ≤ Nat.pow 2 53) :
    unitsOfRank (exponent * Nat.pow 2 52 + significand) = significand * Nat.pow 2 exponent := by
  simp only [Nat.pow_eq] at hlow hhigh
  rcases Nat.lt_or_eq_of_le hhigh with hlt | rfl
  · have hbinade : binade (exponent * Nat.pow 2 52 + significand) = exponent := by
      simp only [binade, Nat.pow_eq]
      omega
    rw [unitsOfRank, hbinade, Nat.add_sub_cancel_left]
  · have hbinade : binade (exponent * Nat.pow 2 52 + 2 ^ 53) = exponent + 1 := by
      simp only [binade, Nat.pow_eq]
      omega
    have hbits : exponent * Nat.pow 2 52 + 2 ^ 53 - (exponent + 1) * Nat.pow 2 52 = 2 ^ 52 := by
      simp only [Nat.pow_eq]
      omega
    rw [unitsOfRank, hbinade, hbits, Nat.pow_eq, Nat.pow_eq, Nat.pow_succ 2 exponent]
    ring

/-- Fifty-three bits and an exponent are the value of a rank. -/
theorem exists_unitsOfRank (exponent : Nat) {significand : Nat}
    (h : significand ≤ Nat.pow 2 53) : ∃ rank,
      unitsOfRank rank = significand * Nat.pow 2 exponent ∧
        rank ≤ (exponent + 2) * Nat.pow 2 52 := by
  induction exponent generalizing significand with
  | zero =>
    refine ⟨significand, ?_, ?_⟩
    · rw [unitsOfRank_of_le h]
      exact (Nat.mul_one _).symm
    · simp only [Nat.pow_eq] at h ⊢
      omega
  | succ exponent ih =>
    by_cases hfull : Nat.pow 2 52 < significand
    · refine ⟨(exponent + 1) * Nat.pow 2 52 + significand, unitsOfRank_binade hfull h, ?_⟩
      simp only [Nat.pow_eq] at h ⊢
      omega
    · have hdouble : 2 * significand ≤ Nat.pow 2 53 := by
        simp only [Nat.pow_eq] at hfull ⊢
        omega
      obtain ⟨rank, hunits, hrank⟩ := ih hdouble
      refine ⟨rank, ?_, ?_⟩
      · rw [hunits, Nat.pow_eq, Nat.pow_eq, Nat.pow_succ]
        ring
      · exact hrank.trans (Nat.mul_le_mul_right _ (Nat.le_succ _))

/-! ## Whole numbers -/

-- Both exponents are variables here, so that no power of `unitPlaces` is ever computed.
theorem two_pow_add (j k : Nat) : Nat.pow 2 (j + k) = Nat.pow 2 j * Nat.pow 2 k :=
  Nat.pow_add 2 j k

/-- Fifty-three bits and an exponent, as a number of ones. -/
theorem exists_unitsOfRank_eq_mul_one (exponent : Nat) {significand : Nat}
    (h : significand ≤ Nat.pow 2 53) : ∃ rank,
      unitsOfRank rank = significand * Nat.pow 2 exponent * one ∧
        rank ≤ (exponent + 1076) * Nat.pow 2 52 := by
  obtain ⟨rank, hunits, hrank⟩ := exists_unitsOfRank (exponent + unitPlaces) h
  refine ⟨rank, ?_, hrank⟩
  rw [hunits, two_pow_add, ← Magnitude.one_eq, ← Nat.mul_assoc]

/-- Whole numbers up to `2 ^ 53` are not rounded. -/
theorem units_nearest_mul_one {n : Nat} (h : n ≤ Nat.pow 2 53) :
    (Magnitude.nearest (n * one) 1).units = n * one := by
  obtain ⟨rank, hunits, hrank⟩ := exists_unitsOfRank_eq_mul_one 0 h
  have hbound : rank ≤ infinityRank := hrank.trans (by decide)
  have hone : n * Nat.pow 2 0 = n := Nat.mul_one n
  rw [hone] at hunits
  rw [Magnitude.units, Magnitude.rank_nearest, ← hunits, nearestRank_unitsOfRank hbound]

/-- No whole number up to `2 ^ 64` is taken for infinity. -/
theorem nearestRank_mul_one_lt {n : Nat} (h : n ≤ Nat.pow 2 64) :
    nearestRank (n * one) 1 < infinityRank := by
  have hbits : Nat.pow 2 53 * Nat.pow 2 11 = Nat.pow 2 64 := by decide
  obtain ⟨rank, hunits, hrank⟩ := exists_unitsOfRank_eq_mul_one 11 (le_refl (Nat.pow 2 53))
  have hlt : rank < infinityRank := hrank.trans_lt (by decide)
  calc nearestRank (n * one) 1
      ≤ nearestRank (Nat.pow 2 64 * one) 1 :=
        nearestRank_mono_left Nat.one_pos (Nat.mul_le_mul_right one h)
    _ = rank := by rw [← hbits, ← hunits, nearestRank_unitsOfRank hlt.le]
    _ < infinityRank := hlt

/-! ## One -/

theorem unitsOfRank_nearestRank_one : unitsOfRank (nearestRank one 1) = one := by
  have hone := units_nearest_mul_one (n := 1) (by decide)
  rwa [Nat.one_mul] at hone

namespace Binary64

/-- What a number is divided by itself comes to. -/
theorem quotientHeight_self {m : Magnitude} (hfinite : m.isInfinite = false) (hm : m.rank ≠ 0) :
    quotientHeight m m.rank = nearestRank one 1 := by
  have hne : ¬ m.rank = infinityRank := (Magnitude.rank_lt_of_finite hfinite).ne
  have hquotient := nearestRank_mul_right one 1 (Magnitude.units_pos hm)
  rw [Nat.one_mul, Nat.mul_comm] at hquotient
  rw [quotientHeight, hfinite, if_neg (by decide), if_neg hne]
  exact hquotient

/-- Multiplying by one changes nothing. -/
theorem productHeight_one {m : Magnitude} (hfinite : m.isInfinite = false) :
    productHeight m (nearestRank one 1) = m.rank := by
  have hlt : nearestRank one 1 < infinityRank := by
    have hone := nearestRank_mul_one_lt (n := 1) (by decide)
    rwa [Nat.one_mul] at hone
  rw [productHeight, hfinite, if_neg (by decide), if_neg hlt.ne, unitsOfRank_nearestRank_one]
  split_ifs with hzero
  · exact hzero.symm
  · have hproduct := nearestRank_mul_right m.units 1 one_pos
    rw [Nat.one_mul, Nat.mul_comm] at hproduct
    rw [hproduct, Magnitude.units, nearestRank_unitsOfRank m.rank_le]

/-- A count that is not rounded is its own column. -/
theorem columnAt_nearestRank {n : Nat} (h : n ≤ Nat.pow 2 53) :
    columnAt n (nearestRank (n * one) 1) = n := by
  have hunits : unitsOfRank (nearestRank (n * one) 1) = n * one := units_nearest_mul_one h
  have hhalf : (n * one + one / 2) / one = n := by
    rw [Nat.mul_comm, Nat.mul_add_div one_pos,
      Nat.div_eq_of_lt (Nat.div_lt_self one_pos (by decide)), Nat.add_zero]
  rw [columnAt, hunits, hhalf, Nat.min_self, ite_self]

end Binary64

end TimeTrials.Number
