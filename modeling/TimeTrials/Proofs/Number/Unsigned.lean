import Mathlib.Data.Nat.Sqrt
import TimeTrials.Proofs.Number.Whole

/-!
# Numbers without a minus sign

A statistic is made of squares, sums and quotients of things that are not negative, and it is to be
seen what can come out: no minus sign, and a NaN only where one went in or two infinities met.

The two are kept apart.  `Binary64.IsUnsigned` says nothing about a NaN and is kept by the operations
without any side condition.  That no NaN arises needs to know which numbers are finite, and so it
always comes second.

* `IsUnsigned.add`, `IsUnsigned.div`, `IsUnsigned.sqrt`, `isUnsigned_mul_self`: the operations.
* `negativeZero_add`, `add_negativeZero`: negative zero changes no sum.
* `exists_add`, `sub_ne_nan`, `exists_mul_self`: where no NaN arises.
* `exists_div`, `exists_sqrt`: where no infinity arises either.  Quotients are by counts, and these are
  at least one (`IsDivisor`).
* `exists_ofNat`, `exists_ofNat_sub_one`: counts, as numbers to divide by (`isFinite_ofNat`).
-/

namespace TimeTrials.Number.Binary64

/-! ## The sign -/

/-- Without a minus sign: a number from positive zero up, or a NaN. -/
def IsUnsigned (x : Binary64) : Prop := ∀ m, x ≠ .signed true m

theorem isUnsigned_nan : IsUnsigned .nan := by
  intro m h
  cases h

theorem isUnsigned_positive (m : Magnitude) : IsUnsigned (.signed false m) := by
  intro m' h
  cases h

theorem isUnsigned_zero : IsUnsigned zero := isUnsigned_positive _

theorem isUnsigned_nearest (num den : Nat) : IsUnsigned (nearest false num den) :=
  isUnsigned_positive _

theorem isUnsigned_ofNat (n : Nat) : IsUnsigned (ofNat n) := isUnsigned_positive _

/-- What is unsigned and no NaN is a magnitude. -/
theorem IsUnsigned.exists_magnitude {x : Binary64} (h : x.IsUnsigned) (hx : x ≠ .nan) :
    ∃ m, x = .signed false m := by
  cases x with
  | nan => exact absurd rfl hx
  | signed negative m =>
    cases negative with
    | false => exact ⟨m, rfl⟩
    | true => exact absurd rfl (h m)

theorem IsUnsigned.eq_nan_or {x : Binary64} (h : x.IsUnsigned) :
    x = .nan ∨ ∃ m, x = .signed false m := by
  by_cases hx : x = .nan
  · exact .inl hx
  · exact .inr (h.exists_magnitude hx)

/-! ## Operations -/

section

variable {x y : Binary64}

theorem IsUnsigned.add (hx : x.IsUnsigned) (hy : y.IsUnsigned) : (x.add y).IsUnsigned := by
  rcases hx.eq_nan_or with rfl | ⟨a, rfl⟩
  · exact isUnsigned_nan
  · rcases hy.eq_nan_or with rfl | ⟨b, rfl⟩
    · exact isUnsigned_nan
    · simp only [Binary64.add, addFinite, beq_self_eq_true, if_true]
      split_ifs
      · exact isUnsigned_nan
      · exact isUnsigned_positive _
      · exact isUnsigned_positive _
      · exact isUnsigned_nearest _ _

theorem IsUnsigned.div (hx : x.IsUnsigned) (hy : y.IsUnsigned) : (x.div y).IsUnsigned := by
  rcases hx.eq_nan_or with rfl | ⟨a, rfl⟩
  · exact isUnsigned_nan
  · rcases hy.eq_nan_or with rfl | ⟨b, rfl⟩
    · exact isUnsigned_nan
    · simp only [Binary64.div]
      split_ifs <;> first | exact isUnsigned_nan | exact isUnsigned_positive _

theorem IsUnsigned.sqrt (hx : x.IsUnsigned) : x.sqrt.IsUnsigned := by
  rcases hx.eq_nan_or with rfl | ⟨a, rfl⟩
  · exact isUnsigned_nan
  · simp only [Binary64.sqrt, Bool.false_eq_true, if_false]
    split_ifs <;> exact isUnsigned_positive _

/-- A square has no minus sign. -/
theorem isUnsigned_mul_self (x : Binary64) : (x.mul x).IsUnsigned := by
  cases x with
  | nan => exact isUnsigned_nan
  | signed negative m =>
    simp only [mul, bne_self_eq_false]
    split_ifs
    · exact isUnsigned_nan
    · exact isUnsigned_positive _
    · exact isUnsigned_nearest _ _

end

/-! ## Negative zero -/

theorem nearest_units (negative : Bool) (m : Magnitude) :
    nearest negative m.units 1 = .signed negative m := by
  have h := Magnitude.nearest_units_mul m Nat.one_pos
  rw [Nat.mul_one] at h
  rw [nearest, h]

theorem eq_zero_of_units_eq_zero {m : Magnitude} (h : m.units = 0) : m = .zero := by
  have hrank : m.rank = 0 := by
    by_contra hne
    exact absurd h (Magnitude.units_pos hne).ne'
  obtain ⟨rank, rank_le⟩ := m
  cases hrank
  rfl

/-- Nothing is changed by adding negative zero, on either side. -/
theorem negativeZero_add (x : Binary64) : negativeZero.add x = x := by
  cases x with
  | nan => rfl
  | signed negative m =>
    have hzero : Magnitude.zero.isInfinite = false := rfl
    have hunits : Magnitude.zero.units = 0 := rfl
    simp only [negativeZero, add, hzero, hunits, Bool.false_eq_true, if_false, addFinite,
      Nat.zero_add, Nat.sub_zero, Nat.not_lt_zero]
    split_ifs with hinf hsign hpos
    · rfl
    · rw [← eq_of_beq hsign, nearest_units]
    · exact nearest_units negative m
    · cases negative with
      | true => exact absurd rfl hsign
      | false => rw [eq_zero_of_units_eq_zero (Nat.eq_zero_of_not_pos hpos), zero]

theorem add_negativeZero (x : Binary64) : x.add negativeZero = x := by
  cases x with
  | nan => rfl
  | signed negative m =>
    have hzero : Magnitude.zero.isInfinite = false := rfl
    have hunits : Magnitude.zero.units = 0 := rfl
    simp only [negativeZero, add, hzero, hunits, Bool.false_eq_true, if_false, addFinite,
      Nat.add_zero, Nat.sub_zero, Nat.not_lt_zero, Bool.false_and]
    split_ifs with hinf hsign hpos
    · rfl
    · exact nearest_units negative m
    · exact nearest_units negative m
    · cases negative with
      | true => exact absurd rfl hsign
      | false => rw [eq_zero_of_units_eq_zero (Nat.eq_zero_of_not_pos hpos), zero]

/-! ## No NaN -/

/-- Numbers without a minus sign have a sum without one. -/
theorem exists_add (a b : Magnitude) :
    ∃ m, add (.signed false a) (.signed false b) = .signed false m := by
  refine ((isUnsigned_positive a).add (isUnsigned_positive b)).exists_magnitude ?_
  simp only [add, addFinite, beq_self_eq_true, if_true]
  split_ifs <;> simp_all [nearest]

/-- The distance from a finite number is a number. -/
theorem sub_ne_nan {x y : Binary64} (hx : x.isFinite = true) (hy : y ≠ .nan) : x.sub y ≠ .nan := by
  cases x with
  | nan => cases hx
  | signed s a =>
    cases y with
    | nan => exact absurd rfl hy
    | signed t b =>
      have ha : a.isInfinite = false := by simpa [isFinite] using hx
      simp only [sub, neg, add, addFinite, ha]
      split_ifs <;> simp_all [nearest, zero]

theorem exists_mul_self {x : Binary64} (hx : x ≠ .nan) : ∃ m, x.mul x = .signed false m := by
  refine (isUnsigned_mul_self x).exists_magnitude ?_
  cases x with
  | nan => exact absurd rfl hx
  | signed negative m =>
    have hm : m.isInfinite = true → ¬ m.rank = 0 := Magnitude.rank_ne_zero_of_infinite
    simp only [mul]
    split_ifs <;> simp_all [infinite, nearest]

/-! ## No infinity -/

theorem isInfinite_eq_false_of_rank_lt {m : Magnitude} (h : m.rank < infinityRank) :
    m.isInfinite = false := by
  rw [← Bool.not_eq_true, Magnitude.isInfinite_iff]
  exact h.ne

/-- What counts are divided by: a number that is finite and at least one. -/
structure IsDivisor (m : Magnitude) : Prop where
  isInfinite_eq : m.isInfinite = false
  one_le : one ≤ m.units

theorem IsDivisor.rank_ne_zero {m : Magnitude} (h : IsDivisor m) : m.rank ≠ 0 := by
  intro hzero
  have hone := h.one_le
  rw [Magnitude.units, hzero, unitsOfRank_zero] at hone
  exact absurd hone (Nat.not_le.mpr one_pos)

/-- A quotient by one or more is no larger than what was divided. -/
theorem height_div_le {a b : Magnitude} (hb : IsDivisor b) (ha : a.isInfinite = false) :
    (div (.signed false a) (.signed false b)).height ≤ a.rank := by
  have hne : ¬ a.rank = infinityRank := (Magnitude.rank_lt_of_finite ha).ne
  rw [height_div _ hb.rank_ne_zero, height_positive, quotientHeight, hb.isInfinite_eq,
    if_neg (by decide), if_neg hne]
  calc nearestRank (unitsOfRank a.rank * one) b.units
      ≤ nearestRank (unitsOfRank a.rank) 1 := by
        refine nearestRank_mono (Magnitude.units_pos hb.rank_ne_zero) Nat.one_pos ?_
        rw [Nat.mul_one]
        exact Nat.mul_le_mul_left _ hb.one_le
    _ = a.rank := nearestRank_unitsOfRank a.rank_le

/-- Dividing by one or more neither makes an infinity nor takes one away. -/
theorem exists_div (a : Magnitude) {b : Magnitude} (hb : IsDivisor b) :
    ∃ m, div (.signed false a) (.signed false b) = .signed false m ∧
      m.isInfinite = a.isInfinite := by
  cases ha : a.isInfinite with
  | true =>
    refine ⟨.infinity, ?_, rfl⟩
    simp only [div, ha, hb.isInfinite_eq, if_true, Bool.false_eq_true, if_false]
    rfl
  | false =>
    have hne : div (.signed false a) (.signed false b) ≠ .nan := by
      simp only [div, ha, hb.isInfinite_eq, beq_false_of_ne hb.rank_ne_zero]
      simp [nearest]
    obtain ⟨m, hm⟩ :=
      ((isUnsigned_positive a).div (isUnsigned_positive b)).exists_magnitude hne
    have hle := height_div_le hb ha
    rw [hm, height_positive] at hle
    exact ⟨m, hm, isInfinite_eq_false_of_rank_lt
      (hle.trans_lt (Magnitude.rank_lt_of_finite ha))⟩

theorem negativeZero_div {b : Magnitude} (hb : IsDivisor b) :
    negativeZero.div (.signed false b) = negativeZero := by
  have hzero : Magnitude.zero.isInfinite = false := rfl
  have hunits : Magnitude.zero.units = 0 := rfl
  simp only [negativeZero, div, hzero, hunits, hb.isInfinite_eq,
    beq_false_of_ne hb.rank_ne_zero, Bool.false_eq_true, if_false, Nat.zero_mul]
  simp [nearest, Magnitude.nearest, nearestRank_zero, Magnitude.zero]

/-- Twice a root, and one more if the root is not exact, is at most twice a bound on the root. -/
theorem two_mul_sqrt_add_le {square bound : Nat} (h : square ≤ bound * bound) :
    2 * square.sqrt + (if square.sqrt * square.sqrt = square then 0 else 1) ≤ 2 * bound := by
  have hroot : square.sqrt ≤ bound := by
    rw [← Nat.sqrt_eq bound]
    exact Nat.sqrt_le_sqrt h
  have hself : square.sqrt * square.sqrt ≤ square := Nat.sqrt_le square
  split_ifs with hexact
  · omega
  · rcases Nat.lt_or_eq_of_le hroot with hlt | heq
    · omega
    · rw [heq] at hself hexact
      exact absurd (le_antisymm hself h) hexact

theorem sqrt_of_finite {a : Magnitude} (ha : a.isInfinite = false) (ha₀ : a.rank ≠ 0) :
    sqrt (.signed false a) = nearest false (2 * (a.units * one).sqrt +
      if (a.units * one).sqrt * (a.units * one).sqrt = a.units * one then 0 else 1) 2 := by
  simp only [sqrt, ha, ha₀, if_false, Bool.false_eq_true, beq_iff_eq]

theorem sqrt_of_infinite {a : Magnitude} (ha : a.isInfinite = true) :
    sqrt (.signed false a) = .signed false a := by
  have ha₀ := Magnitude.rank_ne_zero_of_infinite ha
  simp only [sqrt, ha, ha₀, if_false, if_true, Bool.false_eq_true, beq_iff_eq]

theorem sqrt_of_rank_eq_zero {a : Magnitude} (ha : a.rank = 0) :
    sqrt (.signed false a) = .signed false a := by
  simp only [sqrt, ha, beq_self_eq_true, if_true]

/-- A root is no larger than the number or one. -/
theorem height_sqrt_le {a : Magnitude} (ha : a.isInfinite = false) :
    (sqrt (.signed false a)).height ≤ a.rank ∨
      (sqrt (.signed false a)).height ≤ nearestRank one 1 := by
  by_cases ha₀ : a.rank = 0
  · rw [sqrt_of_rank_eq_zero ha₀]
    exact .inl le_rfl
  · rw [sqrt_of_finite ha ha₀, height_nearest, if_neg (by decide)]
    have hbound : ∀ bound, a.units * one ≤ bound * bound →
        nearestRank (2 * (a.units * one).sqrt +
          if (a.units * one).sqrt * (a.units * one).sqrt = a.units * one then 0 else 1) 2 ≤
        nearestRank bound 1 := by
      intro bound hsquare
      refine nearestRank_mono Nat.two_pos Nat.one_pos ?_
      rw [Nat.mul_one, Nat.mul_comm bound 2]
      exact two_mul_sqrt_add_le hsquare
    rcases Nat.le_total a.units one with hle | hle
    · exact .inr (hbound one (Nat.mul_le_mul_right one hle))
    · refine .inl ((hbound a.units (Nat.mul_le_mul_left a.units hle)).trans_eq ?_)
      exact nearestRank_unitsOfRank a.rank_le

theorem nearestRank_one_lt : nearestRank one 1 < infinityRank := by
  rw [← Nat.one_mul one]
  exact nearestRank_mul_one_lt (by decide)

/-- Taking a root neither makes an infinity nor takes one away. -/
theorem exists_sqrt (a : Magnitude) :
    ∃ m, sqrt (.signed false a) = .signed false m ∧ m.isInfinite = a.isInfinite := by
  cases ha : a.isInfinite with
  | true => exact ⟨a, sqrt_of_infinite ha, ha⟩
  | false =>
    have hne : sqrt (.signed false a) ≠ .nan := by
      simp only [sqrt, ha]
      split_ifs <;> simp_all [nearest]
    obtain ⟨m, hm⟩ := (isUnsigned_positive a).sqrt.exists_magnitude hne
    have hle := height_sqrt_le ha
    rw [hm, height_positive] at hle
    refine ⟨m, hm, isInfinite_eq_false_of_rank_lt ?_⟩
    rcases hle with hle | hle
    · exact hle.trans_lt (Magnitude.rank_lt_of_finite ha)
    · exact hle.trans_lt nearestRank_one_lt

/-! ## Counts -/

theorem units_nearest_mono {num num' : Nat} (h : num ≤ num') :
    (Magnitude.nearest num 1).units ≤ (Magnitude.nearest num' 1).units :=
  unitsOfRank_mono (nearestRank_mono_left Nat.one_pos h) (nearestRank_le_infinityRank _ _)

theorem one_le_units_nearest {num : Nat} (h : one ≤ num) :
    one ≤ (Magnitude.nearest num 1).units := by
  have hone := units_nearest_mul_one (n := 1) (by decide)
  rw [Nat.one_mul] at hone
  rw [← hone]
  exact units_nearest_mono h

theorem isInfinite_nearest_mul_one {n : Nat} (h : n ≤ Nat.pow 2 64) :
    (Magnitude.nearest (n * one) 1).isInfinite = false :=
  isInfinite_eq_false_of_rank_lt (nearestRank_mul_one_lt h)

theorem isFinite_ofNat_iff {n : Nat} :
    (ofNat n).isFinite = true ↔ (Magnitude.nearest (n * one) 1).isInfinite = false := by
  show (!(Magnitude.nearest (n * one) 1).isInfinite) = true ↔ _
  rw [Bool.not_eq_true']

/-- A count that fits a word is not taken for infinity. -/
theorem isFinite_ofNat {n : Nat} (h : n ≤ Nat.pow 2 64) : (ofNat n).isFinite = true :=
  isFinite_ofNat_iff.mpr (isInfinite_nearest_mul_one h)

/-- A count that is not taken for infinity can be divided by, unless it is zero. -/
theorem exists_ofNat {n : Nat} (h : 1 ≤ n) (hn : (ofNat n).isFinite = true) :
    ∃ m, ofNat n = .signed false m ∧ IsDivisor m :=
  ⟨_, rfl, isFinite_ofNat_iff.mp hn, one_le_units_nearest (Nat.le_mul_of_pos_left one h)⟩

theorem ofNat_sub_one (n : Nat) : (ofNat n).sub (ofNat 1) =
    if (Magnitude.nearest (n * one) 1).isInfinite then ofNat n
    else addFinite false (Magnitude.nearest (n * one) 1).units true one := by
  have hfinite := isInfinite_nearest_mul_one (n := 1) (by decide)
  have hone := units_nearest_mul_one (n := 1) (by decide)
  rw [Nat.one_mul] at hfinite hone
  simp only [ofNat, nearest, sub, neg, add, hfinite, hone, Nat.one_mul, Bool.false_and,
    Bool.false_eq_true, if_false, Bool.not_false]

/-- One less than a count of at least one has no minus sign. -/
theorem isUnsigned_ofNat_sub_one {n : Nat} (h : 1 ≤ n) :
    IsUnsigned ((ofNat n).sub (ofNat 1)) := by
  have hle : one ≤ (Magnitude.nearest (n * one) 1).units :=
    one_le_units_nearest (Nat.le_mul_of_pos_left one h)
  rw [ofNat_sub_one, addFinite]
  split_ifs with hinf hsign hlt hgt
  · exact isUnsigned_ofNat n
  · exact isUnsigned_nearest _ _
  · exact isUnsigned_nearest _ _
  · omega
  · exact isUnsigned_zero

/-- One less than a count of two or more is at least one, and not infinite. -/
theorem exists_ofNat_sub_one {n : Nat} (h : 2 ≤ n) (hn : (ofNat n).isFinite = true) :
    ∃ m, (ofNat n).sub (ofNat 1) = .signed false m ∧ IsDivisor m := by
  have hfinite := isFinite_ofNat_iff.mp hn
  have htwo : 2 * one ≤ (Magnitude.nearest (n * one) 1).units := by
    rw [← units_nearest_mul_one (n := 2) (by decide)]
    exact units_nearest_mono (Nat.mul_le_mul_right one h)
  have hone := one_pos
  rw [ofNat_sub_one, hfinite, addFinite]
  generalize hm : Magnitude.nearest (n * one) 1 = m at hfinite htwo ⊢
  have hlt : one < m.units := by omega
  refine ⟨.nearest (m.units - one) 1, ?_, ?_, ?_⟩
  · simp [hlt, nearest]
  · refine isInfinite_eq_false_of_rank_lt ?_
    calc nearestRank (m.units - one) 1 ≤ nearestRank m.units 1 :=
          nearestRank_mono_left Nat.one_pos (Nat.sub_le _ _)
      _ = m.rank := nearestRank_unitsOfRank m.rank_le
      _ < infinityRank := Magnitude.rank_lt_of_finite hfinite
  · exact one_le_units_nearest (by omega)

end TimeTrials.Number.Binary64
