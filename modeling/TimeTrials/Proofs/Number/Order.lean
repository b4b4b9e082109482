import Mathlib.Data.Nat.Log
import TimeTrials.Proofs.Number.Nearest

/-!
# Arithmetic keeps the order

Rounding to nearest never turns two quotients around, and every operation rounds once.  So what holds
between exact results holds between rounded ones, as long as `<` is read as `≤`.

Charts look at the positive side of a number only: a column is counted from zero, and a NaN is drawn
there too.  `Binary64.height` is this view, the rank of a positive number and `0` for everything else,
and the operations that lead to a column are monotone in it with no side conditions.

* `nearestRank_mono`: rounding is monotone in the quotient.  Within a binade this is
  `roundHalfEven_mono`; between binades the first rank of the higher one lies in between.
* `unitsOfRank_mono`: so is the way back, from ranks to units.
* `Binary64.height_div_mono`, `height_mul_mono`, `roundTo_mono`: quotients, products and columns.
* `Binary64.zero_lt_iff`, `height_le_of_le`, `max_positive`: what comparisons say about heights.
* `Binary64.height_sub_le_height`, `height_le_height_add`: a distance takes away and adds.
-/

namespace TimeTrials.Number

/-! ## Rounding -/

theorem div_le_roundHalfEven (num den : Nat) : num / den ≤ roundHalfEven num den := by
  simp only [roundHalfEven]
  split_ifs <;> omega

theorem roundHalfEven_le_succ (num den : Nat) : roundHalfEven num den ≤ num / den + 1 := by
  simp only [roundHalfEven]
  split_ifs <;> omega

theorem roundHalfEven_mono {num num' : Nat} (den : Nat) (h : num ≤ num') :
    roundHalfEven num den ≤ roundHalfEven num' den := by
  have hfloor : num / den ≤ num' / den := Nat.div_le_div_right h
  rcases Nat.lt_or_eq_of_le hfloor with hlt | heq
  · calc roundHalfEven num den ≤ num / den + 1 := roundHalfEven_le_succ num den
      _ ≤ num' / den := hlt
      _ ≤ roundHalfEven num' den := div_le_roundHalfEven num' den
  · have hmod : num % den ≤ num' % den := by
      have hnum := Nat.div_add_mod num den
      have hnum' := Nat.div_add_mod num' den
      rw [heq] at hnum
      omega
    simp only [roundHalfEven, heq]
    split_ifs <;> omega

/-- A quotient rounds up to a bound on it at most. -/
theorem roundHalfEven_le {num den bound : Nat} (h : num ≤ bound * den) (hd : 0 < den) :
    roundHalfEven num den ≤ bound := by
  calc roundHalfEven num den ≤ roundHalfEven (bound * den) den := roundHalfEven_mono den h
    _ = bound := roundHalfEven_mul_self bound hd

theorem le_roundHalfEven {num den bound : Nat} (h : bound * den ≤ num) (hd : 0 < den) :
    bound ≤ roundHalfEven num den := by
  calc bound = roundHalfEven (bound * den) den := (roundHalfEven_mul_self bound hd).symm
    _ ≤ roundHalfEven num den := roundHalfEven_mono den h

/-- The step of a quotient, which tells its binade. -/
def stepOf (num den : Nat) : Nat := (num / den).log2 - 52

theorem nearestRank_eq (num den : Nat) : nearestRank num den = min infinityRank
    (stepOf num den * Nat.pow 2 52 + roundHalfEven num (den * Nat.pow 2 (stepOf num den))) := rfl

theorem stepOf_mono {num num' : Nat} (den : Nat) (h : num ≤ num') :
    stepOf num den ≤ stepOf num' den := by
  have hfloor : num / den ≤ num' / den := Nat.div_le_div_right h
  have hlog : (num / den).log2 ≤ (num' / den).log2 := by
    rw [Nat.log2_eq_log_two, Nat.log2_eq_log_two]
    exact Nat.log_mono_right hfloor
  exact Nat.sub_le_sub_right hlog 52

/-- Numbers of a binade and of the ones below it stay below the end of the binade. -/
theorem roundHalfEven_step_le {num den : Nat} (hd : 0 < den) :
    roundHalfEven num (den * Nat.pow 2 (stepOf num den)) ≤ Nat.pow 2 53 := by
  have hpos : 0 < Nat.pow 2 (stepOf num den) := Nat.pow_pos (by decide)
  refine roundHalfEven_le ?_ (Nat.mul_pos hd hpos)
  have hlog : num / den < Nat.pow 2 ((num / den).log2 + 1) := Nat.lt_log2_self
  have hexp : (num / den).log2 + 1 ≤ 53 + stepOf num den := by
    rw [stepOf]
    omega
  have hlt : num / den < Nat.pow 2 (53 + stepOf num den) :=
    lt_of_lt_of_le hlog (two_pow_le_two_pow hexp)
  have hsplit : Nat.pow 2 (53 + stepOf num den) = Nat.pow 2 53 * Nat.pow 2 (stepOf num den) :=
    Nat.pow_add 2 53 _
  rw [hsplit] at hlt
  calc num ≤ Nat.pow 2 53 * Nat.pow 2 (stepOf num den) * den :=
        Nat.le_of_lt ((Nat.div_lt_iff_lt_mul hd).mp hlt)
    _ = Nat.pow 2 53 * (den * Nat.pow 2 (stepOf num den)) := by ring

/-- Numbers of a higher binade are at least its first one. -/
theorem le_roundHalfEven_step {num den : Nat} (hd : 0 < den) (h : stepOf num den ≠ 0) :
    Nat.pow 2 52 ≤ roundHalfEven num (den * Nat.pow 2 (stepOf num den)) := by
  have hpos : 0 < Nat.pow 2 (stepOf num den) := Nat.pow_pos (by decide)
  refine le_roundHalfEven ?_ (Nat.mul_pos hd hpos)
  have hstep : 52 + stepOf num den = (num / den).log2 := by
    rw [stepOf] at h ⊢
    omega
  have hne : num / den ≠ 0 := by
    intro hzero
    rw [stepOf, hzero, Nat.log2_zero] at h
    exact h rfl
  have hle : Nat.pow 2 (52 + stepOf num den) ≤ num / den := by
    rw [hstep]
    exact Nat.log2_self_le hne
  have hsplit : Nat.pow 2 (52 + stepOf num den) = Nat.pow 2 52 * Nat.pow 2 (stepOf num den) :=
    Nat.pow_add 2 52 _
  rw [hsplit] at hle
  calc Nat.pow 2 52 * (den * Nat.pow 2 (stepOf num den))
      = Nat.pow 2 52 * Nat.pow 2 (stepOf num den) * den := by ring
    _ ≤ num := (Nat.le_div_iff_mul_le hd).mp hle

theorem nearestRank_mono_left {num num' den : Nat} (hd : 0 < den) (h : num ≤ num') :
    nearestRank num den ≤ nearestRank num' den := by
  rw [nearestRank_eq, nearestRank_eq]
  refine min_le_min_left _ ?_
  rcases Nat.lt_or_eq_of_le (stepOf_mono den h) with hlt | heq
  · have hbelow : roundHalfEven num (den * Nat.pow 2 (stepOf num den)) ≤ Nat.pow 2 53 :=
      roundHalfEven_step_le hd
    have habove := le_roundHalfEven_step hd (Nat.ne_of_gt (Nat.lt_of_le_of_lt (Nat.zero_le _) hlt))
    calc stepOf num den * Nat.pow 2 52 + roundHalfEven num (den * Nat.pow 2 (stepOf num den))
        ≤ stepOf num den * Nat.pow 2 52 + Nat.pow 2 53 := Nat.add_le_add_left hbelow _
      _ = (stepOf num den + 1) * Nat.pow 2 52 + Nat.pow 2 52 := by
        simp only [Nat.pow_eq]
        ring
      _ ≤ stepOf num' den * Nat.pow 2 52 + Nat.pow 2 52 :=
        Nat.add_le_add_right (Nat.mul_le_mul_right _ hlt) _
      _ ≤ _ := Nat.add_le_add_left habove _
  · rw [heq]
    exact Nat.add_le_add_left (roundHalfEven_mono _ h) _

/-- **Rounding is monotone.** -/
theorem nearestRank_mono {num den num' den' : Nat} (hd : 0 < den) (hd' : 0 < den')
    (h : num * den' ≤ num' * den) : nearestRank num den ≤ nearestRank num' den' := by
  rw [← nearestRank_mul_right num den hd', ← nearestRank_mul_right num' den' hd,
    Nat.mul_comm den' den]
  exact nearestRank_mono_left (Nat.mul_pos hd hd') h

theorem nearestRank_le_infinityRank (num den : Nat) : nearestRank num den ≤ infinityRank :=
  Nat.min_le_left _ _

theorem nearestRank_zero (den : Nat) : nearestRank 0 den = 0 := by
  simp [nearestRank, roundHalfEven]

theorem one_pos : 0 < one := by
  decide +kernel

theorem infinityRank_pos : 0 < infinityRank := by
  decide

/-! ## Units -/

theorem unitsOfRank_lt {rank rank' : Nat} (h : rank < rank') (h' : rank' ≤ infinityRank) :
    unitsOfRank rank < unitsOfRank rank' := by
  by_contra hle
  have hmono := nearestRank_mono_left Nat.one_pos (Nat.not_lt.mp hle)
  rw [nearestRank_unitsOfRank h', nearestRank_unitsOfRank (h.le.trans h')] at hmono
  exact absurd h (Nat.not_lt.mpr hmono)

theorem unitsOfRank_mono {rank rank' : Nat} (h : rank ≤ rank') (h' : rank' ≤ infinityRank) :
    unitsOfRank rank ≤ unitsOfRank rank' := by
  rcases Nat.lt_or_eq_of_le h with hlt | rfl
  · exact (unitsOfRank_lt hlt h').le
  · exact le_rfl

theorem unitsOfRank_zero : unitsOfRank 0 = 0 := rfl

namespace Magnitude

/-- The rank is all there is to a magnitude. -/
theorem eq_of_rank_eq {m m' : Magnitude} (h : m.rank = m'.rank) : m = m' := by
  cases m
  cases m'
  cases h
  rfl

theorem isInfinite_iff {m : Magnitude} : m.isInfinite = true ↔ m.rank = infinityRank := by
  rw [isInfinite, beq_iff_eq]

theorem rank_lt_of_finite {m : Magnitude} (h : m.isInfinite = false) : m.rank < infinityRank := by
  refine lt_of_le_of_ne m.rank_le fun heq => ?_
  rw [isInfinite_iff.mpr heq] at h
  cases h

theorem rank_ne_zero_of_infinite {m : Magnitude} (h : m.isInfinite = true) : m.rank ≠ 0 := by
  rw [isInfinite_iff.mp h]
  exact infinityRank_pos.ne'

end Magnitude

namespace Binary64

/-! ## Heights -/

/-- The rank of a positive number, and `0` for a negative one and a NaN. -/
def height : Binary64 → Nat
  | .signed false m => m.rank
  | _ => 0

@[simp] theorem height_nan : height .nan = 0 := rfl

@[simp] theorem height_positive (m : Magnitude) : height (.signed false m) = m.rank := rfl

@[simp] theorem height_negative (m : Magnitude) : height (.signed true m) = 0 := rfl

theorem height_le_infinityRank (x : Binary64) : x.height ≤ infinityRank := by
  cases x with
  | nan => exact Nat.zero_le _
  | signed negative m =>
    cases negative with
    | false => exact m.rank_le
    | true => exact Nat.zero_le _

@[simp] theorem height_infinite (negative : Bool) :
    height (infinite negative) = if negative then 0 else infinityRank := by
  cases negative <;> rfl

@[simp] theorem height_nearest (negative : Bool) (num den : Nat) :
    height (nearest negative num den) = if negative then 0 else nearestRank num den := by
  cases negative <;> rfl

/-- The height of a quotient by a positive number. -/
def quotientHeight (m : Magnitude) (height : Nat) : Nat :=
  if m.isInfinite then 0
  else if height = infinityRank then infinityRank
  else nearestRank (unitsOfRank height * one) m.units

theorem quotientHeight_zero (m : Magnitude) : quotientHeight m 0 = 0 := by
  have hne : ¬ 0 = infinityRank := infinityRank_pos.ne
  rw [quotientHeight, if_neg hne, unitsOfRank_zero, Nat.zero_mul, nearestRank_zero, ite_self]

theorem height_div (x : Binary64) {m : Magnitude} (hm : m.rank ≠ 0) :
    (x.div (.signed false m)).height = quotientHeight m x.height := by
  have hm' : (m.rank == 0) = false := beq_false_of_ne hm
  cases x with
  | nan => exact (quotientHeight_zero m).symm
  | signed negative a =>
    cases negative with
    | true =>
      rw [height_negative, quotientHeight_zero]
      simp only [div, hm']
      split_ifs <;> simp
    | false =>
      simp only [div, hm', quotientHeight, height_positive, ← Magnitude.isInfinite_iff]
      split_ifs <;> simp_all [Magnitude.units, Magnitude.zero]

theorem quotientHeight_mono {m : Magnitude} (hm : m.rank ≠ 0) {h h' : Nat} (hle : h ≤ h')
    (hbound : h' ≤ infinityRank) : quotientHeight m h ≤ quotientHeight m h' := by
  simp only [quotientHeight]
  split_ifs with hinf htop htop' htop'
  · exact le_rfl
  · exact le_rfl
  · omega
  · exact nearestRank_le_infinityRank _ _
  · refine nearestRank_mono_left (Magnitude.units_pos hm) ?_
    exact Nat.mul_le_mul_right one (unitsOfRank_mono hle hbound)

/-- Quotients by a positive number are in the order of what is divided. -/
theorem height_div_mono {x y : Binary64} {m : Magnitude} (hm : m.rank ≠ 0)
    (h : x.height ≤ y.height) :
    (x.div (.signed false m)).height ≤ (y.div (.signed false m)).height := by
  rw [height_div x hm, height_div y hm]
  exact quotientHeight_mono hm h (height_le_infinityRank y)

/-- The height of a product with a number that is not negative. -/
def productHeight (m : Magnitude) (height : Nat) : Nat :=
  if m.isInfinite then if height = 0 then 0 else infinityRank
  else if m.rank = 0 then 0
  else if height = infinityRank then infinityRank
  else nearestRank (unitsOfRank height * m.units) one

theorem productHeight_zero (m : Magnitude) : productHeight m 0 = 0 := by
  have hne : ¬ 0 = infinityRank := infinityRank_pos.ne
  rw [productHeight, if_pos rfl, if_neg hne, unitsOfRank_zero, Nat.zero_mul, nearestRank_zero,
    ite_self, ite_self]

theorem height_mul (x : Binary64) (m : Magnitude) :
    (x.mul (.signed false m)).height = productHeight m x.height := by
  cases x with
  | nan => exact (productHeight_zero m).symm
  | signed negative a =>
    cases negative with
    | true =>
      rw [height_negative, productHeight_zero]
      simp only [mul]
      split_ifs <;> simp
    | false =>
      have ha : a.isInfinite = true → ¬ a.rank = 0 := Magnitude.rank_ne_zero_of_infinite
      have hm : m.isInfinite = true → ¬ m.rank = 0 := Magnitude.rank_ne_zero_of_infinite
      simp only [mul, productHeight, height_positive, ← Magnitude.isInfinite_iff, Bool.or_eq_true,
        beq_iff_eq]
      split_ifs <;> simp_all [Magnitude.units, unitsOfRank_zero, nearestRank_zero]

theorem productHeight_mono (m : Magnitude) {h h' : Nat} (hle : h ≤ h')
    (hbound : h' ≤ infinityRank) : productHeight m h ≤ productHeight m h' := by
  simp only [productHeight]
  split_ifs with hinf hzero hzero' hzero' hm htop htop' htop'
  · exact le_rfl
  · exact Nat.zero_le _
  · omega
  · exact le_rfl
  · exact le_rfl
  · exact le_rfl
  · omega
  · exact nearestRank_le_infinityRank _ _
  · refine nearestRank_mono_left one_pos ?_
    exact Nat.mul_le_mul_right _ (unitsOfRank_mono hle hbound)

/-- Products with a number that is not negative are in the order of the other factor. -/
theorem height_mul_mono {x y : Binary64} (m : Magnitude) (h : x.height ≤ y.height) :
    (x.mul (.signed false m)).height ≤ (y.mul (.signed false m)).height := by
  rw [height_mul, height_mul]
  exact productHeight_mono m h (height_le_infinityRank y)

/-! ## Columns -/

/-- The whole number nearest to the number of a height, and no larger than `last`. -/
def columnAt (last height : Nat) : Nat :=
  if height = infinityRank then last else min last ((unitsOfRank height + one / 2) / one)

theorem columnAt_zero (last : Nat) : columnAt last 0 = 0 := by
  have hne : ¬ 0 = infinityRank := infinityRank_pos.ne
  have hhalf : (0 + one / 2) / one = 0 := by
    rw [Nat.zero_add]
    exact Nat.div_eq_of_lt (Nat.div_lt_self one_pos (by decide))
  rw [columnAt, if_neg hne, unitsOfRank_zero, hhalf, Nat.min_zero]

theorem roundTo_eq_columnAt (last : Nat) (x : Binary64) :
    x.roundTo last = columnAt last x.height := by
  cases x with
  | nan => exact (columnAt_zero last).symm
  | signed negative m =>
    cases negative with
    | true => exact (columnAt_zero last).symm
    | false =>
      simp only [roundTo, columnAt, height_positive, ← Magnitude.isInfinite_iff, Magnitude.units]

theorem roundTo_mono (last : Nat) {x y : Binary64} (h : x.height ≤ y.height) :
    x.roundTo last ≤ y.roundTo last := by
  rw [roundTo_eq_columnAt, roundTo_eq_columnAt]
  have hy := height_le_infinityRank y
  simp only [columnAt]
  split_ifs with hx hy' hy'
  · exact le_rfl
  · omega
  · exact Nat.min_le_left _ _
  · refine min_le_min_left last (Nat.div_le_div_right ?_)
    exact Nat.add_le_add_right (unitsOfRank_mono h hy) _

theorem roundTo_le (last : Nat) (x : Binary64) : x.roundTo last ≤ last := by
  rw [roundTo_eq_columnAt, columnAt]
  split_ifs
  · exact le_rfl
  · exact Nat.min_le_left _ _

/-! ## Comparisons -/

theorem signed_eq_infinite_iff {m : Magnitude} :
    Binary64.signed false m = .infinite false ↔ m.isInfinite = true := by
  obtain ⟨rank, rank_le⟩ := m
  simp [Binary64.infinite, Magnitude.infinity, Magnitude.isInfinite]

theorem exists_of_height_pos {x : Binary64} (h : 0 < x.height) : ∃ m, x = .signed false m := by
  cases x with
  | nan => exact absurd h (Nat.lt_irrefl 0)
  | signed negative m =>
    cases negative with
    | false => exact ⟨m, rfl⟩
    | true => exact absurd h (Nat.lt_irrefl 0)

/-- What is greater than zero is what has a height. -/
theorem zero_lt_iff {x : Binary64} : zero.lt x = true ↔ 0 < x.height := by
  cases x with
  | nan => simp [lt, position]
  | signed negative m => cases negative <;> simp [lt, position, zero, Magnitude.zero]

theorem height_le_of_le {x y : Binary64} (h : x.le y = true) : x.height ≤ y.height := by
  cases x with
  | nan => exact Nat.zero_le _
  | signed negative a =>
    cases negative with
    | true => exact Nat.zero_le _
    | false =>
      cases y with
      | nan => cases h
      | signed negative b =>
        cases negative with
        | true =>
          have hle : (a.rank : Int) ≤ -(b.rank : Int) := of_decide_eq_true h
          show a.rank ≤ 0
          omega
        | false =>
          have hle : (a.rank : Int) ≤ b.rank := of_decide_eq_true h
          exact Int.ofNat_le.mp hle

/-! ## Distances -/

theorem max_signed (negative negative' : Bool) (m m' : Magnitude) :
    (Binary64.signed negative m).max (.signed negative' m') =
      if lt (.signed negative m) (.signed negative' m') then .signed negative' m'
      else .signed negative m := rfl

/-- A number without a minus sign gives way to what is higher, and to nothing else. -/
theorem max_positive (m : Magnitude) (x : Binary64) :
    (Binary64.signed false m).max x = if m.rank < x.height then x else .signed false m := by
  cases x with
  | nan => rfl
  | signed negative b =>
    rw [max_signed]
    cases negative with
    | true =>
      have hlt : lt (.signed false m) (.signed true b) = false := by
        simp only [lt, position, Bool.false_eq_true, if_true, if_false, decide_eq_false_iff_not]
        omega
      rw [hlt]
      rfl
    | false => by_cases hlt : m.rank < b.rank <;> simp [lt, position, hlt]

theorem height_max_zero (x : Binary64) : (x.max .zero).height = x.height := by
  cases x with
  | nan => rfl
  | signed negative m =>
    rw [zero, max_signed]
    cases negative with
    | true => split_ifs <;> rfl
    | false =>
      have hlt : lt (.signed false m) (.signed false .zero) = false := by
        simp [lt, position, Magnitude.zero]
      rw [hlt]
      rfl

theorem height_le_height_add (x : Binary64) (m : Magnitude) :
    x.height ≤ (x.add (.signed false m)).height := by
  cases x with
  | nan => exact le_rfl
  | signed negative a =>
    cases negative with
    | true => exact Nat.zero_le _
    | false =>
      have hsum : a.rank ≤ nearestRank (a.units + m.units) 1 := by
        calc a.rank = nearestRank a.units 1 := (nearestRank_unitsOfRank a.rank_le).symm
          _ ≤ nearestRank (a.units + m.units) 1 :=
            nearestRank_mono_left Nat.one_pos (Nat.le_add_right _ _)
      have htop := a.rank_le
      simp only [add, addFinite]
      split_ifs <;> simp_all [Magnitude.isInfinite_iff]

theorem height_sub_le_height (x : Binary64) (m : Magnitude) :
    (x.sub (.signed false m)).height ≤ x.height := by
  cases x with
  | nan => exact le_rfl
  | signed negative a =>
    cases negative with
    | true =>
      simp only [sub, neg, add, addFinite]
      split_ifs <;> simp_all
    | false =>
      have hdifference : nearestRank (a.units - m.units) 1 ≤ a.rank := by
        calc nearestRank (a.units - m.units) 1 ≤ nearestRank a.units 1 :=
              nearestRank_mono_left Nat.one_pos (Nat.sub_le _ _)
          _ = a.rank := nearestRank_unitsOfRank a.rank_le
      simp only [sub, neg, add, addFinite]
      split_ifs <;> simp_all [zero, Magnitude.zero]

/-- A distance is taken away from a number and added to it; what is left is no higher than what comes
of the addition.  It does not matter whether the number is finite. -/
theorem height_sub_le_height_add (x : Binary64) {d : Binary64}
    (hd : d = .nan ∨ ∃ m, d = .signed false m) : (x.sub d).height ≤ (x.add d).height := by
  rcases hd with rfl | ⟨m, rfl⟩
  · cases x <;> exact le_rfl
  · exact (height_sub_le_height x m).trans (height_le_height_add x m)

end Binary64

end TimeTrials.Number
