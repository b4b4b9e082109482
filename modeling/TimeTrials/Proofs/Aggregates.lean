import Mathlib.Data.List.Induction
import TimeTrials.Proofs.Number.Unsigned
import TimeTrials.Statistics

/-!
# Means and deviations

An aggregate is computed from times without looking at them again, so what it can be is a matter of what
the times are.

Of arbitrary times nothing is known but that squares have no minus sign, and so neither has the
deviation (`isUnsigned_deviation`).  It may be a NaN.

Valid times are negative zero, or finite without a minus sign (`isValidTime_iff`).  Negative zero
changes no sum, so a sum is negative zero if all of them are and has no minus sign otherwise
(`sum_eq_negativeZero`, `exists_sum`).  Nothing that is done with it then makes a NaN, and the one
place where an infinity can arise is a sum: `exists_meanOf`, `exists_deviationOf`.
-/

namespace TimeTrials

open Number (Binary64 Magnitude)
open Number.Binary64

/-- A valid time is negative zero, or finite without a minus sign. -/
theorem isValidTime_iff {x : Binary64} :
    isValidTime x = true ↔
      x = .negativeZero ∨ ∃ m, x = .signed false m ∧ m.isInfinite = false := by
  cases x with
  | nan => simp [isValidTime, isFinite, negativeZero]
  | signed negative m =>
    cases negative with
    | false => simp [isValidTime, isFinite, negativeZero, le, position, zero, Magnitude.zero]
    | true =>
      obtain ⟨rank, rank_le⟩ := m
      have hrank : ¬ 0 = Number.infinityRank := Number.infinityRank_pos.ne
      simp only [isValidTime, isFinite, negativeZero, le, position, zero, Magnitude.zero,
        Magnitude.isInfinite]
      simp
      rintro rfl
      exact hrank

namespace Aggregate

/-! ## Sums -/

theorem sum_append_singleton (samples : List Binary64) (x : Binary64) :
    sum (samples ++ [x]) = (sum samples).add x := by
  rw [sum, List.foldl_append]
  rfl

theorem isUnsigned_sum {samples : List Binary64} (hne : samples ≠ [])
    (h : ∀ x ∈ samples, x.IsUnsigned) : (sum samples).IsUnsigned := by
  induction samples using List.reverseRecOn with
  | nil => exact absurd rfl hne
  | append_singleton samples x ih =>
    have hx : x.IsUnsigned := h x (by simp)
    have hsamples : ∀ y ∈ samples, y.IsUnsigned := fun y hy => h y (List.mem_append_left _ hy)
    rw [sum_append_singleton]
    by_cases hnil : samples = []
    · have hsum : sum samples = .negativeZero := by
        rw [hnil]
        rfl
      rw [hsum, negativeZero_add]
      exact hx
    · exact (ih hnil hsamples).add hx

theorem sum_eq_negativeZero {samples : List Binary64} (h : ∀ x ∈ samples, x = .negativeZero) :
    sum samples = .negativeZero := by
  induction samples using List.reverseRecOn with
  | nil => rfl
  | append_singleton samples x ih =>
    have hx : x = .negativeZero := h x (by simp)
    rw [sum_append_singleton, hx, add_negativeZero]
    exact ih fun y hy => h y (List.mem_append_left _ hy)

/-- Negative zero is not seen in a sum that has another term. -/
theorem exists_sum {samples : List Binary64}
    (h : ∀ x ∈ samples, x = .negativeZero ∨ ∃ m, x = .signed false m)
    (hsome : ∃ x ∈ samples, x ≠ .negativeZero) : ∃ m, sum samples = .signed false m := by
  induction samples using List.reverseRecOn with
  | nil => simp at hsome
  | append_singleton samples x ih =>
    have hsamples : ∀ y ∈ samples, y = .negativeZero ∨ ∃ m, y = .signed false m :=
      fun y hy => h y (List.mem_append_left _ hy)
    rw [sum_append_singleton]
    by_cases hbefore : ∃ y ∈ samples, y ≠ .negativeZero
    · obtain ⟨m, hm⟩ := ih hsamples hbefore
      rcases h x (by simp) with hx | ⟨m', hx⟩
      · exact ⟨m, by rw [hx, add_negativeZero, hm]⟩
      · rw [hm, hx]
        exact exists_add m m'
    · have hzero : sum samples = .negativeZero := by
        refine sum_eq_negativeZero fun y hy => ?_
        by_contra hy'
        exact hbefore ⟨y, hy, hy'⟩
      rw [hzero, negativeZero_add]
      obtain ⟨y, hy, hy'⟩ := hsome
      rcases List.mem_append.mp hy with hmem | hmem
      · exact absurd ⟨y, hmem, hy'⟩ hbefore
      · obtain rfl : y = x := List.mem_singleton.mp hmem
        exact (h y (by simp)).resolve_left hy'

/-! ## Any samples -/

/-- The aggregate of samples, if there are any. -/
theorem ofSamples?_eq {samples : List Binary64} (hne : samples ≠ []) :
    ofSamples? samples = some ⟨samples.length, meanOf samples,
      if samples.length = 1 then .zero else deviationOf (meanOf samples) samples⟩ := by
  match samples with
  | [] => exact absurd rfl hne
  | [x] => rfl
  | x :: y :: rest => rfl

theorem ofSamples?_eq_some_iff {samples : List Binary64} {aggregate : Aggregate} :
    ofSamples? samples = some aggregate ↔ samples ≠ [] ∧
      aggregate = ⟨samples.length, meanOf samples,
        if samples.length = 1 then .zero else deviationOf (meanOf samples) samples⟩ := by
  by_cases hne : samples = []
  · rw [hne]
    exact iff_of_false (by simp [ofSamples?]) fun h => h.1 rfl
  · rw [ofSamples?_eq hne, Option.some_inj, and_iff_right hne, eq_comm]

theorem isUnsigned_deviationOf (mean : Binary64) {samples : List Binary64} (hne : samples ≠ []) :
    (deviationOf mean samples).IsUnsigned := by
  have hsum : (sum (samples.map (squaredDistance mean))).IsUnsigned := by
    refine isUnsigned_sum (by simpa using hne) ?_
    intro square hsquare
    obtain ⟨x, -, rfl⟩ := List.mem_map.mp hsquare
    exact isUnsigned_mul_self (x.sub mean)
  have hcount : 1 ≤ samples.length := List.length_pos_iff.mpr hne
  exact (hsum.div (isUnsigned_ofNat_sub_one hcount)).sqrt

/-- A deviation has no minus sign, whatever the samples are. -/
theorem isUnsigned_deviation {samples : List Binary64} {aggregate : Aggregate}
    (h : ofSamples? samples = some aggregate) : aggregate.deviation.IsUnsigned := by
  obtain ⟨hne, rfl⟩ := ofSamples?_eq_some_iff.mp h
  split_ifs
  · exact isUnsigned_zero
  · exact isUnsigned_deviationOf _ hne

/-! ## Valid times -/

section

variable {times : List Binary64}

theorem eq_negativeZero_or_of_valid (hvalid : ∀ time ∈ times, isValidTime time = true) :
    ∀ time ∈ times, time = .negativeZero ∨ ∃ m, time = .signed false m := by
  intro time htime
  rcases isValidTime_iff.mp (hvalid time htime) with hzero | ⟨m, hm, -⟩
  · exact .inl hzero
  · exact .inr ⟨m, hm⟩

/-- The mean of negative zeros is negative zero. -/
theorem meanOf_eq_negativeZero (hne : times ≠ [])
    (hcount : (ofNat times.length).isFinite = true)
    (h : ∀ time ∈ times, time = .negativeZero) : meanOf times = .negativeZero := by
  obtain ⟨n, hn, hdivisor⟩ := exists_ofNat (List.length_pos_iff.mpr hne) hcount
  rw [meanOf, sum_eq_negativeZero h, hn, negativeZero_div hdivisor]

/-- The mean of other valid times has no minus sign, and it is infinite just when their sum is. -/
theorem exists_meanOf (hcount : (ofNat times.length).isFinite = true)
    (hvalid : ∀ time ∈ times, isValidTime time = true)
    (hsome : ∃ time ∈ times, time ≠ .negativeZero) :
    ∃ total mean, sum times = .signed false total ∧ meanOf times = .signed false mean ∧
      mean.isInfinite = total.isInfinite := by
  obtain ⟨total, htotal⟩ := exists_sum (eq_negativeZero_or_of_valid hvalid) hsome
  have hpos : 1 ≤ times.length := by
    obtain ⟨time, htime, -⟩ := hsome
    exact List.length_pos_of_mem htime
  obtain ⟨n, hn, hdivisor⟩ := exists_ofNat hpos hcount
  obtain ⟨mean, hmean, hinf⟩ := exists_div total hdivisor
  exact ⟨total, mean, htotal, by rw [meanOf, htotal, hn, hmean], hinf⟩

theorem meanOf_ne_nan (hne : times ≠ []) (hcount : (ofNat times.length).isFinite = true)
    (hvalid : ∀ time ∈ times, isValidTime time = true) : meanOf times ≠ .nan := by
  by_cases hsome : ∃ time ∈ times, time ≠ .negativeZero
  · obtain ⟨-, mean, -, hmean, -⟩ := exists_meanOf hcount hvalid hsome
    rw [hmean]
    exact Binary64.noConfusion
  · have hall : ∀ time ∈ times, time = .negativeZero := by simpa using hsome
    rw [meanOf_eq_negativeZero hne hcount hall]
    exact Binary64.noConfusion

/-- The squared distances of valid times from a number have a sum without a minus sign. -/
theorem exists_sum_squares {mean : Binary64} (hmean : mean ≠ .nan) (hne : times ≠ [])
    (hvalid : ∀ time ∈ times, isValidTime time = true) :
    ∃ total, sum (times.map (squaredDistance mean)) = .signed false total := by
  have hsquare : ∀ time ∈ times, ∃ m, squaredDistance mean time = .signed false m := by
    intro time htime
    have hfinite : time.isFinite = true := (Bool.and_eq_true_iff.mp (hvalid time htime)).1
    exact exists_mul_self (sub_ne_nan hfinite hmean)
  refine exists_sum ?_ ?_
  · intro square hmem
    obtain ⟨time, htime, rfl⟩ := List.mem_map.mp hmem
    exact .inr (hsquare time htime)
  · obtain ⟨time, htime⟩ := List.exists_mem_of_ne_nil times hne
    obtain ⟨m, hm⟩ := hsquare time htime
    refine ⟨_, List.mem_map_of_mem htime, ?_⟩
    rw [hm]
    exact isUnsigned_positive m _

/-- The deviation of valid times is infinite just when the sum of the squares is. -/
theorem exists_deviationOf {mean : Binary64} (hmean : mean ≠ .nan) (hmany : 2 ≤ times.length)
    (hcount : (ofNat times.length).isFinite = true)
    (hvalid : ∀ time ∈ times, isValidTime time = true) :
    ∃ total deviation, sum (times.map (squaredDistance mean)) = .signed false total ∧
      deviationOf mean times = .signed false deviation ∧
      deviation.isInfinite = total.isInfinite := by
  have hne : times ≠ [] := List.length_pos_iff.mp (Nat.lt_of_lt_of_le Nat.two_pos hmany)
  obtain ⟨total, htotal⟩ := exists_sum_squares hmean hne hvalid
  obtain ⟨n, hn, hdivisor⟩ := exists_ofNat_sub_one hmany hcount
  obtain ⟨variance, hvariance, hinf⟩ := exists_div total hdivisor
  obtain ⟨deviation, hdeviation, hinf'⟩ := exists_sqrt variance
  refine ⟨total, deviation, htotal, ?_, hinf'.trans hinf⟩
  rw [deviationOf]
  rw [htotal, hn, hvariance, hdeviation]

/-- So many times that their count is taken for infinity have no mean above zero. -/
theorem height_meanOf_eq_zero (hcount : (ofNat times.length).isFinite = false) :
    (meanOf times).height = 0 := by
  have hinfinite : (Magnitude.nearest (times.length * Number.one) 1).isInfinite = true :=
    (Bool.not_eq_false' _).mp hcount
  rw [meanOf, ofNat, nearest, height_div _ (Magnitude.rank_ne_zero_of_infinite hinfinite),
    quotientHeight, if_pos hinfinite]

/-- A mean of valid times that is above zero has a deviation that is a number, however many there are. -/
theorem height_mean_eq_zero_or {aggregate : Aggregate} (h : ofSamples? times = some aggregate)
    (hvalid : ∀ time ∈ times, isValidTime time = true) :
    aggregate.mean.height = 0 ∨ ∃ m, aggregate.deviation = .signed false m := by
  obtain ⟨hne, rfl⟩ := ofSamples?_eq_some_iff.mp h
  have hpos : 1 ≤ times.length := List.length_pos_iff.mpr hne
  by_cases hsingle : times.length = 1
  · rw [if_pos hsingle]
    exact .inr ⟨_, rfl⟩
  · rw [if_neg hsingle]
    cases hcount : (ofNat times.length).isFinite with
    | false => exact .inl (height_meanOf_eq_zero hcount)
    | true =>
      obtain ⟨-, deviation, -, hdeviation, -⟩ :=
        exists_deviationOf (meanOf_ne_nan hne hcount hvalid) (by omega) hcount hvalid
      exact .inr ⟨deviation, hdeviation⟩

end

end Aggregate
end TimeTrials
