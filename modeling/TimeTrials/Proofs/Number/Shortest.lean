import TimeTrials.Proofs.Number.Exact

/-!
# The fewest digits read back

`Magnitude.shortest` is a search, and the search keeps a candidate only if it reads back.  What is
left to prove is that the exact expansion, which closes the search, reads back too, and that nothing
is lost when zeros are taken off the end.

* `Decimal.toMagnitude_push`, `toMagnitude_shift`, `toMagnitude_trim`: zeros at the end of the digits
  change nothing that is read, because they change nothing of the value.
* `Magnitude.toMagnitude_exact`: the exact expansion reads back, because its value is that of the magnitude.
* `Magnitude.toMagnitude_shortest`: the fewest digits read back.
-/

namespace TimeTrials.Number

namespace Decimal

/-! ## Zeros at the end of the digits -/

/-- The decimal with one more zero at the end of its digits. -/
def push (d : Decimal) : Decimal := ⟨d.digits * 10, d.exponent - 1⟩

/-- A zero at the end of the digits changes nothing that is read. -/
theorem toMagnitude_push (d : Decimal) : d.push.toMagnitude = d.toMagnitude := by
  refine toMagnitude_congr ?_
  rw [value, push, value, zpow_sub_one₀ (by norm_num)]
  push_cast
  ring

/-- The decimal with `k` more zeros at the end of its digits. -/
def shift (d : Decimal) (k : Nat) : Decimal := ⟨d.digits * Nat.pow 10 k, d.exponent - k⟩

theorem toMagnitude_shift (d : Decimal) (k : Nat) : (d.shift k).toMagnitude = d.toMagnitude := by
  induction k with
  | zero => simp [shift]
  | succ k ih =>
    have h : d.shift (k + 1) = (d.shift k).push := by
      simp only [shift, push, Nat.pow_eq, Nat.pow_succ, Nat.mul_assoc, Decimal.mk.injEq, true_and]
      omega
    rw [h, toMagnitude_push, ih]

theorem toMagnitude_trimZeros (fuel : Nat) (d : Decimal) :
    (d.trimZeros fuel).toMagnitude = d.toMagnitude := by
  induction fuel generalizing d with
  | zero => rfl
  | succ fuel ih =>
    rw [trimZeros]
    split
    · next h =>
      have hd : push ⟨d.digits / 10, d.exponent + 1⟩ = d := by
        rw [push]
        simp only [Nat.div_mul_cancel (Nat.dvd_of_mod_eq_zero h), Int.add_sub_cancel]
      rw [ih, ← toMagnitude_push, hd]
    · rfl

theorem toMagnitude_trim (d : Decimal) : d.trim.toMagnitude = d.toMagnitude := by
  rw [trim]
  split
  · next h => exact toMagnitude_congr (by rw [value, value, h, Nat.cast_zero, zero_mul, zero_mul])
  · exact toMagnitude_trimZeros _ d

end Decimal

/-! ## Exact digits, and the fewest -/

namespace Magnitude

-- The exponent is a variable in these, so that no power of `unitPlaces` is ever computed.
theorem cast_pow_ten (k : Nat) : ((Nat.pow 10 k : Nat) : ℚ) = (10 : ℚ) ^ k := Nat.cast_pow 10 k

theorem pow_five_mul_pow_two (k : Nat) : Nat.pow 5 k * Nat.pow 2 k = Nat.pow 10 k :=
  (Nat.mul_pow 5 2 k).symm

theorem one_eq : one = Nat.pow 2 unitPlaces := by
  decide +kernel

theorem scaledDigits_mul_one (m : Magnitude) :
    m.scaledDigits * one = m.units * Nat.pow 10 unitPlaces := by
  rw [scaledDigits, Nat.mul_assoc, one_eq, pow_five_mul_pow_two]

/-- The exact decimal of a magnitude denotes its value. -/
theorem value_exact (m : Magnitude) : m.exact.value * one = m.units := by
  have hten : (10 : ℚ) ^ unitPlaces ≠ 0 := pow_ne_zero unitPlaces (by norm_num)
  have hscaled : (m.scaledDigits * one : ℚ) = m.units * (10 : ℚ) ^ unitPlaces := by
    rw [← Nat.cast_mul, scaledDigits_mul_one, Nat.cast_mul, cast_pow_ten]
  refine mul_right_cancel₀ hten ?_
  rw [mul_right_comm, exact, Decimal.value_mul_pow, hscaled]

/-- So it reads back. -/
theorem toMagnitude_exact (m : Magnitude) : m.exact.toMagnitude = m := by
  have hvalue : m.exact.value * one * (1 : Nat) = m.units := by rw [Nat.cast_one, mul_one, value_exact]
  have hself := nearest_units_mul m Nat.one_pos
  rw [Nat.mul_one] at hself
  rw [Decimal.toMagnitude_of_value Nat.one_pos hvalue, hself]

theorem toMagnitude_of_mem_neighbours {m : Magnitude} {dropped : Nat} {d : Decimal}
    (h : d ∈ m.neighbours dropped) : d.toMagnitude = m := by
  rw [neighbours] at h
  exact of_decide_eq_true (List.mem_filter.mp h).2

/-- The decimal with the fewest digits reads back. -/
theorem toMagnitude_shortest (m : Magnitude) : m.shortest.toMagnitude = m := by
  rw [shortest]
  split
  · next h₀ =>
    have hzero : Decimal.toMagnitude ⟨0, 0⟩ = .zero := rfl
    exact hzero.trans (eq_of_rank_eq h₀.symm)
  · dsimp only
    rw [Decimal.toMagnitude_trim]
    generalize hfound : List.findSome? _ _ = found
    cases found with
    | none => exact toMagnitude_exact m
    | some d =>
      obtain ⟨length, -, hd⟩ := List.exists_of_findSome?_eq_some hfound
      exact toMagnitude_of_mem_neighbours (List.mem_of_mem_head? hd)

end Magnitude
end TimeTrials.Number
