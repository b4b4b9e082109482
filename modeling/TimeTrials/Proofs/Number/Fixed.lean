import TimeTrials.Proofs.Number.Unsigned
import TimeTrials.Proofs.Number.Written

/-!
# Numbers with a fixed number of places

Tables and charts write numbers with a fixed number of places.  What a reader expects to see is digits,
a point, and as many digits as there are places (`IsPlain`).  A finite number without a minus sign is
written like that (`isPlain_fixed`); infinity has a name instead (`fixed_of_isInfinite`), and negative
zero keeps its sign (`fixed_negativeZero`).  Whatever the number is, there is nothing in its text but digits
and a few marks (`forall_mem_fixed`), all of which are single bytes (`utf8Size_of_mem_fixed`).
-/

namespace TimeTrials.Number

/-- A plain decimal: digits, a point, and the given number of digits. -/
def IsPlain (places : Nat) (text : String) : Prop :=
  ∃ whole fraction, text.toList = whole ++ '.' :: fraction ∧ whole ≠ [] ∧ IsDigits whole ∧
    IsDigits fraction ∧ fraction.length = places

/-- The text of negative zero. -/
def negativeZeroText (places : Nat) : String := String.ofList ('-' :: '0' :: '.' :: zeros places)

/-- The text of infinity. -/
def infinityText : String := "inf"

theorem Magnitude.exists_fixed (m : Magnitude) {places : Nat} (h : 0 < places) :
    ∃ whole fraction, m.fixed places = whole ++ '.' :: fraction ∧ whole ≠ [] ∧ IsDigits whole ∧
      IsDigits fraction ∧ fraction.length = places := by
  generalize hscaled : roundHalfEven m.scaledDigits (Nat.pow 10 (unitPlaces - places)) = scaled
  have hpos : 0 < Nat.pow 10 places := Nat.pow_pos (by decide)
  have hlength : (digitsOf (scaled % Nat.pow 10 places)).length ≤ places :=
    digitCount_le h (Nat.mod_lt _ hpos)
  refine ⟨digitsOf (scaled / Nat.pow 10 places), zeros (places -
    (digitsOf (scaled % Nat.pow 10 places)).length) ++ digitsOf (scaled % Nat.pow 10 places),
    ?_, digitsOf_ne_nil _, isDigits_digitsOf _, (isDigits_zeros _).append (isDigits_digitsOf _), ?_⟩
  · rw [fixed, hscaled, List.append_assoc, List.cons_append]
  · rw [List.length_append, length_zeros]
    omega

theorem Magnitude.scaledDigits_zero : Magnitude.zero.scaledDigits = 0 := by
  have hunits : Magnitude.zero.units = 0 := rfl
  rw [scaledDigits, hunits, Nat.zero_mul]

theorem Magnitude.fixed_zero {places : Nat} (h : 0 < places) :
    Magnitude.zero.fixed places = '0' :: '.' :: zeros places := by
  have hscaled : roundHalfEven 0 (Nat.pow 10 (unitPlaces - places)) = 0 := by
    simp [roundHalfEven]
  have hzeros : zeros (places - 1) ++ ['0'] = zeros places := by
    have hone : ['0'] = zeros 1 := rfl
    rw [hone, zeros_append_zeros, Nat.sub_add_cancel h]
  have hdigits : digitsOf 0 = ['0'] := rfl
  rw [fixed, scaledDigits_zero, hscaled, Nat.zero_mod, Nat.zero_div, hdigits]
  simp only [List.length_singleton, List.cons_append, List.nil_append, hzeros]

theorem utf8Size_of_isDigit {c : Char} (h : c.isDigit = true) : c.utf8Size = 1 := by
  obtain ⟨-, hnine⟩ := (Bool.and_eq_true _ _).mp h
  exact Char.utf8Size_eq_one_iff.mpr (UInt32.le_trans (of_decide_eq_true hnine) (by decide))

theorem le_toNat_of_isDigit {c : Char} (h : c.isDigit = true) : 32 ≤ c.toNat := by
  obtain ⟨hzero, -⟩ := (Bool.and_eq_true _ _).mp h
  have hle : 48 ≤ c.toNat := UInt32.le_iff_toNat_le.mp (of_decide_eq_true hzero)
  omega

theorem utf8Size_of_mem_of_all {text : List Char} (h : text.all (·.utf8Size == 1) = true) {c : Char}
    (hc : c ∈ text) : c.utf8Size = 1 :=
  eq_of_beq (List.all_eq_true.mp h c hc)

/-- What holds of digits and of the point holds of every character of a magnitude. -/
theorem Magnitude.forall_mem_fixed {p : Char → Prop} (hdigit : ∀ c : Char, c.isDigit = true → p c)
    (hpoint : p '.') {m : Magnitude} {places : Nat} {c : Char} (h : c ∈ m.fixed places) : p c := by
  simp only [fixed, List.mem_append, List.mem_cons] at h
  rcases h with (hwhole | rfl | hzeros) | hdigits
  · exact hdigit c (isDigits_digitsOf _ c hwhole)
  · exact hpoint
  · exact hdigit c (isDigits_zeros _ c hzeros)
  · exact hdigit c (isDigits_digitsOf _ c hdigits)

namespace Binary64

theorem isPlain_fixed {m : Magnitude} (hm : m.isInfinite = false) {places : Nat} (h : 0 < places) :
    IsPlain places (fixed places (.signed false m)) := by
  obtain ⟨whole, fraction, heq, hparts⟩ := m.exists_fixed h
  refine ⟨whole, fraction, ?_, hparts⟩
  simp [fixed, hm, heq, signedText]

theorem fixed_of_isInfinite {m : Magnitude} (hm : m.isInfinite = true) (places : Nat) :
    fixed places (.signed false m) = infinityText := by
  simp only [fixed, hm, if_true, signedText, Bool.false_eq_true, if_false]
  rfl

theorem fixed_negativeZero {places : Nat} (h : 0 < places) :
    fixed places negativeZero = negativeZeroText places := by
  have hfinite : Magnitude.zero.isInfinite = false := rfl
  simp only [negativeZero, fixed, hfinite, Magnitude.fixed_zero h, signedText, negativeZeroText,
    Bool.false_eq_true, if_true, if_false]

theorem isPlain_fixed_zero {places : Nat} (h : 0 < places) : IsPlain places (zero.fixed places) :=
  isPlain_fixed rfl h

/-- The characters in the text of a number that are no digits: its point and its sign, and those in the
names of infinity and of what is no number. -/
def marks : List Char := ['.', '-', 'i', 'n', 'f', 'N', 'a']

/-- What holds of digits and of these holds of every character in the text of a number. -/
theorem forall_mem_fixed {p : Char → Prop} (hdigit : ∀ c : Char, c.isDigit = true → p c)
    (hmarks : ∀ c ∈ marks, p c) {x : Binary64} {places : Nat} {c : Char}
    (h : c ∈ (x.fixed places).toList) : p c := by
  cases x with
  | nan =>
    have hmem : c ∈ "NaN".toList := h
    have hname : "NaN".toList ⊆ marks := by simp [marks]
    exact hmarks c (hname hmem)
  | signed negative m =>
    have hunsigned : ∀ c ∈ (if m.isInfinite then ['i', 'n', 'f'] else m.fixed places), p c := by
      intro c hc
      split_ifs at hc
      · have hname : ['i', 'n', 'f'] ⊆ marks := by simp [marks]
        exact hmarks c (hname hc)
      · exact Magnitude.forall_mem_fixed hdigit (hmarks '.' (by simp [marks])) hc
    rw [fixed, String.toList_ofList, signedText] at h
    cases negative with
    | false =>
      rw [if_neg (by decide)] at h
      exact hunsigned c h
    | true =>
      rw [if_pos rfl] at h
      rcases List.mem_cons.mp h with rfl | hrest
      · exact hmarks '-' (by simp [marks])
      · exact hunsigned c hrest

/-- The text of a number is made of single bytes, also that of an infinity and of a NaN. -/
theorem utf8Size_of_mem_fixed {x : Binary64} {places : Nat} {c : Char}
    (h : c ∈ (x.fixed places).toList) : c.utf8Size = 1 :=
  forall_mem_fixed (fun _ => utf8Size_of_isDigit) (fun _ => utf8Size_of_mem_of_all (by decide)) h

end Binary64
end TimeTrials.Number
