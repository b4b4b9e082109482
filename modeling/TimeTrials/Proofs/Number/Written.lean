import Mathlib.Tactic.Ring
import TimeTrials.Number.Literal
import TimeTrials.Number.Style
import TimeTrials.Proofs.Number.Shortest

/-!
# Written numbers read back

Writing and reading share no code: a number is written by placing a point among its digits, and read
by taking runs of digits off the front of a text.  The runs are what ties the two together.

* `takeWhile_isDigit_append`, `dropWhile_isDigit_append`: a run of digits is taken whole.  Everything
  a number is written with besides digits ends a run.
* `Literal.unsigned?_append`: a literal from its parts, and so `unsigned?_positional` and
  `unsigned?_scientific`, one for each way of writing.
* `Literal.unsigned?_write`: what is read is the decimal that was written with some number of zeros
  at its end, which `Decimal.toMagnitude_shift` takes away.
* `Binary64.parse_write`: a finite number reads back from its text in every style, with its sign.
* `Whole.parseEither_toString`: so does a whole number of 64 bits.
-/

namespace TimeTrials.Number

/-! ## Runs of digits -/

/-- A run of digits. -/
def IsDigits (text : List Char) : Prop := ∀ c ∈ text, c.isDigit = true

/-- A text at whose start a run of digits ends. -/
def EndsDigits (text : List Char) : Prop := ∀ c ∈ text.head?, c.isDigit = false

theorem isDigits_digitsOf (n : Nat) : IsDigits (digitsOf n) :=
  fun _ hc => Nat.isDigit_of_mem_toDigits (by decide) (by decide) hc

theorem isDigits_zeros (n : Nat) : IsDigits (zeros n) := by
  intro c hc
  rw [(List.mem_replicate.mp hc).2]
  rfl

theorem length_zeros (n : Nat) : (zeros n).length = n := List.length_replicate

theorem zeros_append_zeros (j k : Nat) : zeros j ++ zeros k = zeros (j + k) :=
  List.replicate_append_replicate

theorem IsDigits.append {l r : List Char} (hl : IsDigits l) (hr : IsDigits r) :
    IsDigits (l ++ r) := by
  intro c hc
  rcases List.mem_append.mp hc with h | h
  · exact hl c h
  · exact hr c h

theorem EndsDigits.cons {c : Char} (h : c.isDigit = false) (rest : List Char) :
    EndsDigits (c :: rest) := by
  intro c' hc'
  rw [← Option.some.inj hc']
  exact h

theorem EndsDigits.nil : EndsDigits [] := fun _ hc => nomatch hc

/-- A run of digits is taken whole, and nothing after it. -/
theorem takeWhile_isDigit_append {l r : List Char} (hl : IsDigits l) (hr : EndsDigits r) :
    (l ++ r).takeWhile Char.isDigit = l := by
  rw [List.takeWhile_append_of_pos hl]
  cases r with
  | nil => rw [List.takeWhile_nil, List.append_nil]
  | cons c r =>
    rw [List.takeWhile_cons_of_neg (by rw [hr c rfl]; decide), List.append_nil]

theorem dropWhile_isDigit_append {l r : List Char} (hl : IsDigits l) (hr : EndsDigits r) :
    (l ++ r).dropWhile Char.isDigit = r := by
  rw [List.dropWhile_append_of_pos hl]
  cases r with
  | nil => rfl
  | cons c r => rw [List.dropWhile_cons_of_neg (by rw [hr c rfl]; decide)]

theorem digitsOf_ne_nil (n : Nat) : digitsOf n ≠ [] := Nat.toDigits_ne_nil

namespace Literal

theorem valueOf_eq (digits : List Char) : valueOf digits = Nat.ofDigitChars 10 digits 0 := by
  rw [Nat.ofDigitChars_eq_foldl]
  rfl

theorem valueOf_digitsOf (n : Nat) : valueOf (digitsOf n) = n := by
  rw [valueOf_eq, digitsOf, Nat.ofDigitChars_ten_toDigits]

theorem valueOf_append_zeros (digits : List Char) (k : Nat) :
    valueOf (digits ++ zeros k) = valueOf digits * Nat.pow 10 k := by
  rw [valueOf_eq, valueOf_eq, Nat.ofDigitChars_append, zeros, Nat.ofDigitChars_replicate_zero,
    Nat.mul_comm]
  rfl

theorem valueOf_zeros_append (k : Nat) (digits : List Char) :
    valueOf (zeros k ++ digits) = valueOf digits := by
  rw [valueOf_eq, valueOf_eq, Nat.ofDigitChars_append, zeros, Nat.ofDigitChars_replicate_zero,
    Nat.mul_zero]

/-! ## The parts of a literal -/

/-- A run of digits has no sign. -/
theorem sign_of_isDigits {text : List Char} (h : ∀ c ∈ text.head?, c.isDigit = true) :
    sign text = (false, text) := by
  cases text with
  | nil => rfl
  | cons c rest =>
    have hc : c.isDigit = true := h c rfl
    unfold sign
    split
    · next heq =>
      rw [(List.cons.inj heq).1] at hc
      exact absurd hc (by decide)
    · next heq =>
      rw [(List.cons.inj heq).1] at hc
      exact absurd hc (by decide)
    · rfl

theorem exponent?_integerText (p : Int) : exponent? ('e' :: integerText p) = some p := by
  have hsign : sign (integerText p) = (decide (p < 0), digitsOf p.natAbs) := by
    rw [integerText]
    split
    · next h => simp [sign, h]
    · next h =>
      rw [sign_of_isDigits fun c hc => isDigits_digitsOf _ c (List.mem_of_mem_head? hc)]
      simp [h]
  have hall : (digitsOf p.natAbs).all Char.isDigit = true :=
    List.all_eq_true.mpr (isDigits_digitsOf _)
  have hne : (digitsOf p.natAbs).isEmpty = false := by
    simpa using digitsOf_ne_nil p.natAbs
  rw [exponent?, hsign]
  simp only [hall, hne, valueOf_digitsOf, decide_true, Bool.true_or, if_true,
    Bool.not_true, Bool.or_self, Bool.false_eq_true, if_false, decide_eq_true_eq]
  split <;> congr 1 <;> omega

/-- A literal without a sign, from its parts. -/
theorem unsigned?_append {whole tail places rest : List Char} {e : Int} (hw : IsDigits whole)
    (hne : whole ≠ []) (ht : EndsDigits tail) (hf : fraction tail = (places, rest))
    (he : exponent? rest = some e) :
    unsigned? (whole ++ tail) = some ⟨valueOf (whole ++ places), e - places.length⟩ := by
  have hne' : whole.isEmpty = false := by simpa using hne
  rw [unsigned?]
  simp only [takeWhile_isDigit_append hw ht, dropWhile_isDigit_append hw ht, hf, hne',
    Bool.false_and, Bool.false_eq_true, if_false, he, Option.map_some]

theorem fraction_point {places : List Char} (rest : List Char) (hp : IsDigits places)
    (hr : EndsDigits rest) : fraction ('.' :: places ++ rest) = (places, rest) := by
  rw [List.cons_append, fraction, takeWhile_isDigit_append hp hr, dropWhile_isDigit_append hp hr]

theorem fraction_point_end {places : List Char} (hp : IsDigits places) :
    fraction ('.' :: places) = (places, []) := by
  have h := fraction_point [] hp EndsDigits.nil
  rwa [List.append_nil] at h

/-! ## Written decimals -/

/-- A whole number with zeros filled in, with or without a zero after the point. -/
theorem unsigned?_append_zeros (keepsPoint : Bool) {digits : List Char} (n : Nat)
    (hd : IsDigits digits) (hne : digits ≠ []) :
    ∃ k, unsigned? (digits ++ zeros n ++ if keepsPoint then ['.', '0'] else []) =
      some (Decimal.shift ⟨valueOf digits, n⟩ k) := by
  have hw : IsDigits (digits ++ zeros n) := hd.append (isDigits_zeros n)
  have hne' : digits ++ zeros n ≠ [] := by simp [hne]
  cases keepsPoint with
  | true =>
    have h := unsigned?_append hw hne' (EndsDigits.cons (by decide) _)
      (fraction_point_end (isDigits_zeros 1)) rfl
    refine ⟨n + 1, h.trans ?_⟩
    rw [List.append_assoc, zeros_append_zeros, valueOf_append_zeros, length_zeros, Decimal.shift]
    simp
  | false =>
    have h := unsigned?_append hw hne' EndsDigits.nil rfl rfl
    refine ⟨n, h.trans ?_⟩
    rw [List.append_nil, valueOf_append_zeros, Decimal.shift]
    simp

/-- A point that stands among the digits. -/
theorem unsigned?_point_among {digits : List Char} {n : Nat} (hd : IsDigits digits)
    (h : n < digits.length) :
    unsigned? (digits.take (digits.length - n) ++ '.' :: digits.drop (digits.length - n)) =
      some ⟨valueOf digits, -(n : Int)⟩ := by
  have hw : IsDigits (digits.take (digits.length - n)) :=
    fun c hc => hd c (List.mem_of_mem_take hc)
  have hp : IsDigits (digits.drop (digits.length - n)) :=
    fun c hc => hd c (List.mem_of_mem_drop hc)
  have hne : digits.take (digits.length - n) ≠ [] := by
    rw [← List.length_pos_iff, List.length_take]
    omega
  rw [unsigned?_append hw hne (EndsDigits.cons (by decide) _) (fraction_point_end hp) rfl,
    List.take_append_drop, List.length_drop, Nat.sub_sub_self (Nat.le_of_lt h), Int.zero_sub]

/-- A point that stands before the digits, with zeros filled in between. -/
theorem unsigned?_point_before {digits : List Char} {n : Nat} (hd : IsDigits digits)
    (h : digits.length ≤ n) :
    unsigned? ('0' :: '.' :: zeros (n - digits.length) ++ digits) =
      some ⟨valueOf digits, -(n : Int)⟩ := by
  have hp : IsDigits (zeros (n - digits.length) ++ digits) := (isDigits_zeros _).append hd
  have hu := unsigned?_append (isDigits_zeros 1) (List.cons_ne_nil _ _)
    (EndsDigits.cons (by decide) _) (fraction_point_end hp) rfl
  rw [← List.append_assoc, zeros_append_zeros, valueOf_zeros_append, List.length_append,
    length_zeros, Nat.sub_add_cancel h, Int.zero_sub] at hu
  exact hu

/-- Positional text denotes the decimal it is made from, zeros at the end aside. -/
theorem unsigned?_positional (keepsPoint : Bool) {digits : List Char} (e : Int)
    (hd : IsDigits digits) (hne : digits ≠ []) :
    ∃ k, unsigned? (positional keepsPoint digits e) =
      some (Decimal.shift ⟨valueOf digits, e⟩ k) := by
  rw [positional]
  split
  · next he =>
    obtain ⟨n, rfl⟩ := Int.eq_ofNat_of_zero_le he
    exact unsigned?_append_zeros keepsPoint n hd hne
  · next he =>
    obtain ⟨n, rfl⟩ := Int.exists_eq_neg_ofNat (Int.le_of_not_le he)
    rw [Int.neg_neg, Int.toNat_natCast]
    refine ⟨0, ?_⟩
    have hshift : Decimal.shift ⟨valueOf digits, -(n : Int)⟩ 0 = ⟨valueOf digits, -n⟩ := by
      simp [Decimal.shift]
    rw [hshift]
    dsimp only
    split
    · next hlt => exact unsigned?_point_among hd hlt
    · next hle => exact unsigned?_point_before hd (Nat.le_of_not_lt hle)

theorem unsigned?_scientific {digits : List Char} (power : Int)
    (hd : IsDigits digits) (hne : digits ≠ []) :
    unsigned? (scientific digits power) =
      some ⟨valueOf digits, power - (digits.length - 1 : Nat)⟩ := by
  have hr : EndsDigits ('e' :: integerText power) := EndsDigits.cons (by decide) _
  match digits with
  | [] => exact absurd rfl hne
  | [d] =>
    have hf : fraction ('e' :: integerText power) = ([], 'e' :: integerText power) := rfl
    have h := unsigned?_append hd hne hr hf (exponent?_integerText power)
    exact h
  | d :: d' :: rest =>
    have hw : IsDigits [d] := fun c hc => hd c (by simp_all)
    have hp : IsDigits (d' :: rest) := fun c hc => hd c (List.mem_cons_of_mem d hc)
    have ht : EndsDigits ('.' :: (d' :: rest) ++ 'e' :: integerText power) :=
      EndsDigits.cons (by decide) _
    exact unsigned?_append hw (List.cons_ne_nil _ _) ht (fraction_point _ hp hr)
      (exponent?_integerText power)

theorem unsigned?_write (style : Style) (d : Decimal) :
    ∃ k, unsigned? (d.write style) = some (d.shift k) := by
  have hd := isDigits_digitsOf d.digits
  have hne := digitsOf_ne_nil d.digits
  rw [Decimal.write]
  split
  · have h := unsigned?_positional style.keepsPoint d.exponent hd hne
    rwa [valueOf_digitsOf] at h
  · refine ⟨0, ?_⟩
    have hlen : 0 < (digitsOf d.digits).length := List.length_pos_iff.mpr hne
    rw [unsigned?_scientific _ hd hne, valueOf_digitsOf, Decimal.shift]
    simp
    omega

/-- A written decimal starts with a digit. -/
theorem exists_write_eq_cons (style : Style) (d : Decimal) :
    ∃ c rest, d.write style = c :: rest ∧ c.isDigit = true := by
  obtain ⟨c, rest, hc⟩ := List.exists_cons_of_ne_nil (digitsOf_ne_nil d.digits)
  have hdigit : c.isDigit = true :=
    isDigits_digitsOf d.digits c (by rw [hc]; exact List.mem_cons_self)
  rw [Decimal.write, hc]
  split
  · rw [positional]
    split
    · exact ⟨c, _, by rw [List.append_assoc, List.cons_append], hdigit⟩
    · dsimp only
      split
      · next hlt =>
        have hpos : 0 < (c :: rest).length - (-d.exponent).toNat := by omega
        obtain ⟨k, hk⟩ := Nat.exists_eq_add_of_lt hpos
        rw [hk, Nat.zero_add, List.take_succ_cons, List.cons_append]
        exact ⟨c, _, rfl, hdigit⟩
      · exact ⟨'0', _, rfl, rfl⟩
  · cases rest with
    | nil => exact ⟨c, _, rfl, hdigit⟩
    | cons c' rest => exact ⟨c, _, rfl, hdigit⟩

theorem named?_of_isDigit (negative : Bool) {c : Char} (rest : List Char)
    (h : c.isDigit = true) : named? negative (c :: rest) = none := by
  have hlow : c.toLower = c := by
    simp only [Char.isDigit, Bool.and_eq_true, decide_eq_true_eq] at h
    refine dif_neg fun hup => ?_
    exact absurd (UInt32.le_trans hup.1 h.2) (by decide)
  rw [named?, List.map_cons, hlow]
  split
  · next heq =>
    rw [(List.cons.inj heq).1] at h
    exact absurd h (by decide)
  · next heq =>
    rw [(List.cons.inj heq).1] at h
    exact absurd h (by decide)
  · next heq =>
    rw [(List.cons.inj heq).1] at h
    exact absurd h (by decide)
  · rfl

/-- A written decimal, with its sign, is a literal of that decimal. -/
theorem parse_signedText (style : Style) (negative : Bool) (d : Decimal) :
    ∃ k, parse (String.ofList (signedText negative (d.write style))) =
      .ok (.decimal negative (d.shift k)) := by
  obtain ⟨k, hk⟩ := unsigned?_write style d
  obtain ⟨c, rest, hc, hdigit⟩ := exists_write_eq_cons style d
  refine ⟨k, ?_⟩
  rw [hc] at hk ⊢
  have hsign : sign (signedText negative (c :: rest)) = (negative, c :: rest) := by
    cases negative with
    | true => rfl
    | false => exact sign_of_isDigits fun c' hc' => by rwa [← Option.some.inj hc']
  rw [parse, String.toList_ofList]
  split
  · next heq =>
    cases negative <;> cases heq
  · rw [hsign]
    simp only [named?_of_isDigit negative rest hdigit, hk]

end Literal

/-- A finite number reads back from its text, in every style. -/
theorem Binary64.parse_write (style : Style) {x : Binary64} (h : x.isFinite = true) :
    Binary64.parse (x.write style) = .ok x := by
  cases x with
  | nan => exact absurd h (by decide)
  | signed negative m =>
    have hm : m.isInfinite = false := by simpa [isFinite] using h
    obtain ⟨k, hk⟩ := Literal.parse_signedText style negative m.shortest
    rw [Binary64.write, hm, Binary64.parse, if_neg (by decide), hk]
    simp only [Except.map, Literal.toBinary64, Decimal.toMagnitude_shift,
      Magnitude.toMagnitude_shortest m]

/-! ## Whole numbers -/

namespace Whole

theorem digit?_of_isDigit {c : Char} (h : c.isDigit = true) :
    digit? 10 c = some (c.toNat - '0'.toNat) := by
  have hlt : c.toNat - '0'.toNat < 10 := by
    simp only [Char.isDigit, Bool.and_eq_true, decide_eq_true_eq, UInt32.le_iff_toNat_le] at h
    have hc : c.toNat ≤ 57 := h.2
    simp only [Char.reduceToNat]
    omega
  rw [digit?, if_pos h]
  exact Option.filter_some_pos (by simpa using hlt)

theorem le_ofDigitChars (digits : List Char) (value : Nat) :
    value ≤ Nat.ofDigitChars 10 digits value := by
  rw [Nat.ofDigitChars_eq_ofDigitChars_zero]
  exact Nat.le_add_right_of_le (Nat.le_mul_of_pos_left _ (Nat.pow_pos (by decide)))

/-- Digits whose value fits are read.  No number on the way is larger than the last one. -/
theorem readDigits_of_lt {digits : List Char} {value : Nat} (hd : IsDigits digits)
    (h : Nat.ofDigitChars 10 digits value < limit) :
    readDigits 10 value digits = .ok (Nat.ofDigitChars 10 digits value) := by
  induction digits generalizing value with
  | nil => rfl
  | cons c rest ih =>
    rw [Nat.ofDigitChars_cons] at h ⊢
    have hlt := Nat.lt_of_le_of_lt (le_ofDigitChars rest _) h
    rw [readDigits, digit?_of_isDigit (hd c List.mem_cons_self)]
    simp only [hlt, if_true]
    exact ih (fun c' hc' => hd c' (List.mem_cons_of_mem c hc')) h

theorem parseBase_of_isDigits {base : Nat} {digits : List Char} (hd : IsDigits digits)
    (hne : digits ≠ []) : parseBase base digits = readDigits base 0 digits := by
  have hplus : '+' ∉ digits := fun h => absurd (hd _ h) (by decide)
  unfold parseBase
  split
  · exact absurd rfl hne
  · exact absurd List.mem_cons_self hplus
  · exact absurd List.mem_cons_self hplus
  · rfl

/-- A whole number of 64 bits reads back. -/
theorem parseEither_toString {n : Nat} (h : n < limit) : parseEither (toString n) = .ok n := by
  have hd := isDigits_digitsOf n
  have hvalue : Nat.ofDigitChars 10 (digitsOf n) 0 = n := Nat.ofDigitChars_ten_toDigits
  have htext : (toString n).toList = digitsOf n := Nat.toList_repr
  rw [parseEither, htext]
  split
  · next heq =>
    rw [heq] at hd
    exact absurd (hd 'x' (by simp)) (by decide)
  · rw [parseBase_of_isDigits hd (digitsOf_ne_nil n), readDigits_of_lt hd (by rwa [hvalue]), hvalue]

end Whole
end TimeTrials.Number
