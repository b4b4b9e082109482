import Mathlib.Data.List.Forall2
import Mathlib.Data.List.TakeWhile
import TimeTrials.Proofs.Number.Written

/-!
# The grammars of literals

What a literal is, and what it denotes, without a reader; and that the readers take the literals and
nothing else.

* `LiteralText`: decimal numbers, with their parts in the order in which they stand in a literal.
* `Literal.unsigned?_eq_some_iff`, `Literal.parse_eq_ok_iff`: the parts of a text can be told apart, for
  each is ended by a character that cannot be in it.
* `WholeText`: whole numbers, in one of two bases.
* `Whole.parseEither_eq_ok_iff`: the reader gives up at the first digit that takes the number past 64
  bits.  No number on the way is larger than the last one, so it gives up on the numbers that do not fit.
-/

namespace TimeTrials.Number

/-! ## Decimal literals -/

/-- A sign, and whether it is a minus. -/
inductive SignText : List Char → Bool → Prop
  | none : SignText [] false
  | plus : SignText ['+'] false
  | minus : SignText ['-'] true

/-- An exponent. -/
inductive ExponentText : List Char → Int → Prop
  | none : ExponentText [] 0
  | mark {mark : Char} {sign digits : List Char} {negative : Bool}
      (hmark : mark = 'e' ∨ mark = 'E') (hsign : SignText sign negative) (hne : digits ≠ [])
      (hdigits : IsDigits digits) :
      ExponentText (mark :: (sign ++ digits))
        (if negative then -(Literal.valueOf digits : Int) else Literal.valueOf digits)

/-- A decimal number without a sign.  If it has a point, there is a digit on one side of it. -/
inductive DecimalText : List Char → Decimal → Prop
  | whole {digits tail : List Char} {exponent : Int} (hne : digits ≠ []) (hdigits : IsDigits digits)
      (htail : ExponentText tail exponent) :
      DecimalText (digits ++ tail) ⟨Literal.valueOf digits, exponent⟩
  | point {whole places tail : List Char} {exponent : Int} (hne : whole ++ places ≠ [])
      (hwhole : IsDigits whole) (hplaces : IsDigits places) (htail : ExponentText tail exponent) :
      DecimalText (whole ++ '.' :: (places ++ tail))
        ⟨Literal.valueOf (whole ++ places), exponent - places.length⟩

/-- A decimal literal and what it denotes.  Names are in any case. -/
inductive LiteralText : List Char → Literal → Prop
  | nan {sign name : List Char} {negative : Bool} (hsign : SignText sign negative)
      (hname : name.map Char.toLower = ['n', 'a', 'n']) : LiteralText (sign ++ name) .nan
  | infinite {sign name : List Char} {negative : Bool} (hsign : SignText sign negative)
      (hname : name.map Char.toLower = ['i', 'n', 'f'] ∨
        name.map Char.toLower = ['i', 'n', 'f', 'i', 'n', 'i', 't', 'y']) :
      LiteralText (sign ++ name) (.infinite negative)
  | decimal {sign text : List Char} {negative : Bool} {value : Decimal}
      (hsign : SignText sign negative) (htext : DecimalText text value) :
      LiteralText (sign ++ text) (.decimal negative value)

namespace Literal

/-- A text that starts with no sign. -/
def LacksSign (text : List Char) : Prop := ∀ c ∈ text.head?, c ≠ '-' ∧ c ≠ '+'

theorem sign_append {sign text : List Char} {negative : Bool} (h : SignText sign negative)
    (htext : LacksSign text) : Literal.sign (sign ++ text) = (negative, text) := by
  cases h with
  | plus => rfl
  | minus => rfl
  | none =>
    rw [List.nil_append]
    unfold Literal.sign
    split
    · exact absurd rfl (htext '-' rfl).1
    · exact absurd rfl (htext '+' rfl).2
    · rfl

/-- Every text is a sign and what follows it. -/
theorem exists_sign (text : List Char) :
    ∃ sign, SignText sign (Literal.sign text).1 ∧ text = sign ++ (Literal.sign text).2 := by
  unfold Literal.sign
  split
  · exact ⟨_, .minus, rfl⟩
  · exact ⟨_, .plus, rfl⟩
  · exact ⟨_, .none, rfl⟩

theorem lacksSign_of_isDigits {digits : List Char} (h : IsDigits digits) : LacksSign digits := by
  intro c hc
  have hdigit := h c (List.mem_of_mem_head? hc)
  constructor <;>
  · rintro rfl
    exact absurd hdigit (by decide)

theorem exponent?_cons_eq_some_iff {mark : Char} {rest : List Char} {exponent : Int} :
    exponent? (mark :: rest) = some exponent ↔
      (mark = 'e' ∨ mark = 'E') ∧ (Literal.sign rest).2 ≠ [] ∧ IsDigits (Literal.sign rest).2 ∧
        (if (Literal.sign rest).1 then -(valueOf (Literal.sign rest).2 : Int)
          else valueOf (Literal.sign rest).2) = exponent := by
  rw [exponent?]
  generalize Literal.sign rest = parts
  obtain ⟨negative, digits⟩ := parts
  have hdigits : (digits.isEmpty || !digits.all Char.isDigit) = true ↔
      ¬ (digits ≠ [] ∧ IsDigits digits) := by
    rw [Bool.or_eq_true, List.isEmpty_iff, Bool.not_eq_true', ← Bool.not_eq_true, List.all_eq_true,
      not_and_or, not_not]
    rfl
  simp only [Bool.or_eq_true, decide_eq_true_eq, hdigits]
  split_ifs <;> simp_all

/-- The reader of exponents takes the exponents. -/
theorem exponent?_eq_some_iff {text : List Char} {exponent : Int} :
    exponent? text = some exponent ↔ ExponentText text exponent := by
  constructor
  · intro h
    cases text with
    | nil =>
      cases h
      exact .none
    | cons mark rest =>
      obtain ⟨hmark, hne, hdigits, rfl⟩ := exponent?_cons_eq_some_iff.mp h
      obtain ⟨sign, hsign, hrest⟩ := exists_sign rest
      have htext := ExponentText.mark hmark hsign hne hdigits
      rwa [← hrest] at htext
  · intro h
    cases h with
    | none => rfl
    | @mark mark sign digits negative hmark hsign hne hdigits =>
      rw [exponent?_cons_eq_some_iff, sign_append hsign (lacksSign_of_isDigits hdigits)]
      exact ⟨hmark, hne, hdigits, rfl⟩

/-- An exponent starts with no digit, and neither does its absence. -/
theorem endsDigits_of_exponentText {text : List Char} {exponent : Int}
    (h : ExponentText text exponent) : EndsDigits text := by
  cases h with
  | none => exact .nil
  | mark hmark =>
    refine .cons ?_ _
    rcases hmark with rfl | rfl <;> rfl

theorem fraction_of_exponentText {text : List Char} {exponent : Int}
    (h : ExponentText text exponent) : fraction text = ([], text) := by
  cases h with
  | none => rfl
  | mark hmark => rcases hmark with rfl | rfl <;> rfl

/-- Every text is a run of digits, a fraction if there is a point, and what follows. -/
theorem unsigned?_eq (text : List Char) :
    unsigned? text =
      if (text.takeWhile Char.isDigit).isEmpty &&
          (fraction (text.dropWhile Char.isDigit)).1.isEmpty then none
      else (exponent? (fraction (text.dropWhile Char.isDigit)).2).map fun exponent =>
        ⟨valueOf (text.takeWhile Char.isDigit ++ (fraction (text.dropWhile Char.isDigit)).1),
          exponent - (fraction (text.dropWhile Char.isDigit)).1.length⟩ :=
  rfl

/-- A literal without a sign, taken apart. -/
theorem decimalText_of_unsigned? {text : List Char} {value : Decimal}
    (h : unsigned? text = some value) : DecimalText text value := by
  have hwhole : IsDigits (text.takeWhile Char.isDigit) := fun c hc => List.mem_takeWhile_imp hc
  have hsplit : text = text.takeWhile Char.isDigit ++ text.dropWhile Char.isDigit :=
    List.takeWhile_append_dropWhile.symm
  rw [unsigned?_eq] at h
  generalize text.takeWhile Char.isDigit = whole at h hwhole hsplit
  generalize text.dropWhile Char.isDigit = tail at h hsplit
  subst hsplit
  split_ifs at h with hempty
  obtain ⟨exponent, hexponent, rfl⟩ := Option.map_eq_some_iff.mp h
  rw [exponent?_eq_some_iff] at hexponent
  unfold fraction at hempty hexponent ⊢
  split at hexponent
  · next rest =>
    have hplaces : IsDigits (rest.takeWhile Char.isDigit) := fun c hc => List.mem_takeWhile_imp hc
    have hne : whole ++ rest.takeWhile Char.isDigit ≠ [] := by simpa using hempty
    have htext := DecimalText.point hne hwhole hplaces hexponent
    rwa [List.takeWhile_append_dropWhile] at htext
  · next hpoint =>
    have hne : whole ≠ [] := by simpa using hempty
    simpa using DecimalText.whole hne hwhole hexponent

theorem unsigned?_of_decimalText {text : List Char} {value : Decimal} (h : DecimalText text value) :
    unsigned? text = some value := by
  cases h with
  | @whole digits tail exponent hne hdigits htail =>
    rw [unsigned?_append hdigits hne (endsDigits_of_exponentText htail)
      (fraction_of_exponentText htail) (exponent?_eq_some_iff.mpr htail)]
    simp
  | @point whole places tail exponent hne hwhole hplaces htail =>
    have hfraction := fraction_point tail hplaces (endsDigits_of_exponentText htail)
    have hempty : ¬ (whole.isEmpty && places.isEmpty) = true := by simpa using hne
    rw [List.cons_append] at hfraction
    rw [unsigned?_eq, takeWhile_isDigit_append hwhole (.cons (by decide) _),
      dropWhile_isDigit_append hwhole (.cons (by decide) _), hfraction, if_neg hempty,
      exponent?_eq_some_iff.mpr htail]
    rfl

/-- The reader of literals without a sign takes these literals. -/
theorem unsigned?_eq_some_iff {text : List Char} {value : Decimal} :
    unsigned? text = some value ↔ DecimalText text value :=
  ⟨decimalText_of_unsigned?, unsigned?_of_decimalText⟩

/-! ### Names and signs -/

/-- A name is taken for a literal, in any case. -/
theorem named?_eq_some_iff {negative : Bool} {text : List Char} {literal : Literal} :
    named? negative text = some literal ↔
      (text.map Char.toLower = ['n', 'a', 'n'] ∧ .nan = literal) ∨
      ((text.map Char.toLower = ['i', 'n', 'f'] ∨
        text.map Char.toLower = ['i', 'n', 'f', 'i', 'n', 'i', 't', 'y']) ∧
          .infinite negative = literal) := by
  rw [named?]
  generalize text.map Char.toLower = name
  split
  · simp
  · simp
  · simp
  · next hnan hinf hinfinity =>
    refine iff_of_false (by simp) ?_
    rintro (⟨h, -⟩ | ⟨h | h, -⟩)
    · exact hnan h
    · exact hinf h
    · exact hinfinity h

/-- A number starts with a digit or with its point. -/
theorem exists_cons_of_decimalText {text : List Char} {value : Decimal} (h : DecimalText text value) :
    ∃ c rest, text = c :: rest ∧ (c.isDigit = true ∨ c = '.') := by
  cases h with
  | whole hne hdigits =>
    obtain ⟨c, rest, rfl⟩ := List.exists_cons_of_ne_nil hne
    exact ⟨c, _, rfl, .inl (hdigits c List.mem_cons_self)⟩
  | @point whole places tail exponent _ hwhole =>
    cases whole with
    | nil => exact ⟨'.', _, rfl, .inr rfl⟩
    | cons c rest => exact ⟨c, _, rfl, .inl (hwhole c List.mem_cons_self)⟩

theorem named?_of_decimalText {text : List Char} {value : Decimal} (h : DecimalText text value)
    (negative : Bool) : named? negative text = none := by
  obtain ⟨c, rest, rfl, hdigit | rfl⟩ := exists_cons_of_decimalText h
  · exact named?_of_isDigit negative rest hdigit
  · rfl

theorem lacksSign_of_decimalText {text : List Char} {value : Decimal} (h : DecimalText text value) :
    LacksSign text := by
  obtain ⟨c, rest, rfl, hc⟩ := exists_cons_of_decimalText h
  intro c' hc'
  obtain rfl := Option.some.inj hc'
  constructor <;>
  · rintro rfl
    exact absurd hc (by decide)

theorem lacksSign_of_map_toLower {text name : List Char} {c : Char}
    (h : text.map Char.toLower = c :: name) (hminus : c ≠ '-') (hplus : c ≠ '+') :
    LacksSign text := by
  intro c' hc'
  obtain ⟨rest, rfl⟩ := List.head?_eq_some_iff.mp hc'
  obtain rfl := (List.cons.inj h).1
  constructor
  · rintro rfl
    exact hminus rfl
  · rintro rfl
    exact hplus rfl

/-- Behind its sign, a literal is a name or else a number. -/
theorem parse_eq_ok_iff_sign {text : String} {literal : Literal} :
    parse text = .ok literal ↔
      named? (Literal.sign text.toList).1 (Literal.sign text.toList).2 = some literal ∨
        named? (Literal.sign text.toList).1 (Literal.sign text.toList).2 = none ∧
          ∃ value, unsigned? (Literal.sign text.toList).2 = some value ∧
            .decimal (Literal.sign text.toList).1 value = literal := by
  rw [parse]
  split
  · next hnil =>
    rw [hnil]
    constructor
    · intro h
      cases h
    · rintro (h | ⟨-, value, h, -⟩) <;> cases h
  · obtain ⟨negative, rest⟩ := Literal.sign text.toList
    dsimp only
    cases hname : named? negative rest <;> cases hvalue : unsigned? rest <;> simp

/-- **The decimal literals.**  The reader takes the texts that are literals, as what they denote. -/
theorem parse_eq_ok_iff {text : String} {literal : Literal} :
    parse text = .ok literal ↔ LiteralText text.toList literal := by
  rw [parse_eq_ok_iff_sign]
  constructor
  · obtain ⟨sign, hsign, htext⟩ := exists_sign text.toList
    generalize Literal.sign text.toList = parts at hsign htext
    rw [htext]
    rintro (hname | ⟨-, value, hvalue, rfl⟩)
    · rcases named?_eq_some_iff.mp hname with ⟨hnan, rfl⟩ | ⟨hinf, rfl⟩
      · exact .nan hsign hnan
      · exact .infinite hsign hinf
    · exact .decimal hsign (unsigned?_eq_some_iff.mp hvalue)
  · intro h
    generalize text.toList = chars at h
    cases h with
    | nan hsign hname =>
      rw [sign_append hsign (lacksSign_of_map_toLower hname (by decide) (by decide))]
      exact .inl (named?_eq_some_iff.mpr (.inl ⟨hname, rfl⟩))
    | infinite hsign hname =>
      have hlacks : LacksSign _ := hname.elim
        (lacksSign_of_map_toLower · (by decide) (by decide))
        (lacksSign_of_map_toLower · (by decide) (by decide))
      rw [sign_append hsign hlacks]
      exact .inl (named?_eq_some_iff.mpr (.inr ⟨hname, rfl⟩))
    | decimal hsign htext =>
      rw [sign_append hsign (lacksSign_of_decimalText htext)]
      exact .inr ⟨named?_of_decimalText htext _, _, unsigned?_eq_some_iff.mpr htext, rfl⟩

end Literal

/-! ## Whole numbers -/

namespace Whole

/-- The number with the given digits. -/
def valueOf (base : Nat) (values : List Nat) : Nat := values.foldl (fun n d => base * n + d) 0

/-- A text that is a run of digits of a base, at least one, and the number that it denotes. -/
def IsNumeral (base : Nat) (text : List Char) (n : Nat) : Prop :=
  text ≠ [] ∧ ∃ values, List.Forall₂ (fun c d => digit? base c = some d) text values ∧
    valueOf base values = n

/-- A plus sign that may be missing. -/
def IsPlus (text : List Char) : Prop := text = [] ∨ text = ['+']

end Whole

/-- A literal of a whole number of 64 bits and what it denotes: in base ten, or in base sixteen
behind `0x`. -/
inductive WholeText : List Char → Nat → Prop
  | decimal {plus digits : List Char} {n : Nat} (hplus : Whole.IsPlus plus)
      (hdigits : Whole.IsNumeral 10 digits n) (hn : n < Whole.limit) : WholeText (plus ++ digits) n
  | hexadecimal {plus digits : List Char} {n : Nat} (hplus : Whole.IsPlus plus)
      (hdigits : Whole.IsNumeral 16 digits n) (hn : n < Whole.limit) :
      WholeText ('0' :: 'x' :: (plus ++ digits)) n

namespace Whole

theorem le_foldl {base : Nat} (hbase : 0 < base) (values : List Nat) (value : Nat) :
    value ≤ values.foldl (fun n d => base * n + d) value := by
  induction values generalizing value with
  | nil => exact le_rfl
  | cons d values ih =>
    calc value ≤ base * value := Nat.le_mul_of_pos_left value hbase
      _ ≤ base * value + d := Nat.le_add_right _ _
      _ ≤ _ := ih _

/-- Digits are read exactly when the number they make fits. -/
theorem readDigits_eq_ok_iff {base : Nat} (hbase : 0 < base) {text : List Char} {value n : Nat}
    (hvalue : value < limit) :
    readDigits base value text = .ok n ↔
      ∃ values, List.Forall₂ (fun c d => digit? base c = some d) text values ∧
        values.foldl (fun n d => base * n + d) value = n ∧ n < limit := by
  induction text generalizing value with
  | nil =>
    simp only [readDigits, List.forall₂_nil_left_iff, exists_eq_left, List.foldl_nil, Except.ok.injEq]
    exact ⟨fun h => ⟨h, h ▸ hvalue⟩, And.left⟩
  | cons c text ih =>
    rw [readDigits]
    cases hdigit : digit? base c with
    | none => simp [List.forall₂_cons_left_iff, hdigit]
    | some d =>
      have hstep : (∃ values, List.Forall₂ (fun c d => digit? base c = some d) (c :: text) values ∧
          values.foldl (fun n d => base * n + d) value = n ∧ n < limit) ↔
          ∃ values, List.Forall₂ (fun c d => digit? base c = some d) text values ∧
            values.foldl (fun n d => base * n + d) (base * value + d) = n ∧ n < limit := by
        simp [List.forall₂_cons_left_iff, hdigit]
      rw [hstep]
      dsimp only
      split
      · next hlt => exact ih hlt
      · next hge =>
        refine iff_of_false (by simp) ?_
        rintro ⟨values, -, rfl, hlt⟩
        exact hge ((le_foldl hbase values _).trans_lt hlt)

theorem head?_ne_plus_of_isNumeral {base : Nat} {text : List Char} {n : Nat}
    (h : IsNumeral base text n) : text.head? ≠ some '+' := by
  intro hplus
  obtain ⟨rest, rfl⟩ := List.head?_eq_some_iff.mp hplus
  obtain ⟨-, values, hvalues, -⟩ := h
  obtain ⟨d, _, hd, -⟩ := List.forall₂_cons_left_iff.mp hvalues
  cases hd

theorem isNumeral_iff_readDigits {base : Nat} (hbase : 0 < base) {text : List Char} {n : Nat} :
    IsNumeral base text n ∧ n < limit ↔ text ≠ [] ∧ readDigits base 0 text = .ok n := by
  rw [readDigits_eq_ok_iff hbase (by decide : 0 < limit)]
  constructor
  · rintro ⟨⟨hne, values, hvalues, hn⟩, hlt⟩
    exact ⟨hne, values, hvalues, hn, hlt⟩
  · rintro ⟨hne, values, hvalues, hn, hlt⟩
    exact ⟨⟨hne, values, hvalues, hn⟩, hlt⟩

theorem parseBase_plus_append {base : Nat} {plus digits : List Char} (hplus : IsPlus plus)
    (hne : digits ≠ []) (hhead : digits.head? ≠ some '+') :
    parseBase base (plus ++ digits) = readDigits base 0 digits := by
  obtain ⟨c, rest, rfl⟩ := List.exists_cons_of_ne_nil hne
  have hc : c ≠ '+' := fun h => hhead (congrArg some h)
  rcases hplus with rfl | rfl
  · rw [List.nil_append]
    unfold parseBase
    split <;> simp_all
  · rfl

theorem parseBase_eq_ok_iff {base : Nat} (hbase : 0 < base) {text : List Char} {n : Nat} :
    parseBase base text = .ok n ↔ ∃ plus digits, text = plus ++ digits ∧ IsPlus plus ∧
      IsNumeral base digits n ∧ n < limit := by
  constructor
  · intro h
    unfold parseBase at h
    split at h
    · cases h
    · cases h
    · next digits hne =>
      refine ⟨['+'], digits, rfl, .inr rfl, (isNumeral_iff_readDigits hbase).mpr ⟨?_, h⟩⟩
      rintro rfl
      exact hne rfl
    · next hne _ _ => exact ⟨[], text, rfl, .inl rfl, (isNumeral_iff_readDigits hbase).mpr ⟨hne, h⟩⟩
  · rintro ⟨plus, digits, rfl, hplus, hdigits, hn⟩
    rw [parseBase_plus_append hplus hdigits.1 (head?_ne_plus_of_isNumeral hdigits)]
    exact ((isNumeral_iff_readDigits hbase).mp ⟨hdigits, hn⟩).2

/-- **The whole numbers.**  The reader takes the literals of 64 bits, as what they denote. -/
theorem parseEither_eq_ok_iff {text : String} {n : Nat} :
    parseEither text = .ok n ↔ WholeText text.toList n := by
  rw [parseEither]
  generalize text.toList = chars
  constructor
  · intro h
    split at h
    · obtain ⟨plus, digits, rfl, hplus, hdigits, hn⟩ := (parseBase_eq_ok_iff (by decide)).mp h
      exact .hexadecimal hplus hdigits hn
    · obtain ⟨plus, digits, rfl, hplus, hdigits, hn⟩ := (parseBase_eq_ok_iff (by decide)).mp h
      exact .decimal hplus hdigits hn
  · intro h
    cases h with
    | hexadecimal hplus hdigits hn =>
      exact (parseBase_eq_ok_iff (by decide)).mpr ⟨_, _, rfl, hplus, hdigits, hn⟩
    | @decimal plus digits n hplus hdigits hn =>
      split
      · next rest hchars =>
        -- A decimal literal has no `x` in it.
        rcases hplus with rfl | rfl
        · rw [List.nil_append] at hchars
          subst hchars
          obtain ⟨-, values, hvalues, -⟩ := hdigits
          obtain ⟨_, _, -, htail, -⟩ := List.forall₂_cons_left_iff.mp hvalues
          obtain ⟨d, _, hx, -⟩ := List.forall₂_cons_left_iff.mp htail
          cases hx
        · cases hchars
      · exact (parseBase_eq_ok_iff (by decide)).mpr ⟨_, _, rfl, hplus, hdigits, hn⟩

end Whole
end TimeTrials.Number
