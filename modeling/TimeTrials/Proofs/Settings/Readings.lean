import TimeTrials.Proofs.Settings.Records

/-!
# What a value says

The types of settings as relations between a value of a document and what it says: a text, a count, a
size, a list, a colour, a table.  A decoder accepts a value exactly when it says something, and decodes it
to that.  An integer is unbounded in the decoder of sizes, so that this is about integers of 64 bits there
(`decodes_size_iff`).
-/

namespace TimeTrials.Settings

open Toml (Value Table)

variable {α : Type} {v : Value}

/-- A text says itself. -/
def IsText (v : Value) (text : String) : Prop := v = .string text

/-- An integer that is not negative says how many. -/
def IsCount (v : Value) (n : Nat) : Prop := v = .integer n

/-- An integer that is not negative says how large. -/
def IsSize (v : Value) (size : UInt64) : Prop := v = .integer size.toNat

/-- An array says what its elements say, in order. -/
def IsList (item : Value → α → Prop) (v : Value) (as : List α) : Prop :=
  ∃ vs, v = .array vs ∧ List.Forall₂ item vs as

/-- A table says what its entries say. -/
def IsTable (told : Table → α → Prop) (v : Value) (a : α) : Prop :=
  ∃ entries, v = .table entries ∧ told entries a

/-- A colour is given by its name, or by a table from its name to nothing. -/
inductive IsColor : Value → Color → Prop
  | name (color : Color) : IsColor (.string color.name) color
  | table (color : Color) : IsColor (.table [(color.name, .table [])]) color
  | array (color : Color) : IsColor (.table [(color.name, .array [])]) color

/-! ## Scalars -/

/-- A decoder stands for a relation when the two agree on every value. -/
theorem decodes_eq {decoder : Decoder α} {has : Value → α → Prop}
    (h : ∀ v a, decoder v = .ok a ↔ has v a) : Decodes decoder = has := by
  funext v a
  exact propext (h v a)

theorem decodes_text (expected : Expected) : Decodes (decodeText expected) = IsText := by
  refine decodes_eq fun v text => ?_
  rw [IsText]
  cases v with
  | string text' => rw [decodeText, Except.ok.injEq, Value.string.injEq]
  | _ => exact iff_of_false (fun h => by cases h) (fun h => by cases h)

theorem decodes_count (expected : Expected) : Decodes (decodeNat expected) = IsCount := by
  refine decodes_eq fun v n => ?_
  rw [IsCount]
  cases v with
  | integer i =>
    by_cases hi : i < 0
    · rw [decodeNat, if_pos hi, Value.integer.injEq]
      exact iff_of_false (by simp) (by omega)
    · rw [decodeNat, if_neg hi, Value.integer.injEq, Except.ok.injEq]
      omega
  | _ => exact iff_of_false (fun h => by cases h) (fun h => by cases h)

theorem IsText.unique (v : Value) (a b : String) (ha : IsText v a) (hb : IsText v b) : a = b :=
  Value.string.inj (ha.symm.trans hb)

theorem IsCount.unique (v : Value) (a b : Nat) (ha : IsCount v a) (hb : IsCount v b) : a = b :=
  Int.ofNat.inj (Value.integer.inj (ha.symm.trans hb))

theorem decodes_size_iff (hv : v.WellFormed) {size : UInt64} :
    Decodes decodeSize v size ↔ IsSize v size := by
  have hcount : Decodes decodeSize v size ↔ ∃ n, IsCount v n ∧ size = UInt64.ofNat n := by
    rw [← decodes_count .size]
    exact map_eq_ok_iff
  rw [hcount]
  constructor
  · rintro ⟨n, rfl, rfl⟩
    -- a count of 63 bits is not changed by taking it as a size
    obtain ⟨-, hmost⟩ := Toml.Value.wellFormed_integer_iff.mp hv
    rw [IsSize, UInt64.toNat_ofNat_of_lt' (by rw [UInt64.size]; omega)]
  · intro h
    exact ⟨size.toNat, h, (UInt64.ofNat_toNat).symm⟩

/-! ## Lists -/

theorem decodes_list (item : Decoder α) : Decodes (decodeList item) = IsList (Decodes item) := by
  refine decodes_eq fun v as => ?_
  rw [IsList]
  cases v with
  | array vs =>
    rw [decodeList, mapM_eq_ok_iff]
    constructor
    · exact fun h => ⟨vs, rfl, h⟩
    · rintro ⟨_, ⟨⟩, h⟩
      exact h
  | _ => exact iff_of_false (fun h => by cases h) (fun ⟨_, h, _⟩ => by cases h)

theorem decodes_texts (expected : Expected) :
    Decodes (decodeList (decodeText expected)) = IsList IsText := by
  rw [decodes_list, decodes_text]

/-- Lists say the same when their elements do. -/
theorem isList_congr {item item' : Value → α → Prop} {p : Value → Prop}
    (hitem : ∀ v a, p v → (item v a ↔ item' v a)) (hv : ∀ vs, v = .array vs → ∀ w ∈ vs, p w)
    {as : List α} : IsList item v as ↔ IsList item' v as := by
  refine exists_congr fun vs => and_congr_right fun hvs => ?_
  have hand : ∀ {R : Value → α → Prop}, List.Forall₂ R vs as ↔
      List.Forall₂ (fun w a => p w ∧ R w a) vs as := by
    intro R
    rw [List.forall₂_and_left, and_iff_right (hv vs hvs)]
  rw [hand, hand (R := item')]
  constructor
  · exact List.Forall₂.imp fun w a h => ⟨h.1, (hitem w a h.1).mp h.2⟩
  · exact List.Forall₂.imp fun w a h => ⟨h.1, (hitem w a h.1).mpr h.2⟩

/-! ## Colours -/

theorem ofName?_eq_some_iff {name : String} {color : Color} :
    Color.ofName? name = some color ↔ name = color.name := by
  constructor
  · intro h
    unfold Color.ofName? at h
    have hname := List.find?_some h
    exact (eq_of_beq hname).symm
  · rintro rfl
    cases color <;> rfl

theorem colorNamed_eq_ok_iff {name : String} {color : Color} :
    colorNamed name = .ok color ↔ name = color.name := by
  rw [← ofName?_eq_some_iff, colorNamed]
  cases Color.ofName? name with
  | none => exact iff_of_false (fun h => by cases h) (fun h => by cases h)
  | some found => rw [Except.ok.injEq, Option.some.injEq]

theorem decodes_color : Decodes decodeColor = IsColor := by
  refine decodes_eq fun v color => ?_
  constructor
  · intro h
    unfold decodeColor at h
    split at h
    · obtain rfl := colorNamed_eq_ok_iff.mp h
      exact .name color
    · obtain ⟨found, hname, hvalue⟩ := bind_eq_ok_iff.mp h
      obtain rfl := colorNamed_eq_ok_iff.mp hname
      split at hvalue
      · cases hvalue
        exact .table color
      · cases hvalue
        exact .array color
      · cases hvalue
    · cases h
  · intro h
    cases h with
    | name => exact colorNamed_eq_ok_iff.mpr rfl
    | table => exact bind_eq_ok_iff.mpr ⟨color, colorNamed_eq_ok_iff.mpr rfl, rfl⟩
    | array => exact bind_eq_ok_iff.mpr ⟨color, colorNamed_eq_ok_iff.mpr rfl, rfl⟩

end TimeTrials.Settings
