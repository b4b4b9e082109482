import Mathlib.Data.List.Forall2

/-!
# Computations that can fail

When a computation made of parts ends well, and with what: exactly when its parts do.

* `bind_eq_ok_iff`: one part after the other.
* `map_eq_ok_iff`, `mapError_eq_ok_iff`: a part whose result, or whose fault, is restated.
* `guard_eq_ok_iff`: a part behind a check.
* `mapM_eq_ok_iff`: one part for every entry of a list; `mapM_eq_ok_map` and `eq_map_of_mapM_eq_ok` when
  it is known what an entry comes to.
* `bind_eq_error_iff`, `guard_eq_error_iff`, `mapM_eq_error_iff`: where a fault comes from.
-/

namespace TimeTrials

variable {ε ε' α β : Type}

theorem bind_eq_ok_iff {x : Except ε α} {f : α → Except ε β} {b : β} :
    x >>= f = .ok b ↔ ∃ a, x = .ok a ∧ f a = .ok b := by
  cases x with
  | error e =>
    constructor
    · intro h
      cases h
    · rintro ⟨_, h, _⟩
      cases h
  | ok a => exact ⟨fun h => ⟨a, rfl, h⟩, fun ⟨_, h, hb⟩ => by cases h; exact hb⟩

theorem map_eq_ok_iff {x : Except ε α} {f : α → β} {b : β} :
    x.map f = .ok b ↔ ∃ a, x = .ok a ∧ b = f a := by
  cases x with
  | error e =>
    constructor
    · intro h
      cases h
    · rintro ⟨_, h, _⟩
      cases h
  | ok a => exact ⟨fun h => ⟨a, rfl, (Except.ok.inj h).symm⟩, fun ⟨_, h, hb⟩ => by cases h; rw [hb]; rfl⟩

theorem mapError_eq_ok_iff {x : Except ε α} {f : ε → ε'} {a : α} :
    x.mapError f = .ok a ↔ x = .ok a := by
  cases x with
  | error e =>
    constructor <;>
    · intro h
      cases h
  | ok a' => exact ⟨fun h => congrArg Except.ok (Except.ok.inj h), fun h => by rw [h]; rfl⟩

theorem guard_eq_ok_iff {p : Prop} [Decidable p] {e : ε} {next : Except ε α} {a : α} :
    (do if p then throw e
        next) = .ok a ↔ ¬p ∧ next = .ok a := by
  by_cases h : p
  · rw [if_pos h]
    exact iff_of_false (fun heq => by cases heq) fun hand => hand.1 h
  · rw [if_neg h]
    exact (and_iff_right h).symm

theorem mapM_eq_ok_iff {f : α → Except ε β} {as : List α} {bs : List β} :
    as.mapM f = .ok bs ↔ List.Forall₂ (fun a b => f a = .ok b) as bs := by
  induction as generalizing bs with
  | nil =>
    rw [List.mapM_nil, List.forall₂_nil_left_iff]
    exact ⟨fun h => (Except.ok.inj h).symm, fun h => congrArg Except.ok h.symm⟩
  | cons a as ih =>
    rw [List.mapM_cons, bind_eq_ok_iff, List.forall₂_cons_left_iff]
    constructor
    · rintro ⟨b, hb, h⟩
      obtain ⟨rest, hrest, h⟩ := bind_eq_ok_iff.mp h
      exact ⟨b, rest, hb, ih.mp hrest, (Except.ok.inj h).symm⟩
    · rintro ⟨b, rest, hb, hrest, rfl⟩
      exact ⟨b, hb, bind_eq_ok_iff.mpr ⟨rest, ih.mpr hrest, rfl⟩⟩

/-- What a list comes to when what each entry comes to is known. -/
theorem mapM_eq_ok_map {f : α → Except ε β} {g : α → β} {as : List α}
    (h : ∀ a ∈ as, f a = .ok (g a)) : as.mapM f = .ok (as.map g) := by
  rw [mapM_eq_ok_iff, List.forall₂_map_right_iff, List.forall₂_same]
  exact h

/-- The same when an entry may still fail. -/
theorem eq_map_of_mapM_eq_ok {f : α → Except ε β} {g : α → β} {as : List α} {bs : List β}
    (hf : ∀ a b, f a = .ok b → b = g a) (h : as.mapM f = .ok bs) : bs = as.map g := by
  have hall : List.Forall₂ (· = ·) (as.map g) bs :=
    List.forall₂_map_left_iff.mpr ((mapM_eq_ok_iff.mp h).imp fun a b hb => (hf a b hb).symm)
  rw [List.forall₂_eq_eq_eq] at hall
  exact hall.symm

theorem bind_eq_error_iff {x : Except ε α} {f : α → Except ε β} {e : ε} :
    x >>= f = .error e ↔ x = .error e ∨ ∃ a, x = .ok a ∧ f a = .error e := by
  cases x with
  | error e' =>
    constructor
    · intro h
      cases h
      exact .inl rfl
    · rintro (h | ⟨a, h, -⟩)
      · cases h
        rfl
      · cases h
  | ok a =>
    constructor
    · exact fun h => .inr ⟨a, rfl, h⟩
    · rintro (h | ⟨a', h, hf⟩)
      · cases h
      · cases h
        exact hf

theorem guard_eq_error_iff {p : Prop} [Decidable p] {e e' : ε} {next : Except ε α} :
    (do if p then throw e
        next) = .error e' ↔ p ∧ e = e' ∨ ¬p ∧ next = .error e' := by
  by_cases h : p
  · rw [if_pos h]
    constructor
    · exact fun heq => .inl ⟨h, Except.error.inj heq⟩
    · rintro (⟨-, rfl⟩ | ⟨hnot, -⟩)
      · rfl
      · exact absurd h hnot
  · rw [if_neg h]
    constructor
    · exact fun heq => .inr ⟨h, heq⟩
    · rintro (⟨hp, -⟩ | ⟨-, heq⟩)
      · exact absurd hp h
      · exact heq

theorem mapError_eq_error_iff {x : Except ε α} {f : ε → ε'} {e' : ε'} :
    x.mapError f = .error e' ↔ ∃ e, x = .error e ∧ f e = e' := by
  cases x with
  | error e =>
    constructor
    · exact fun h => ⟨e, rfl, Except.error.inj h⟩
    · rintro ⟨_, h, rfl⟩
      cases h
      rfl
  | ok a =>
    constructor
    · intro h
      cases h
    · rintro ⟨_, h, _⟩
      cases h

/-- The fault of a list is the fault of its first entry that has one. -/
theorem mapM_eq_error_iff {f : α → Except ε β} {as : List α} {e : ε} :
    as.mapM f = .error e ↔ ∃ before a after, as = before ++ a :: after ∧
      (∀ a ∈ before, ∃ b, f a = .ok b) ∧ f a = .error e := by
  induction as with
  | nil =>
    refine iff_of_false (fun h => by cases h) ?_
    rintro ⟨before, a, after, h, -⟩
    exact absurd h (by simp)
  | cons a as ih =>
    rw [List.mapM_cons, bind_eq_error_iff]
    constructor
    · rintro (ha | ⟨b, hb, h⟩)
      · exact ⟨[], a, as, rfl, by simp, ha⟩
      · rcases bind_eq_error_iff.mp h with hrest | ⟨bs, -, h⟩
        · obtain ⟨before, a', after, rfl, hbefore, ha'⟩ := ih.mp hrest
          exact ⟨a :: before, a', after, rfl, List.forall_mem_cons.mpr ⟨⟨b, hb⟩, hbefore⟩, ha'⟩
        · cases h
    · rintro ⟨before, a', after, heq, hbefore, ha'⟩
      cases before with
      | nil =>
        obtain ⟨rfl, -⟩ := List.cons.inj heq
        exact .inl ha'
      | cons _ before =>
        obtain ⟨rfl, rfl⟩ := List.cons.inj heq
        obtain ⟨⟨b, hb⟩, hbefore⟩ := List.forall_mem_cons.mp hbefore
        have hrest := ih.mpr ⟨before, a', after, rfl, hbefore, ha'⟩
        exact .inr ⟨b, hb, bind_eq_error_iff.mpr (.inl hrest)⟩

theorem exists_of_mapM_eq_error {f : α → Except ε β} {as : List α} {e : ε}
    (h : as.mapM f = .error e) : ∃ a ∈ as, f a = .error e := by
  obtain ⟨before, a, after, rfl, -, ha⟩ := mapM_eq_error_iff.mp h
  exact ⟨a, List.mem_append_right _ List.mem_cons_self, ha⟩

end TimeTrials
