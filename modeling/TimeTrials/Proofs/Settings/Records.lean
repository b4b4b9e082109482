import TimeTrials.Proofs.Results
import TimeTrials.Proofs.Toml.Values
import TimeTrials.Settings.Decode

/-!
# Fields of a table

A table is decoded by taking one of its entries after the other.  When every step decodes the value at
its own key into one field and leaves the other fields alone (`Reads`), a whole run leaves in the field
what the key says, and what was there before if the key is not in the table (`Reads.holds`).

`Holds` says that of a field, `Present` and `IfPresent` what a table has to have or may have, and
`KnownKeys` that it has nothing else.  With one value at a key a field has one value (`Holds.unique`),
and it has one exactly when the value at its key fits (`exists_holds_iff`).
-/

namespace TimeTrials.Settings

open Toml (Value Table)
open Toml.Value (eq_of_nodup_keys)

variable {α β σ : Type} {entries rest : Table} {key k : String} {v : Value}
variable {has has' : Value → α → Prop} {initial a b : α}

/-! ## What a table says -/

/-- Every key of the table is one of these. -/
def KnownKeys (known : List String) (entries : Table) : Prop := ∀ entry ∈ entries, entry.1 ∈ known

/-- The key is there, and its value is such. -/
def Present (entries : Table) (key : String) (p : Value → Prop) : Prop :=
  ∃ v, (key, v) ∈ entries ∧ p v

/-- If the key is there, its value is such. -/
def IfPresent (entries : Table) (key : String) (p : Value → Prop) : Prop :=
  ∀ v, (key, v) ∈ entries → p v

/-- A field has what the value at its key has, and without that key it has its default. -/
def Holds (entries : Table) (key : String) (has : Value → α → Prop) (initial a : α) : Prop :=
  IfPresent entries key (has · a) ∧ ((∀ v, (key, v) ∉ entries) → a = initial)

/-- The same for a field that may have nothing. -/
def Given (has : Value → α → Prop) (v : Value) (given : Option α) : Prop :=
  ∃ a, given = some a ∧ has v a

theorem holds_iff_of_mem (hkeys : (entries.map (·.1)).Nodup) (hv : (key, v) ∈ entries) :
    Holds entries key has initial a ↔ has v a := by
  constructor
  · exact fun h => h.1 v hv
  · intro h
    refine ⟨fun w hw => ?_, fun hnone => absurd hv (hnone v)⟩
    rwa [eq_of_nodup_keys hkeys hw hv]

theorem holds_iff_of_not_mem (hnone : ∀ v, (key, v) ∉ entries) :
    Holds entries key has initial a ↔ a = initial :=
  ⟨fun h => h.2 hnone, fun h => ⟨fun v hv => absurd hv (hnone v), fun _ => h⟩⟩

theorem holds_congr (h : ∀ v, (key, v) ∈ entries → (has v a ↔ has' v a)) :
    Holds entries key has initial a ↔ Holds entries key has' initial a :=
  and_congr_left' (forall₂_congr h)

theorem present_congr {p q : Value → Prop} (h : ∀ v, (key, v) ∈ entries → (p v ↔ q v)) :
    Present entries key p ↔ Present entries key q :=
  exists_congr fun v => and_congr_right (h v)

theorem Holds.unique (hunique : ∀ v a b, has v a → has v b → a = b)
    (ha : Holds entries key has initial a) (hb : Holds entries key has initial b) : a = b := by
  by_cases h : ∃ v, (key, v) ∈ entries
  · obtain ⟨v, hv⟩ := h
    exact hunique v a b (ha.1 v hv) (hb.1 v hv)
  · have hnone := not_exists.mp h
    exact (ha.2 hnone).trans (hb.2 hnone).symm

/-- A field can be filled exactly when the value at its key fits. -/
theorem exists_holds_iff (hkeys : (entries.map (·.1)).Nodup) :
    (∃ a, Holds entries key has initial a) ↔ IfPresent entries key fun v => ∃ a, has v a := by
  constructor
  · rintro ⟨a, h⟩ v hv
    exact ⟨a, h.1 v hv⟩
  · intro h
    by_cases hsome : ∃ v, (key, v) ∈ entries
    · obtain ⟨v, hv⟩ := hsome
      obtain ⟨a, ha⟩ := h v hv
      exact ⟨a, (holds_iff_of_mem hkeys hv).mpr ha⟩
    · exact ⟨initial, (holds_iff_of_not_mem (not_exists.mp hsome)).mpr rfl⟩

/-- A field that starts with nothing has something exactly when its key is there. -/
theorem holds_given_iff (hkeys : (entries.map (·.1)).Nodup) :
    Holds entries key (Given has) none (some a) ↔ Present entries key (has · a) := by
  by_cases h : ∃ v, (key, v) ∈ entries
  · obtain ⟨v, hv⟩ := h
    rw [holds_iff_of_mem hkeys hv]
    constructor
    · rintro ⟨_, ⟨⟩, ha⟩
      exact ⟨v, hv, ha⟩
    · rintro ⟨w, hw, ha⟩
      rw [eq_of_nodup_keys hkeys hw hv] at ha
      exact ⟨a, rfl, ha⟩
  · have hnone := not_exists.mp h
    rw [holds_iff_of_not_mem hnone]
    refine iff_of_false (by simp) ?_
    rintro ⟨v, hv, -⟩
    exact hnone v hv

theorem not_mem_of_not_mem_keys (hnew : key ∉ rest.map (·.1)) (v : Value) : (key, v) ∉ rest :=
  fun hv => hnew (List.mem_map.mpr ⟨(key, v), hv, rfl⟩)

theorem holds_cons_self (hnew : key ∉ rest.map (·.1)) :
    Holds ((key, v) :: rest) key has initial a ↔ has v a := by
  constructor
  · exact fun h => h.1 v List.mem_cons_self
  · intro h
    refine ⟨fun w hw => ?_, fun hno => absurd List.mem_cons_self (hno v)⟩
    rcases List.mem_cons.mp hw with hw | hw
    · rwa [(Prod.mk.inj hw).2]
    · exact absurd hw (not_mem_of_not_mem_keys hnew w)

theorem holds_cons_of_ne (hne : k ≠ key) :
    Holds ((k, v) :: rest) key has initial a ↔ Holds rest key has initial a := by
  have hmem : ∀ w, (key, w) ∈ (k, v) :: rest ↔ (key, w) ∈ rest := by
    intro w
    rw [List.mem_cons, or_iff_right]
    exact fun h => hne (Prod.mk.inj h).1.symm
  simp only [Holds, IfPresent, hmem]

/-! ## Decoding a table -/

/-- The value decodes to that. -/
def Decodes (decoder : Decoder α) (v : Value) (a : α) : Prop := decoder v = .ok a

theorem Decodes.unique {decoder : Decoder α} (v : Value) (a b : α) (ha : Decodes decoder v a)
    (hb : Decodes decoder v b) : a = b :=
  Except.ok.inj (ha.symm.trans hb)

theorem Given.unique (hunique : ∀ v a b, has v a → has v b → a = b) (v : Value) (a b : Option α)
    (ha : Given has v a) (hb : Given has v b) : a = b := by
  obtain ⟨a, rfl, ha⟩ := ha
  obtain ⟨b, rfl, hb⟩ := hb
  exact congrArg some (hunique v a b ha hb)

section

variable {set : σ → String × Value → Except DecodeFault σ} {get : σ → α} {s s' : σ}

/-- One step fills the field from the value at its own key, and keeps it at any other key. -/
def Reads (set : σ → String × Value → Except DecodeFault σ) (key : String) (get : σ → α)
    (has : Value → α → Prop) : Prop :=
  ∀ s k v s', set s (k, v) = .ok s' → (k = key → has v (get s')) ∧ (k ≠ key → get s' = get s)

/-- A whole run leaves in the field what the table says. -/
theorem Reads.holds (hreads : Reads set key get has) (hkeys : (entries.map (·.1)).Nodup)
    (hrun : entries.foldlM set s = .ok s') : Holds entries key has (get s) (get s') := by
  induction entries generalizing s with
  | nil =>
    cases hrun
    exact ⟨fun v hv => absurd hv List.not_mem_nil, fun _ => rfl⟩
  | cons entry rest ih =>
    obtain ⟨k, v⟩ := entry
    rw [List.map_cons, List.nodup_cons] at hkeys
    rw [List.foldlM_cons] at hrun
    obtain ⟨t, hstep, hrun⟩ := bind_eq_ok_iff.mp hrun
    obtain ⟨hown, hother⟩ := hreads s k v t hstep
    have hrest := ih hkeys.2 hrun
    by_cases hk : k = key
    · subst hk
      -- the key does not come again, so the field stays as this step has filled it
      have hsame : get s' = get t := hrest.2 (not_mem_of_not_mem_keys hkeys.1)
      rw [holds_cons_self hkeys.1, hsame]
      exact hown rfl
    · rwa [holds_cons_of_ne hk, ← hother hk]

/-- A run that ends well has made a step for every entry. -/
theorem exists_step_of_foldlM (hrun : entries.foldlM set s = .ok s') {entry : String × Value}
    (h : entry ∈ entries) : ∃ t t', set t entry = .ok t' := by
  induction entries generalizing s with
  | nil => exact absurd h List.not_mem_nil
  | cons first rest ih =>
    rw [List.foldlM_cons] at hrun
    obtain ⟨t, hstep, hrun⟩ := bind_eq_ok_iff.mp hrun
    rcases List.mem_cons.mp h with rfl | h
    · exact ⟨s, t, hstep⟩
    · exact ih hrun h

/-- A run ends well when there is a step for every entry, whatever came before. -/
theorem exists_foldlM_eq_ok (hsteps : ∀ entry ∈ entries, ∀ t, ∃ t', set t entry = .ok t') (s : σ) :
    ∃ s', entries.foldlM set s = .ok s' := by
  induction entries generalizing s with
  | nil => exact ⟨s, rfl⟩
  | cons first rest ih =>
    rw [List.forall_mem_cons] at hsteps
    obtain ⟨t, hstep⟩ := hsteps.1 s
    obtain ⟨s', hrun⟩ := ih hsteps.2 t
    exact ⟨s', by rw [List.foldlM_cons]; exact bind_eq_ok_iff.mpr ⟨t, hstep, hrun⟩⟩

/-- A table decodes to a record exactly when the record is what the table says. -/
theorem foldlM_eq_ok_iff (known : List String) {Says : σ → Prop}
    (hknown : ∀ t k v t', set t (k, v) = .ok t' → k ∈ known)
    (htold : ∀ s', entries.foldlM set s = .ok s' → KnownKeys known entries → Says s')
    (hsteps : ∀ s', Says s' → ∀ k v, (k, v) ∈ entries → ∀ t, ∃ t', set t (k, v) = .ok t')
    (hunique : ∀ s' s'', Says s' → Says s'' → s' = s'') :
    entries.foldlM set s = .ok s' ↔ Says s' := by
  constructor
  · intro hrun
    refine htold s' hrun ?_
    rintro ⟨k, v⟩ hkv
    obtain ⟨t, t', hstep⟩ := exists_step_of_foldlM hrun hkv
    exact hknown t k v t' hstep
  · intro h
    obtain ⟨s'', hrun⟩ := exists_foldlM_eq_ok (fun entry hentry => hsteps s' h _ entry.2 hentry) s
    have hkeys : KnownKeys known entries := by
      rintro ⟨k, v⟩ hkv
      obtain ⟨t', hstep⟩ := hsteps s' h k v hkv s
      exact hknown s k v t' hstep
    rwa [hunique s'' s' (htold s'' hrun hkeys) h] at hrun

end

end TimeTrials.Settings
