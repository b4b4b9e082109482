import Mathlib.Data.List.Forall2
import Mathlib.Data.List.Nodup
import TimeTrials.Toml.Value

/-!
# Values of documents

Two notions for values as documents give them.

* `Value.WellFormed`: in every table the keys differ, and every integer has 64 bits with a sign.
* `Value.Reordered`: one value is the other with the keys of some tables in another order, at any
  depth.  It is generated by exchanging two neighbours in a table; `reordered_of_perm` has the entries of
  one table in any order at once.

What a reordered value can be follows from the kind of the value: a scalar stays what it is
(`Reordered.eq_of_scalar`), the elements of an array stay in their places (`Reordered.of_array`), and a
table keeps its keys, each with a reordered value (`Reordered.of_table`).
-/

namespace TimeTrials

/-! ## Lists compared entry by entry -/

/-- Two lists that are compared entry by entry with a third one are compared with each other. -/
theorem forall₂_trans {α β γ : Type} {R : α → β → Prop} {S : β → γ → Prop} {T : α → γ → Prop}
    (htrans : ∀ a b c, R a b → S b c → T a c) {as : List α} {bs : List β} {cs : List γ}
    (hr : List.Forall₂ R as bs) (hs : List.Forall₂ S bs cs) : List.Forall₂ T as cs := by
  induction hr generalizing cs with
  | nil =>
    cases hs
    exact .nil
  | cons hab _ ih =>
    obtain ⟨c, cs, hbc, hcs, rfl⟩ := List.forall₂_cons_left_iff.mp hs
    exact .cons (htrans _ _ _ hab hbc) (ih hcs)

/-- An entry of the one list has its partner in the other. -/
theorem exists_of_mem_of_forall₂ {α β : Type} {R : α → β → Prop} {as : List α} {bs : List β}
    (h : List.Forall₂ R as bs) {a : α} (ha : a ∈ as) : ∃ b ∈ bs, R a b := by
  induction h with
  | nil => exact absurd ha List.not_mem_nil
  | cons hab _ ih =>
    rcases List.mem_cons.mp ha with rfl | ha
    · exact ⟨_, List.mem_cons_self, hab⟩
    · obtain ⟨b, hb, h⟩ := ih ha
      exact ⟨b, List.mem_cons_of_mem _ hb, h⟩

namespace Toml.Value

/-! ## Well-formed values -/

/-- A value that a document can give. -/
inductive WellFormed : Value → Prop
  | string (text : String) : WellFormed (.string text)
  | integer {n : Int} (hleast : -9223372036854775808 ≤ n) (hmost : n ≤ 9223372036854775807) :
      WellFormed (.integer n)
  | float (x : Number.Binary64) : WellFormed (.float x)
  | boolean (b : Bool) : WellFormed (.boolean b)
  | moment : WellFormed .moment
  | array {elements : List Value} (helements : ∀ v ∈ elements, WellFormed v) :
      WellFormed (.array elements)
  | table {entries : Table} (hkeys : (entries.map (·.1)).Nodup)
      (hvalues : ∀ entry ∈ entries, WellFormed entry.2) : WellFormed (.table entries)

variable {u v w : Value} {vs : List Value} {entries entries' : Table}

theorem wellFormed_integer_iff {n : Int} : (Value.integer n).WellFormed ↔
    -9223372036854775808 ≤ n ∧ n ≤ 9223372036854775807 :=
  ⟨fun h => by cases h with | integer hleast hmost => exact ⟨hleast, hmost⟩,
    fun h => .integer h.1 h.2⟩

theorem wellFormed_array_iff :
    (Value.array vs).WellFormed ↔ ∀ v ∈ vs, v.WellFormed :=
  ⟨fun h => by cases h with | array helements => exact helements, .array⟩

theorem wellFormed_table_iff : (Value.table entries).WellFormed ↔
    (entries.map (·.1)).Nodup ∧ ∀ entry ∈ entries, entry.2.WellFormed :=
  ⟨fun h => by cases h with | table hkeys hvalues => exact ⟨hkeys, hvalues⟩,
    fun h => .table h.1 h.2⟩

/-- The value is written as an array. -/
def IsArray (v : Value) : Prop := ∃ vs, v = .array vs

/-- A table has one value at a key. -/
theorem eq_of_nodup_keys {key : String} (hkeys : (entries.map (·.1)).Nodup)
    (hv : (key, v) ∈ entries) (hw : (key, w) ∈ entries) : v = w :=
  congrArg Prod.snd (List.inj_on_of_nodup_map hkeys hv hw rfl)

/-! ## Reordered values -/

/-- The same value, up to the order of keys in its tables. -/
inductive Reordered : Value → Value → Prop
  | refl (v : Value) : Reordered v v
  | trans {u v w : Value} (huv : Reordered u v) (hvw : Reordered v w) : Reordered u w
  | swap (before after : Table) (a b : String × Value) :
      Reordered (.table (before ++ a :: b :: after)) (.table (before ++ b :: a :: after))
  | entry (before after : Table) (key : String) {v w : Value} (h : Reordered v w) :
      Reordered (.table (before ++ (key, v) :: after)) (.table (before ++ (key, w) :: after))
  | element (before after : List Value) {v w : Value} (h : Reordered v w) :
      Reordered (.array (before ++ v :: after)) (.array (before ++ w :: after))

theorem Reordered.symm (h : Reordered v w) : Reordered w v := by
  induction h with
  | refl v => exact .refl v
  | trans _ _ ihuv ihvw => exact ihvw.trans ihuv
  | swap before after a b => exact .swap before after b a
  | entry before after key _ ih => exact .entry before after key ih
  | element before after _ ih => exact .element before after ih

/-- The entries of a table may come in any order. -/
theorem reordered_of_perm (h : entries.Perm entries') :
    Reordered (.table entries) (.table entries') := by
  -- what comes before stays, so that the tail's reordering is one of the whole
  suffices hall : ∀ before : Table,
      Reordered (.table (before ++ entries)) (.table (before ++ entries')) from hall []
  induction h with
  | nil => exact fun _ => .refl _
  | cons a _ ih =>
    intro before
    simpa only [List.append_assoc, List.singleton_append] using ih (before ++ [a])
  | swap a b rest => exact fun before => .swap before rest b a
  | trans _ _ ihl ihr => exact fun before => (ihl before).trans (ihr before)

/-- What is neither an array nor a table stays what it is. -/
theorem Reordered.eq_of_scalar (h : Reordered v w) (harray : ∀ vs, v ≠ .array vs)
    (htable : ∀ entries, v ≠ .table entries) : w = v := by
  induction h with
  | refl v => rfl
  | trans _ _ ihuv ihvw =>
    obtain rfl := ihuv harray htable
    exact ihvw harray htable
  | swap before after a b => exact absurd rfl (htable _)
  | entry before after key _ _ => exact absurd rfl (htable _)
  | element before after _ _ => exact absurd rfl (harray _)

/-- An array stays one, with its elements in their places. -/
theorem Reordered.of_array (h : Reordered (.array vs) w) :
    ∃ ws, w = .array ws ∧ List.Forall₂ Reordered vs ws := by
  generalize hv : Value.array vs = v at h
  induction h generalizing vs with
  | refl v => exact ⟨vs, hv.symm, List.forall₂_same.mpr fun v _ => .refl v⟩
  | trans _ _ ihuv ihvw =>
    obtain ⟨us, rfl, hus⟩ := ihuv hv
    obtain ⟨ws, rfl, hws⟩ := ihvw rfl
    exact ⟨ws, rfl, forall₂_trans (fun _ _ _ => .trans) hus hws⟩
  | swap before after a b => cases hv
  | entry before after key _ _ => cases hv
  | element before after h _ =>
    cases hv
    refine ⟨_, rfl, List.rel_append ?_ (.cons h ?_)⟩ <;>
      exact List.forall₂_same.mpr fun v _ => .refl v

theorem Reordered.isArray (h : Reordered v w) (hv : v.IsArray) : w.IsArray := by
  obtain ⟨vs, rfl⟩ := hv
  obtain ⟨ws, rfl, -⟩ := h.of_array
  exact ⟨ws, rfl⟩

/-- The same keys, each with a reordered value. -/
structure SameTable (entries entries' : Table) : Prop where
  keys : (entries.map (·.1)).Perm (entries'.map (·.1))
  forth : ∀ key v, (key, v) ∈ entries → ∃ v', (key, v') ∈ entries' ∧ Reordered v v'
  back : ∀ key v', (key, v') ∈ entries' → ∃ v, (key, v) ∈ entries ∧ Reordered v' v

theorem SameTable.trans {entries'' : Table} (h : SameTable entries entries')
    (h' : SameTable entries' entries'') : SameTable entries entries'' where
  keys := h.keys.trans h'.keys
  forth key v hv := by
    obtain ⟨v', hv', hvv'⟩ := h.forth key v hv
    obtain ⟨v'', hv'', hvv''⟩ := h'.forth key v' hv'
    exact ⟨v'', hv'', hvv'.trans hvv''⟩
  back key v'' hv'' := by
    obtain ⟨v', hv', hvv'⟩ := h'.back key v'' hv''
    obtain ⟨v, hv, hvv⟩ := h.back key v' hv'
    exact ⟨v, hv, hvv'.trans hvv⟩

theorem sameTable_of_perm (h : entries.Perm entries') : SameTable entries entries' where
  keys := h.map _
  forth _ v hv := ⟨v, h.mem_iff.mp hv, .refl v⟩
  back _ v hv := ⟨v, h.mem_iff.mpr hv, .refl v⟩

theorem sameTable_of_entry (before after : Table) (key : String) (h : Reordered v w) :
    SameTable (before ++ (key, v) :: after) (before ++ (key, w) :: after) := by
  have hone : ∀ {v w : Value}, Reordered v w → ∀ k u, (k, u) ∈ before ++ (key, v) :: after →
      ∃ u', (k, u') ∈ before ++ (key, w) :: after ∧ Reordered u u' := by
    intro v w h k u hu
    rcases List.mem_append.mp hu with hu | hu
    · exact ⟨u, List.mem_append_left _ hu, .refl u⟩
    · rcases List.mem_cons.mp hu with hu | hu
      · obtain ⟨rfl, rfl⟩ := Prod.mk.inj hu
        exact ⟨w, List.mem_append_right _ List.mem_cons_self, h⟩
      · exact ⟨u, List.mem_append_right _ (List.mem_cons_of_mem _ hu), .refl u⟩
  refine ⟨?_, hone h, hone h.symm⟩
  rw [List.map_append, List.map_append, List.map_cons, List.map_cons]

/-- A table stays one, with the same keys. -/
theorem Reordered.of_table (h : Reordered (.table entries) w) :
    ∃ entries', w = .table entries' ∧ SameTable entries entries' := by
  generalize hv : Value.table entries = v at h
  induction h generalizing entries with
  | refl v => exact ⟨entries, hv.symm, sameTable_of_perm (.refl _)⟩
  | trans _ _ ihuv ihvw =>
    obtain ⟨middle, rfl, hmiddle⟩ := ihuv hv
    obtain ⟨entries', rfl, hentries'⟩ := ihvw rfl
    exact ⟨entries', rfl, hmiddle.trans hentries'⟩
  | swap before after a b =>
    cases hv
    exact ⟨_, rfl, sameTable_of_perm ((List.Perm.swap b a after).append_left before)⟩
  | entry before after key h _ =>
    cases hv
    exact ⟨_, rfl, sameTable_of_entry before after key h⟩
  | element before after _ _ => cases hv

theorem Reordered.sameTable (h : Reordered (.table entries) (.table entries')) :
    SameTable entries entries' := by
  obtain ⟨_, heq, hsame⟩ := h.of_table
  cases heq
  exact hsame

/-- Reordering leaves a well-formed value well-formed. -/
theorem WellFormed.reordered (hv : v.WellFormed) (h : Reordered v w) : w.WellFormed := by
  induction h with
  | refl v => exact hv
  | trans _ _ ihuv ihvw => exact ihvw (ihuv hv)
  | swap before after a b =>
    have hperm := (List.Perm.swap b a after).append_left before
    obtain ⟨hkeys, hvalues⟩ := wellFormed_table_iff.mp hv
    exact .table ((hperm.map _).nodup hkeys) fun entry h => hvalues entry (hperm.mem_iff.mpr h)
  | entry before after key _ ih =>
    obtain ⟨hkeys, hvalues⟩ := wellFormed_table_iff.mp hv
    rw [List.map_append, List.map_cons] at hkeys
    rw [List.forall_mem_append, List.forall_mem_cons] at hvalues
    refine .table (by rwa [List.map_append, List.map_cons]) ?_
    rw [List.forall_mem_append, List.forall_mem_cons]
    exact ⟨hvalues.1, ih hvalues.2.1, hvalues.2.2⟩
  | element before after _ ih =>
    have helements := wellFormed_array_iff.mp hv
    rw [List.forall_mem_append, List.forall_mem_cons] at helements
    refine .array ?_
    rw [List.forall_mem_append, List.forall_mem_cons]
    exact ⟨helements.1, ih helements.2.1, helements.2.2⟩

end Toml.Value
end TimeTrials
