import Mathlib.Data.List.Induction
import Mathlib.Data.List.Nodup

/-!
# Lists without repetitions, by first occurrence

`List.eraseDups` keeps every element where it occurs first.  Read from the left, the next element is
dropped when it has occurred and put at the end when it has not (`eraseDups_concat_of_mem`,
`eraseDups_concat_of_notMem`); everything here is an induction along these two.

* `nodup_eraseDups`: nothing is repeated.
* `pairwise_idxOf_eraseDups`: the order is that of first occurrences (`IsByFirstOccurrence`).
* `eraseDups_filter`, `eraseDups_map`: elements may be chosen or renamed before or after.
* `eraseDups_append_of_subset`: what adds no new element adds nothing.
* `eraseDups_flatMap_of_const`: a run of one element counts as one occurrence.
-/

namespace TimeTrials

variable {α β : Type} [DecidableEq α]

theorem eraseDups_append_of_subset {as bs : List α} (h : bs ⊆ as) :
    (as ++ bs).eraseDups = as.eraseDups := by
  have hnone : bs.removeAll as = [] := by
    rw [List.removeAll, List.filter_eq_nil_iff]
    intro b hb
    simpa using h hb
  rw [List.eraseDups_append, hnone, List.eraseDups_nil, List.append_nil]

theorem eraseDups_concat_of_mem {as : List α} {a : α} (h : a ∈ as) :
    (as ++ [a]).eraseDups = as.eraseDups :=
  eraseDups_append_of_subset (List.cons_subset.mpr ⟨h, List.nil_subset as⟩)

theorem eraseDups_concat_of_notMem {as : List α} {a : α} (h : a ∉ as) :
    (as ++ [a]).eraseDups = as.eraseDups ++ [a] := by
  have hkept : [a].removeAll as = [a] := by
    rw [List.removeAll, List.filter_eq_self]
    intro b hb
    rw [List.mem_singleton.mp hb]
    simpa using h
  rw [List.eraseDups_append, hkept]
  rfl

theorem nodup_eraseDups (as : List α) : as.eraseDups.Nodup := by
  induction as using List.reverseRecOn with
  | nil => exact List.nodup_nil
  | append_singleton as a ih =>
    by_cases ha : a ∈ as
    · rwa [eraseDups_concat_of_mem ha]
    · rw [eraseDups_concat_of_notMem ha]
      refine List.nodup_append.mpr ⟨ih, List.nodup_singleton a, ?_⟩
      intro b hb c hc heq
      rw [heq, List.mem_singleton.mp hc] at hb
      exact ha (List.mem_eraseDups.mp hb)

theorem eraseDups_eq_self {as : List α} (h : as.Nodup) : as.eraseDups = as := by
  induction as using List.reverseRecOn with
  | nil => rfl
  | append_singleton as a ih =>
    obtain ⟨has, -, hdisjoint⟩ := List.nodup_append.mp h
    have ha : a ∉ as := fun hmem => hdisjoint a hmem a (List.mem_singleton_self a) rfl
    rw [eraseDups_concat_of_notMem ha, ih has]

/-- An element comes before another if it occurs before the other does. -/
theorem pairwise_idxOf_eraseDups (as : List α) :
    as.eraseDups.Pairwise fun a b => as.idxOf a < as.idxOf b := by
  induction as using List.reverseRecOn with
  | nil => exact List.Pairwise.nil
  | append_singleton as a ih =>
    have hold : as.eraseDups.Pairwise fun b c => (as ++ [a]).idxOf b < (as ++ [a]).idxOf c := by
      refine ih.imp_of_mem fun {b c} hb hc hlt => ?_
      rwa [List.idxOf_append_of_mem (List.mem_eraseDups.mp hb),
        List.idxOf_append_of_mem (List.mem_eraseDups.mp hc)]
    by_cases ha : a ∈ as
    · rwa [eraseDups_concat_of_mem ha]
    · rw [eraseDups_concat_of_notMem ha]
      refine List.pairwise_append.mpr ⟨hold, List.pairwise_singleton _ _, ?_⟩
      intro b hb c hc
      rw [List.mem_singleton.mp hc, List.idxOf_append_of_mem (List.mem_eraseDups.mp hb),
        List.idxOf_append_of_notMem ha]
      exact Nat.lt_add_right _ (List.idxOf_lt_length_iff.mpr (List.mem_eraseDups.mp hb))

/-- A list without repetitions that holds the elements of another in the order of their first
occurrences. -/
structure IsByFirstOccurrence (as bs : List α) : Prop where
  mem_iff : ∀ a, a ∈ bs ↔ a ∈ as
  nodup : bs.Nodup
  ordered : bs.Pairwise fun a b => as.idxOf a < as.idxOf b

theorem isByFirstOccurrence_eraseDups (as : List α) : IsByFirstOccurrence as as.eraseDups :=
  ⟨fun _ => List.mem_eraseDups, nodup_eraseDups as, pairwise_idxOf_eraseDups as⟩

theorem eraseDups_filter (p : α → Bool) (as : List α) :
    (as.filter p).eraseDups = as.eraseDups.filter p := by
  induction as using List.reverseRecOn with
  | nil => rfl
  | append_singleton as a ih =>
    rw [List.filter_append]
    by_cases hp : p a = true
    · have hone : [a].filter p = [a] := List.filter_cons_of_pos hp
      rw [hone]
      by_cases ha : a ∈ as
      · rw [eraseDups_concat_of_mem ha, eraseDups_concat_of_mem (List.mem_filter.mpr ⟨ha, hp⟩), ih]
      · have hkept : a ∉ as.filter p := fun hmem => ha (List.mem_filter.mp hmem).1
        rw [eraseDups_concat_of_notMem ha, eraseDups_concat_of_notMem hkept, List.filter_append,
          hone, ih]
    · have hone : [a].filter p = [] := List.filter_cons_of_neg hp
      rw [hone, List.append_nil, ih]
      by_cases ha : a ∈ as
      · rw [eraseDups_concat_of_mem ha]
      · rw [eraseDups_concat_of_notMem ha, List.filter_append, hone, List.append_nil]

theorem eraseDups_map [DecidableEq β] {f : α → β} (hf : Function.Injective f) (as : List α) :
    (as.map f).eraseDups = as.eraseDups.map f := by
  induction as using List.reverseRecOn with
  | nil => rfl
  | append_singleton as a ih =>
    rw [List.map_append, List.map_singleton]
    by_cases ha : a ∈ as
    · rw [eraseDups_concat_of_mem ha, eraseDups_concat_of_mem (List.mem_map_of_mem ha), ih]
    · have hfa : f a ∉ as.map f := fun hmem => ha ((List.mem_map_of_injective hf).mp hmem)
      rw [eraseDups_concat_of_notMem ha, eraseDups_concat_of_notMem hfa, ih, List.map_append,
        List.map_singleton]

theorem eraseDups_append_congr {as bs : List α} (h : as.eraseDups = bs.eraseDups) (cs : List α) :
    (as ++ cs).eraseDups = (bs ++ cs).eraseDups := by
  have hmem : ∀ c, c ∈ as ↔ c ∈ bs := fun c => by
    rw [← List.mem_eraseDups, h, List.mem_eraseDups]
  have hnew : cs.removeAll as = cs.removeAll bs :=
    List.filter_congr fun c _ => by
      rw [List.elem_eq_mem, List.elem_eq_mem, decide_eq_decide.mpr (hmem c)]
  rw [List.eraseDups_append, List.eraseDups_append, h, hnew]

/-- A run of one element counts as one occurrence. -/
theorem eraseDups_flatMap_of_const {f : β → List α} {g : β → α} (hne : ∀ b, f b ≠ [])
    (hconst : ∀ b, ∀ a ∈ f b, a = g b) (bs : List β) :
    (bs.flatMap f).eraseDups = (bs.map g).eraseDups := by
  induction bs using List.reverseRecOn with
  | nil => rfl
  | append_singleton bs b ih =>
    obtain ⟨a, rest, hab⟩ := List.exists_cons_of_ne_nil (hne b)
    have ha : a = g b := hconst b a (by rw [hab]; exact List.mem_cons_self)
    have hrest : rest ⊆ bs.flatMap f ++ [g b] := by
      intro a' ha'
      rw [hconst b a' (by rw [hab]; exact List.mem_cons_of_mem a ha')]
      exact List.mem_append_right _ (List.mem_singleton_self _)
    calc ((bs ++ [b]).flatMap f).eraseDups
        = ((bs.flatMap f ++ [g b]) ++ rest).eraseDups := by
          rw [List.flatMap_append, List.flatMap_singleton, hab, ha, List.append_assoc,
            List.singleton_append]
      _ = (bs.flatMap f ++ [g b]).eraseDups := eraseDups_append_of_subset hrest
      _ = (bs.map g ++ [g b]).eraseDups := eraseDups_append_congr ih _
      _ = ((bs ++ [b]).map g).eraseDups := by rw [List.map_append, List.map_singleton]

end TimeTrials
