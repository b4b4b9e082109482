import TimeTrials.Proofs.Grouping

/-!
# The statistics of trials

`Statistics.ofTrials` puts an aggregate in place of the times of every group.  What is read from it by
language and parameter, or listed for a language, is the aggregate of the trials that have this language
and this parameter.

* `lookup_eq_some_iff`: with every key once, looking up and being listed are the same.
* `Groups.mem_ofTrials_iff`, `Statistics.mem_groups_iff`: what is listed.
* `Statistics.get?_eq_some_iff`: what is looked up.
-/

namespace TimeTrials

open Number (Binary64)

theorem lookup_eq_some_iff {α β : Type} [BEq α] [LawfulBEq α] {entries : List (α × β)} {key : α}
    {value : β} (hnodup : (entries.map Prod.fst).Nodup) :
    entries.lookup key = some value ↔ (key, value) ∈ entries := by
  induction entries with
  | nil => simp
  | cons entry rest ih =>
    obtain ⟨key', value'⟩ := entry
    rw [List.map_cons, List.nodup_cons] at hnodup
    rw [List.lookup_cons, List.mem_cons]
    by_cases heq : key = key'
    · subst heq
      have hnot : (key, value) ∉ rest := fun hmem => hnodup.1 (List.mem_map.mpr ⟨_, hmem, rfl⟩)
      simp [hnot, eq_comm]
    · have hbeq : (key == key') = false := beq_false_of_ne heq
      simp only [hbeq, ih hnodup.2, Prod.mk.injEq, heq, false_and, false_or]

/-- The groups of trials are those of the keys that occur, each with its times. -/
theorem Groups.mem_ofTrials_iff {trials : List Trial} {key : GroupKey} {times : List Binary64} :
    (key, times) ∈ ofTrials trials ↔
      key ∈ trials.map Trial.key ∧ times = timesOf trials key := by
  rw [← lookup_eq_some_iff (sorted_ofTrials trials).nodup_keys, lookup_ofTrials]
  split_ifs with hkey
  · rw [Option.some_inj, and_iff_right hkey, eq_comm]
  · exact iff_of_false (by simp) fun h => hkey h.1

/-- There are times for every key that occurs. -/
theorem Groups.timesOf_ne_nil {trials : List Trial} {key : GroupKey}
    (h : key ∈ trials.map Trial.key) : timesOf trials key ≠ [] := by
  obtain ⟨trial, htrial, rfl⟩ := List.mem_map.mp h
  have hmem : trial.time ∈ timesOf trials trial.key :=
    List.mem_map_of_mem (List.mem_filter.mpr ⟨htrial, by simp⟩)
  exact List.ne_nil_of_mem hmem

/-- A group whose key is kept is kept as a whole. -/
theorem Groups.timesOf_filter {trials : List Trial} {keep : Trial → Bool}
    (hkeep : ∀ trial trial' : Trial, trial.key = trial'.key → keep trial = keep trial')
    {key : GroupKey} (hkey : key ∈ (trials.filter keep).map Trial.key) :
    timesOf (trials.filter keep) key = timesOf trials key := by
  obtain ⟨kept, hkept, rfl⟩ := List.mem_map.mp hkey
  have hkept' : keep kept = true := (List.mem_filter.mp hkept).2
  rw [timesOf, timesOf, List.filter_filter]
  congr 1
  refine List.filter_congr fun trial _ => ?_
  by_cases heq : trial.key = kept.key
  · rw [hkeep trial kept heq, hkept', Bool.and_true]
  · simp [heq]

namespace Statistics

/-- An aggregate is listed for a key when the key occurs, and the aggregate is that of its times. -/
theorem mem_groups_iff {trials : List Trial} {key : GroupKey} {aggregate : Aggregate} :
    (key, aggregate) ∈ (ofTrials trials).groups ↔ key ∈ trials.map Trial.key ∧
      Aggregate.ofSamples? (Groups.timesOf trials key) = some aggregate := by
  have hlisted : (key, aggregate) ∈ (ofTrials trials).groups ↔ ∃ times,
      (key, times) ∈ Groups.ofTrials trials ∧ Aggregate.ofSamples? times = some aggregate := by
    rw [ofTrials, ofGroups, List.mem_filterMap]
    constructor
    · rintro ⟨⟨key', times⟩, hmem, heq⟩
      obtain ⟨aggregate', hsome, hpair⟩ := Option.map_eq_some_iff.mp heq
      cases hpair
      exact ⟨times, hmem, hsome⟩
    · rintro ⟨times, hmem, hsome⟩
      exact ⟨(key, times), hmem, Option.map_eq_some_iff.mpr ⟨aggregate, hsome, rfl⟩⟩
  rw [hlisted]
  constructor
  · rintro ⟨times, hmem, hsome⟩
    obtain ⟨hkey, rfl⟩ := Groups.mem_ofTrials_iff.mp hmem
    exact ⟨hkey, hsome⟩
  · rintro ⟨hkey, hsome⟩
    exact ⟨_, Groups.mem_ofTrials_iff.mpr ⟨hkey, rfl⟩, hsome⟩

/-- The aggregates stand in the order of their keys. -/
theorem sorted_groups (trials : List Trial) :
    (ofTrials trials).groups.Pairwise fun a b => a.1.rank < b.1.rank := by
  refine List.pairwise_filterMap.mpr ((Groups.sorted_ofTrials trials).imp ?_)
  rintro ⟨key, times⟩ ⟨key', times'⟩ hlt entry hentry entry' hentry'
  obtain ⟨aggregate, -, rfl⟩ := Option.map_eq_some_iff.mp hentry
  obtain ⟨aggregate', -, rfl⟩ := Option.map_eq_some_iff.mp hentry'
  exact hlt

theorem nodup_keys (trials : List Trial) : ((ofTrials trials).groups.map Prod.fst).Nodup := by
  refine List.pairwise_map.mpr ((sorted_groups trials).imp fun {a b} hlt heq => ?_)
  rw [heq] at hlt
  exact lt_irrefl _ hlt

theorem get?_eq_some_iff {trials : List Trial} {lang : String} {param : Param}
    {aggregate : Aggregate} :
    (ofTrials trials).get? lang param = some aggregate ↔ ⟨lang, param⟩ ∈ trials.map Trial.key ∧
      Aggregate.ofSamples? (Groups.timesOf trials ⟨lang, param⟩) = some aggregate := by
  rw [get?, lookup_eq_some_iff (nodup_keys trials), mem_groups_iff]

/-- The aggregates of a language are those of its groups. -/
theorem mem_ofLanguage_iff_mem_groups {stats : Statistics} {lang : String} {param : Param}
    {aggregate : Aggregate} :
    (param, aggregate) ∈ stats.ofLanguage lang ↔ (⟨lang, param⟩, aggregate) ∈ stats.groups := by
  rw [ofLanguage, List.mem_map]
  constructor
  · rintro ⟨⟨⟨lang', param'⟩, aggregate'⟩, hmem, heq⟩
    obtain ⟨hgroup, hlang⟩ := List.mem_filter.mp hmem
    obtain ⟨rfl, rfl⟩ := Prod.mk.inj heq
    rw [← eq_of_beq hlang]
    exact hgroup
  · intro hmem
    exact ⟨_, List.mem_filter.mpr ⟨hmem, beq_self_eq_true lang⟩, rfl⟩

theorem mem_ofLanguage_iff {trials : List Trial} {lang : String} {param : Param}
    {aggregate : Aggregate} :
    (param, aggregate) ∈ (ofTrials trials).ofLanguage lang ↔
      ⟨lang, param⟩ ∈ trials.map Trial.key ∧
        Aggregate.ofSamples? (Groups.timesOf trials ⟨lang, param⟩) = some aggregate := by
  rw [mem_ofLanguage_iff_mem_groups, mem_groups_iff]

end Statistics
end TimeTrials
