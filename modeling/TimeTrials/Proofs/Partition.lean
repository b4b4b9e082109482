import Mathlib.Data.List.Sort
import TimeTrials.Proofs.Aggregates
import TimeTrials.Proofs.Statistics
import TimeTrials.Proofs.Text.Order

/-!
# Grouping is a stable ordered partition

`Grouping` says what is found under a key, and this file what a list of groups is as a whole.  It is
determined by the times of every key: the keys that have any, in their order, each with its times
(`Groups.ofTrials_eq_map`).  So trials of different groups may be interleaved in any way
(`Groups.ofTrials_congr`).

## The order of keys

Outside the program a language and a benchmark are bytes, and the order of keys is meant for those.
`GroupKey.Precedes` spells it out, and it is the order by which groups are kept
(`GroupKey.precedes_iff`).

## Languages

The languages are read off the keys, where each repeats only what stands beside it: keys are sorted by
language first.  So dropping neighbours that are equal leaves every language once
(`pairwise_withoutRepeats`), and the groups of one language after those of another are all groups, in
order (`Statistics.flatMap_ofLanguage`).
-/

namespace TimeTrials

open Number (Binary64)

/-! ## The order of keys -/

/-- A parameter comes before another: sizes by value, then benchmarks by the bytes of their names. -/
inductive Param.Precedes : Param → Param → Prop
  | size {n m : UInt64} (h : n.toNat < m.toNat) : Precedes (.size n) (.size m)
  | sizeBenchmark (n : UInt64) (name : String) : Precedes (.size n) (.benchmark name)
  | benchmark {name name' : String} (h : Text.Utf8.encode name < Text.Utf8.encode name') :
      Precedes (.benchmark name) (.benchmark name')

/-- A key comes before another: by the bytes of the language, then by parameter. -/
inductive GroupKey.Precedes : GroupKey → GroupKey → Prop
  | lang {lang lang' : String} (h : Text.Utf8.encode lang < Text.Utf8.encode lang')
      (param param' : Param) : Precedes ⟨lang, param⟩ ⟨lang', param'⟩
  | param (lang : String) {param param' : Param} (h : param.Precedes param') :
      Precedes ⟨lang, param⟩ ⟨lang, param'⟩

theorem Param.precedes_iff {a b : Param} : a.Precedes b ↔ a.rank < b.rank := by
  constructor
  · intro h
    cases h with
    | size h => exact Sum.Lex.inl_lt_inl_iff.mpr h
    | sizeBenchmark n name => exact Sum.Lex.inl_lt_inr _ _
    | benchmark h => exact Sum.Lex.inr_lt_inr_iff.mpr (Text.Utf8.encode_lt_encode_iff.mp h)
  · intro h
    cases a with
    | size n =>
      cases b with
      | size m => exact .size (Sum.Lex.inl_lt_inl_iff.mp h)
      | benchmark name => exact .sizeBenchmark n name
    | benchmark name =>
      cases b with
      | size m => exact absurd h Sum.Lex.not_inr_lt_inl
      | benchmark name' =>
        exact .benchmark (Text.Utf8.encode_lt_encode_iff.mpr (Sum.Lex.inr_lt_inr_iff.mp h))

/-- The order of keys is the one by which groups are kept. -/
theorem GroupKey.precedes_iff {a b : GroupKey} : a.Precedes b ↔ a.rank < b.rank := by
  obtain ⟨lang, param⟩ := a
  obtain ⟨lang', param'⟩ := b
  rw [rank, rank, Prod.Lex.toLex_lt_toLex]
  constructor
  · intro h
    cases h with
    | lang h => exact .inl (Text.Utf8.encode_lt_encode_iff.mp h)
    | param _ h => exact .inr ⟨rfl, Param.precedes_iff.mp h⟩
  · rintro (h | ⟨rfl, h⟩)
    · exact .lang (Text.Utf8.encode_lt_encode_iff.mpr h) param param'
    · exact .param lang (Param.precedes_iff.mpr h)

/-- Lists that ascend are the same when they have the same members. -/
theorem eq_of_pairwise_rank {α : Type} {key : α → GroupKey} {as bs : List α}
    (has : as.Pairwise fun a b => (key a).rank < (key b).rank)
    (hbs : bs.Pairwise fun a b => (key a).rank < (key b).rank) (h : ∀ a, a ∈ as ↔ a ∈ bs) :
    as = bs := by
  have hirrefl : Std.Irrefl fun a b : α => (key a).rank < (key b).rank := ⟨fun _ => lt_irrefl _⟩
  have hantisymm : Std.Antisymm fun a b : α => (key a).rank < (key b).rank :=
    ⟨fun _ _ hab hba => absurd hba (lt_asymm hab)⟩
  exact has.eq_of_mem_iff hbs h

/-! ## Groups -/

namespace Groups

theorem timesOf_ne_nil_iff {trials : List Trial} {key : GroupKey} :
    timesOf trials key ≠ [] ↔ key ∈ trials.map Trial.key := by
  refine ⟨fun h => ?_, timesOf_ne_nil⟩
  by_contra hkey
  exact h (timesOf_eq_nil fun trial htrial heq => hkey (List.mem_map.mpr ⟨trial, htrial, heq⟩))

/-- The groups are the keys with their times. -/
theorem ofTrials_eq_map (trials : List Trial) :
    ofTrials trials = ((ofTrials trials).map Prod.fst).map fun key => (key, timesOf trials key) := by
  conv_lhs => rw [← List.map_id (ofTrials trials)]
  rw [List.map_map]
  refine List.map_congr_left fun group hgroup => ?_
  rw [id_eq, Function.comp_apply, ← (mem_ofTrials_iff.mp hgroup).2]

theorem keys_congr {trials trials' : List Trial}
    (h : ∀ key, timesOf trials key = timesOf trials' key) :
    (ofTrials trials).map Prod.fst = (ofTrials trials').map Prod.fst := by
  have hsorted (trials : List Trial) :
      ((ofTrials trials).map Prod.fst).Pairwise fun a b => a.rank < b.rank :=
    List.pairwise_map.mpr (sorted_ofTrials trials)
  refine eq_of_pairwise_rank (hsorted trials) (hsorted trials') fun key => ?_
  rw [mem_keys_ofTrials, mem_keys_ofTrials, ← timesOf_ne_nil_iff, ← timesOf_ne_nil_iff, h key]

/-- The groups depend on the times of every key and on nothing else. -/
theorem ofTrials_congr {trials trials' : List Trial}
    (h : ∀ key, timesOf trials key = timesOf trials' key) : ofTrials trials = ofTrials trials' := by
  rw [ofTrials_eq_map trials, ofTrials_eq_map trials', keys_congr h]
  exact List.map_congr_left fun key _ => by rw [h key]

/-- Neighbours of different groups can change places. -/
theorem timesOf_swap {a b : Trial} (h : a.key ≠ b.key) (before after : List Trial)
    (key : GroupKey) :
    timesOf (before ++ [a] ++ [b] ++ after) key = timesOf (before ++ [b] ++ [a] ++ after) key := by
  have hnone : timesOf [a] key = [] ∨ timesOf [b] key = [] := by
    by_cases ha : a.key = key
    · refine .inr (timesOf_eq_nil fun trial htrial heq => h ?_)
      rw [ha, ← heq, List.mem_singleton.mp htrial]
    · refine .inl (timesOf_eq_nil fun trial htrial heq => ha ?_)
      rw [← heq, List.mem_singleton.mp htrial]
  simp only [timesOf_append]
  rcases hnone with hnil | hnil <;> rw [hnil, List.append_nil, List.append_nil]

theorem perm_add (key : GroupKey) (time : Binary64) (groups : Groups) :
    ((groups.add key time).flatMap Prod.snd).Perm (groups.flatMap Prod.snd ++ [time]) := by
  fun_induction add key time groups with
  | case1 => exact List.Perm.refl _
  | case2 times rest =>
    rw [List.flatMap_cons, List.flatMap_cons, List.append_assoc, List.append_assoc]
    exact List.perm_append_comm.append_left times
  | case3 key' times rest hne hbefore =>
    rw [List.flatMap_cons]
    exact List.perm_append_comm
  | case4 key' times rest hne hbefore ih =>
    rw [List.flatMap_cons, List.flatMap_cons, List.append_assoc]
    exact ih.append_left times

/-- The times of all groups are the times of all trials. -/
theorem perm_ofTrials (trials : List Trial) :
    ((ofTrials trials).flatMap Prod.snd).Perm (trials.map (·.time)) := by
  induction trials using List.reverseRecOn with
  | nil => exact List.Perm.nil
  | append_singleton trials trial ih =>
    rw [ofTrials_append_singleton, List.map_append, List.map_singleton]
    exact (perm_add _ _ _).trans (ih.append_right _)

end Groups

/-! ## Languages -/

namespace Statistics

theorem mem_withoutRepeats {a : String} {as : List String} :
    a ∈ withoutRepeats as ↔ a ∈ as := by
  fun_induction withoutRepeats as with
  | case1 => rfl
  | case2 => rfl
  | case3 b rest ih => simp [ih]
  | case4 b c rest hne ih => simp [ih]

/-- In a list that ascends equal entries are neighbours. -/
theorem pairwise_withoutRepeats {as : List String} (h : as.Pairwise (· ≤ ·)) :
    (withoutRepeats as).Pairwise (· < ·) := by
  fun_induction withoutRepeats as with
  | case1 => exact List.Pairwise.nil
  | case2 a => exact List.pairwise_singleton _ _
  | case3 a rest ih => exact ih (List.pairwise_cons.mp h).2
  | case4 a b rest hne ih =>
    obtain ⟨hfirst, hrest⟩ := List.pairwise_cons.mp h
    have hlt : a < b := lt_of_le_of_ne (hfirst b List.mem_cons_self) hne
    refine List.pairwise_cons.mpr ⟨fun c hc => ?_, ih hrest⟩
    rcases List.mem_cons.mp (mem_withoutRepeats.mp hc) with rfl | hmem
    · exact hlt
    · exact hlt.trans_le (List.rel_of_pairwise_cons hrest hmem)

/-- Every group has an aggregate, and there are no others. -/
theorem map_groups_eq (trials : List Trial) :
    (ofTrials trials).groups.map (fun group => (group.1, some group.2)) =
      (Groups.ofTrials trials).map fun group => (group.1, Aggregate.ofSamples? group.2) := by
  have hsome : ∀ group ∈ Groups.ofTrials trials, ∃ aggregate,
      Aggregate.ofSamples? group.2 = some aggregate := by
    intro group hgroup
    obtain ⟨hkey, htimes⟩ := Groups.mem_ofTrials_iff.mp hgroup
    rw [htimes]
    exact ⟨_, Aggregate.ofSamples?_eq (Groups.timesOf_ne_nil hkey)⟩
  rw [ofTrials]
  generalize Groups.ofTrials trials = groups at hsome
  induction groups with
  | nil => rfl
  | cons group rest ih =>
    obtain ⟨⟨aggregate, haggregate⟩, hrest⟩ := List.forall_mem_cons.mp hsome
    have hcons : (ofGroups (group :: rest)).groups =
        (group.1, aggregate) :: (ofGroups rest).groups := by
      simp only [ofGroups, List.filterMap_cons, haggregate, Option.map_some]
    rw [hcons, List.map_cons, List.map_cons, ih hrest, haggregate]

theorem map_fst_groups (trials : List Trial) :
    (ofTrials trials).groups.map Prod.fst = (Groups.ofTrials trials).map Prod.fst := by
  have hkeys := congrArg (List.map Prod.fst) (map_groups_eq trials)
  rwa [List.map_map, List.map_map] at hkeys

theorem mem_languages_iff {trials : List Trial} {lang : String} :
    lang ∈ (ofTrials trials).languages ↔ ∃ trial ∈ trials, trial.lang = lang := by
  have hlangs : (ofTrials trials).groups.map (·.1.lang) =
      ((Groups.ofTrials trials).map Prod.fst).map (·.lang) := by
    rw [← map_fst_groups, List.map_map]
    rfl
  rw [languages, mem_withoutRepeats, hlangs, List.mem_map]
  constructor
  · rintro ⟨key, hkey, rfl⟩
    obtain ⟨trial, htrial, rfl⟩ := List.mem_map.mp (Groups.mem_keys_ofTrials.mp hkey)
    exact ⟨trial, htrial, rfl⟩
  · rintro ⟨trial, htrial, rfl⟩
    exact ⟨trial.key, Groups.mem_keys_ofTrials.mpr (List.mem_map_of_mem htrial), rfl⟩

theorem lang_le_of_rank_lt {a b : GroupKey} (h : a.rank < b.rank) : a.lang ≤ b.lang := by
  rcases Prod.Lex.toLex_lt_toLex.mp h with hlt | ⟨heq, -⟩
  · exact hlt.le
  · exact heq.le

theorem pairwise_languages (trials : List Trial) :
    (ofTrials trials).languages.Pairwise (· < ·) :=
  pairwise_withoutRepeats (List.pairwise_map.mpr ((sorted_groups trials).imp lang_le_of_rank_lt))

/-- The groups of a language, with the key put together again. -/
theorem map_ofLanguage (stats : Statistics) (lang : String) :
    (stats.ofLanguage lang).map (fun (param, aggregate) => (GroupKey.mk lang param, aggregate)) =
      stats.groups.filter (·.1.lang == lang) := by
  rw [ofLanguage, List.map_map]
  conv_rhs => rw [← List.map_id (stats.groups.filter (·.1.lang == lang))]
  refine List.map_congr_left fun group hgroup => ?_
  obtain rfl : group.1.lang = lang := eq_of_beq (List.mem_filter.mp hgroup).2
  rfl

/-- The groups of the languages, one language after the other, are all groups in their order. -/
theorem flatMap_ofLanguage (trials : List Trial) :
    ((ofTrials trials).languages.flatMap fun lang => ((ofTrials trials).ofLanguage lang).map
      fun (param, aggregate) => (GroupKey.mk lang param, aggregate)) = (ofTrials trials).groups := by
  simp only [map_ofLanguage]
  refine eq_of_pairwise_rank (List.pairwise_flatMap.mpr ⟨?_, ?_⟩) (sorted_groups trials) ?_
  · exact fun lang _ => (sorted_groups trials).filter _
  · refine (pairwise_languages trials).imp fun {lang lang'} hlt a ha b hb => ?_
    have hlang : a.1.lang = lang := eq_of_beq (List.mem_filter.mp ha).2
    have hlang' : b.1.lang = lang' := eq_of_beq (List.mem_filter.mp hb).2
    exact Prod.Lex.toLex_lt_toLex.mpr (.inl (by rwa [hlang, hlang']))
  · intro group
    rw [List.mem_flatMap]
    constructor
    · rintro ⟨lang, -, hgroup⟩
      exact (List.mem_filter.mp hgroup).1
    · intro hgroup
      refine ⟨group.1.lang, ?_, List.mem_filter.mpr ⟨hgroup, beq_self_eq_true _⟩⟩
      exact mem_withoutRepeats.mpr (List.mem_map_of_mem hgroup)

/-- What is looked up for a key is the aggregate of its times, and of no times there is none. -/
theorem get?_eq (trials : List Trial) (lang : String) (param : Param) :
    (ofTrials trials).get? lang param =
      Aggregate.ofSamples? (Groups.timesOf trials ⟨lang, param⟩) := by
  refine Option.ext fun aggregate => get?_eq_some_iff.trans (and_iff_right_of_imp fun h => ?_)
  exact Groups.timesOf_ne_nil_iff.mp (Aggregate.ofSamples?_eq_some_iff.mp h).1

end Statistics

/-! ## The partition -/

/-- **Groups are a stable ordered partition of the trials.**  The keys ascend and are those that occur.
A group holds the times of its trials in their order, and all groups together hold as many as there are
trials.  Every group has its aggregate.  The languages ascend, and their groups are all groups.  Looking
up a key finds the aggregate of its times, and finds one exactly when the key occurs.  And trials whose
groups are interleaved in another way have the same groups and the same statistics. -/
theorem groups_partition_trials (trials : List Trial) :
    let groups := Groups.ofTrials trials
    let stats := Statistics.ofTrials trials
    ((groups.map Prod.fst).Pairwise GroupKey.Precedes ∧
      ∀ key, key ∈ groups.map Prod.fst ↔ ∃ trial ∈ trials, trial.key = key) ∧
    ((∀ group ∈ groups, group.2 = Groups.timesOf trials group.1 ∧ group.2 ≠ []) ∧
      (groups.map fun group => group.2.length).sum = trials.length) ∧
    stats.groups.map (fun group => (group.1, some group.2)) =
      groups.map (fun group => (group.1, Aggregate.ofSamples? group.2)) ∧
    (stats.languages.Pairwise (fun a b => Text.Utf8.encode a < Text.Utf8.encode b) ∧
      (∀ lang, lang ∈ stats.languages ↔ ∃ trial ∈ trials, trial.lang = lang) ∧
      (stats.languages.flatMap fun lang => (stats.ofLanguage lang).map
        fun (param, aggregate) => (GroupKey.mk lang param, aggregate)) = stats.groups) ∧
    (∀ lang param,
      stats.get? lang param = Aggregate.ofSamples? (Groups.timesOf trials ⟨lang, param⟩) ∧
      ((stats.get? lang param).isSome ↔ ∃ trial ∈ trials, trial.key = ⟨lang, param⟩)) ∧
    (∀ trials' : List Trial,
      (∀ key, Groups.timesOf trials key = Groups.timesOf trials' key) →
        groups = Groups.ofTrials trials' ∧ stats = Statistics.ofTrials trials') := by
  intro groups stats
  have hsorted := Groups.sorted_ofTrials trials
  have hkeys (key : GroupKey) : key ∈ groups.map Prod.fst ↔ ∃ trial ∈ trials, trial.key = key := by
    rw [Groups.mem_keys_ofTrials, List.mem_map]
  have hlength : (groups.map fun group => group.2.length).sum = trials.length := by
    rw [← List.length_flatMap, (Groups.perm_ofTrials trials).length_eq, List.length_map]
  refine ⟨⟨?_, hkeys⟩, ⟨?_, hlength⟩, Statistics.map_groups_eq trials, ⟨?_, ?_, ?_⟩, ?_, ?_⟩
  · exact List.pairwise_map.mpr (hsorted.imp GroupKey.precedes_iff.mpr)
  · rintro ⟨key, times⟩ hgroup
    obtain ⟨hkey, rfl⟩ := Groups.mem_ofTrials_iff.mp hgroup
    exact ⟨rfl, Groups.timesOf_ne_nil hkey⟩
  · exact (Statistics.pairwise_languages trials).imp Text.Utf8.encode_lt_encode_iff.mpr
  · exact fun lang => Statistics.mem_languages_iff
  · exact Statistics.flatMap_ofLanguage trials
  · intro lang param
    refine ⟨Statistics.get?_eq trials lang param, ?_⟩
    rw [← hkeys, Groups.mem_keys_ofTrials, ← Groups.timesOf_ne_nil_iff, Statistics.get?_eq,
      Option.isSome_iff_exists]
    constructor
    · rintro ⟨aggregate, h⟩
      exact (Aggregate.ofSamples?_eq_some_iff.mp h).1
    · exact fun hne => ⟨_, Aggregate.ofSamples?_eq hne⟩
  · intro trials' h
    have hgroups := Groups.ofTrials_congr h
    exact ⟨hgroups, congrArg Statistics.ofGroups hgroups⟩

/-- Three trials of two groups, and the same with the last two in the other order. -/
theorem groups_partition_interleaved :
    let first : Trial := ⟨"b", .size 11, .ofNat 2⟩
    let second : Trial := ⟨"b", .size 11, .ofNat 1⟩
    let other : Trial := ⟨"a", .benchmark "zoo", .zero⟩
    (∀ key, Groups.timesOf [first, second, other] key = Groups.timesOf [first, other, second] key) ∧
      Groups.ofTrials [first, second, other] = Groups.ofTrials [first, other, second] ∧
      Statistics.ofTrials [first, second, other] = Statistics.ofTrials [first, other, second] := by
  intro first second other
  have htimes : ∀ key, Groups.timesOf [first, second, other] key =
      Groups.timesOf [first, other, second] key :=
    Groups.timesOf_swap (by decide) [first] []
  obtain ⟨-, -, -, -, -, hcongr⟩ := groups_partition_trials [first, second, other]
  exact ⟨htimes, hcongr _ htimes⟩

end TimeTrials
