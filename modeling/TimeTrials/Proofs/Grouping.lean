import Mathlib.Data.List.Induction
import Mathlib.Data.Prod.Lex
import Mathlib.Data.String.Basic
import Mathlib.Data.Sum.Order
import TimeTrials.Statistics

/-!
# Grouping trials

Groups are kept as a list that is sorted by key, and a time is put where its key belongs.  That this
never splits a group rests on the order of the keys: it is the order of ranks (`GroupKey.rank`), and
ranks are ordered linearly.

* `GroupKey.before_iff`: the order of keys is lexicographic.
* `Groups.Sorted`: the invariant; it is kept by `Groups.add` (`sorted_add`) and so holds of the groups
  of any trials (`sorted_ofTrials`).
* `mem_keys_ofTrials`: there are groups for the keys that occur and for no others.
* `lookup_ofTrials`: the times of a group are those of the trials with its key, in their order.
-/

namespace TimeTrials

open Number (Binary64)

/-! ## The order of keys -/

/-- Parameters by their order of presentation. -/
def Param.rank : Param → ℕ ⊕ₗ String
  | .size n => Sum.inlₗ n.toNat
  | .benchmark name => Sum.inrₗ name

theorem Param.rank_injective : Function.Injective Param.rank := by
  intro a b h
  cases a with
  | size n =>
    cases b with
    | size m => rw [UInt64.toNat_inj.mp (Sum.inl.inj h)]
    | benchmark name => cases h
  | benchmark name =>
    cases b with
    | size n => cases h
    | benchmark name' => rw [Sum.inr.inj h]

theorem Param.before_iff (a b : Param) : a.before b = true ↔ a.rank < b.rank := by
  cases a with
  | size n =>
    cases b with
    | size m =>
      rw [before, decide_eq_true_iff, UInt64.lt_iff_toNat_lt]
      exact Sum.Lex.inl_lt_inl_iff.symm
    | benchmark name => exact iff_of_true rfl (Sum.Lex.inl_lt_inr _ _)
  | benchmark name =>
    cases b with
    | size n => exact iff_of_false (by simp [before]) Sum.Lex.not_inr_lt_inl
    | benchmark name' =>
      rw [before, decide_eq_true_iff]
      exact Sum.Lex.inr_lt_inr_iff.symm

namespace GroupKey

/-- Keys by language, then by parameter. -/
def rank (key : GroupKey) : String ×ₗ (ℕ ⊕ₗ String) := toLex (key.lang, key.param.rank)

theorem rank_injective : Function.Injective rank := by
  rintro ⟨lang, param⟩ ⟨lang', param'⟩ h
  obtain ⟨hlang, hparam⟩ := Prod.mk.inj (toLex_inj.mp h)
  cases hlang
  cases Param.rank_injective hparam
  rfl

/-- The order of groups is the order of their ranks. -/
theorem before_iff (a b : GroupKey) : a.before b = true ↔ a.rank < b.rank := by
  rw [before, Bool.or_eq_true, Bool.and_eq_true, decide_eq_true_iff, beq_iff_eq, Param.before_iff,
    rank, rank, Prod.Lex.toLex_lt_toLex]

theorem rank_lt_of_not_before {a b : GroupKey} (hne : a ≠ b) (h : a.before b ≠ true) :
    b.rank < a.rank := by
  have hle : b.rank ≤ a.rank := not_lt.mp fun hlt => h ((before_iff a b).mpr hlt)
  exact lt_of_le_of_ne hle fun heq => hne (rank_injective heq).symm

end GroupKey

namespace Groups

/-! ## Sorted groups -/

/-- The keys ascend, so each of them has one group. -/
def Sorted (groups : Groups) : Prop := groups.Pairwise fun a b => a.1.rank < b.1.rank

theorem Sorted.nodup_keys {groups : Groups} (h : Sorted groups) :
    (groups.map Prod.fst).Nodup := by
  refine List.pairwise_map.mpr (h.imp ?_)
  intro a b hlt heq
  rw [heq] at hlt
  exact lt_irrefl _ hlt

/-- A key before the first one has no group. -/
theorem Sorted.lookup_eq_none {key : GroupKey} {first : GroupKey × List Binary64} {rest : Groups}
    (h : Sorted (first :: rest)) (hlt : key.rank < first.1.rank) :
    (first :: rest).lookup key = none := by
  rw [List.lookup_eq_none_iff]
  intro group hgroup
  have hkey : key.rank < group.1.rank := by
    rcases List.mem_cons.mp hgroup with rfl | hrest
    · exact hlt
    · exact hlt.trans (List.rel_of_pairwise_cons h hrest)
  have hne : key ≠ group.1 := by
    rintro rfl
    exact lt_irrefl _ hkey
  simpa using hne

theorem mem_keys_add {key k : GroupKey} {time : Binary64} {groups : Groups} :
    k ∈ (groups.add key time).map Prod.fst ↔ k = key ∨ k ∈ groups.map Prod.fst := by
  fun_induction add key time groups with
  | case1 => simp
  | case2 times rest => simp
  | case3 key' times rest hne hbefore => simp
  | case4 key' times rest hne hbefore ih =>
    rw [List.map_cons, List.mem_cons, ih, List.map_cons, List.mem_cons, or_left_comm]

/-- A time goes where its key belongs. -/
theorem sorted_add (key : GroupKey) (time : Binary64) {groups : Groups} (h : Sorted groups) :
    Sorted (groups.add key time) := by
  fun_induction add key time groups with
  | case1 => exact List.pairwise_singleton _ _
  | case2 times rest => exact List.pairwise_cons.mpr (List.pairwise_cons.mp h)
  | case3 key' times rest hne hbefore =>
    have hlt : key.rank < key'.rank := (GroupKey.before_iff key key').mp hbefore
    refine List.pairwise_cons.mpr ⟨?_, h⟩
    intro group hgroup
    rcases List.mem_cons.mp hgroup with rfl | hrest
    · exact hlt
    · exact hlt.trans (List.rel_of_pairwise_cons h hrest)
  | case4 key' times rest hne hbefore ih =>
    obtain ⟨hfirst, hrest⟩ := List.pairwise_cons.mp h
    refine List.pairwise_cons.mpr ⟨?_, ih hrest⟩
    intro group hgroup
    have hkey : group.1 ∈ (add key time rest).map Prod.fst := List.mem_map_of_mem hgroup
    rcases mem_keys_add.mp hkey with heq | hmem
    · rw [heq]
      exact GroupKey.rank_lt_of_not_before hne hbefore
    · obtain ⟨group', hgroup', heq⟩ := List.mem_map.mp hmem
      rw [← heq]
      exact hfirst group' hgroup'

/-- A time is added to its group, at the end. -/
theorem lookup_add_self (key : GroupKey) (time : Binary64) {groups : Groups} (h : Sorted groups) :
    (groups.add key time).lookup key = some ((groups.lookup key).getD [] ++ [time]) := by
  fun_induction add key time groups with
  | case1 => simp
  | case2 times rest => simp
  | case3 key' times rest hne hbefore =>
    rw [h.lookup_eq_none ((GroupKey.before_iff key key').mp hbefore), List.lookup_cons_self]
    rfl
  | case4 key' times rest hne hbefore ih =>
    have hbeq : (key == key') = false := by simpa using hne
    rw [List.lookup_cons, List.lookup_cons, hbeq]
    exact ih (List.pairwise_cons.mp h).2

/-- Other groups stay as they are. -/
theorem lookup_add_of_ne {key k : GroupKey} (hk : k ≠ key) (time : Binary64) (groups : Groups) :
    (groups.add key time).lookup k = groups.lookup k := by
  have hbeq : (k == key) = false := by simpa using hk
  fun_induction add key time groups with
  | case1 => rw [List.lookup_cons, hbeq]
  | case2 times rest => rw [List.lookup_cons, List.lookup_cons, hbeq]
  | case3 key' times rest hne hbefore => rw [List.lookup_cons, hbeq]
  | case4 key' times rest hne hbefore ih => rw [List.lookup_cons, List.lookup_cons, ih]

/-! ## The groups of trials -/

theorem ofTrials_append_singleton (trials : List Trial) (trial : Trial) :
    ofTrials (trials ++ [trial]) = (ofTrials trials).add trial.key trial.time := by
  rw [ofTrials, List.foldl_append]
  rfl

theorem sorted_ofTrials (trials : List Trial) : Sorted (ofTrials trials) := by
  induction trials using List.reverseRecOn with
  | nil => exact List.Pairwise.nil
  | append_singleton trials trial ih =>
    rw [ofTrials_append_singleton]
    exact sorted_add trial.key trial.time ih

/-- There is a group for each key that occurs. -/
theorem mem_keys_ofTrials {trials : List Trial} {key : GroupKey} :
    key ∈ (ofTrials trials).map Prod.fst ↔ key ∈ trials.map Trial.key := by
  induction trials using List.reverseRecOn with
  | nil => rfl
  | append_singleton trials trial ih =>
    rw [ofTrials_append_singleton, mem_keys_add, ih, List.map_append, List.mem_append,
      List.map_singleton, List.mem_singleton, or_comm]

/-- The times of the trials with a key, in order. -/
def timesOf (trials : List Trial) (key : GroupKey) : List Binary64 :=
  (trials.filter fun trial => trial.key = key).map (·.time)

theorem exists_of_mem_timesOf {trials : List Trial} {key : GroupKey} {time : Binary64}
    (h : time ∈ timesOf trials key) : ∃ trial ∈ trials, trial.time = time := by
  obtain ⟨trial, htrial, heq⟩ := List.mem_map.mp h
  exact ⟨trial, List.mem_of_mem_filter htrial, heq⟩

theorem timesOf_append (first second : List Trial) (key : GroupKey) :
    timesOf (first ++ second) key = timesOf first key ++ timesOf second key := by
  rw [timesOf, List.filter_append, List.map_append]
  rfl

theorem timesOf_eq_nil {trials : List Trial} {key : GroupKey}
    (h : ∀ trial ∈ trials, trial.key ≠ key) : timesOf trials key = [] := by
  have hnone : trials.filter (fun trial => trial.key = key) = [] := by
    rw [List.filter_eq_nil_iff]
    exact fun trial htrial heq => h trial htrial (of_decide_eq_true heq)
  rw [timesOf, hnone, List.map_nil]

theorem timesOf_eq_map {trials : List Trial} {key : GroupKey}
    (h : ∀ trial ∈ trials, trial.key = key) : timesOf trials key = trials.map (·.time) := by
  have hall : trials.filter (fun trial => trial.key = key) = trials := by
    rw [List.filter_eq_self]
    exact fun trial htrial => decide_eq_true (h trial htrial)
  rw [timesOf, hall]

/-- Where no key is repeated, a group has one time. -/
theorem timesOf_of_mem {trials : List Trial} (hkeys : (trials.map Trial.key).Nodup)
    {trial : Trial} (htrial : trial ∈ trials) : timesOf trials trial.key = [trial.time] := by
  induction trials with
  | nil => exact absurd htrial List.not_mem_nil
  | cons first rest ih =>
    rw [List.map_cons, List.nodup_cons] at hkeys
    rw [← List.singleton_append, timesOf_append]
    rcases List.mem_cons.mp htrial with rfl | hrest
    · have hothers : timesOf rest trial.key = [] := by
        refine timesOf_eq_nil fun other hother heq => hkeys.1 ?_
        rw [← heq]
        exact List.mem_map_of_mem hother
      rw [timesOf_eq_map (by simp), hothers]
      rfl
    · have hne : first.key ≠ trial.key := by
        intro heq
        rw [heq] at hkeys
        exact hkeys.1 (List.mem_map_of_mem hrest)
      rw [timesOf_eq_nil (by simpa using hne), ih hkeys.2 hrest, List.nil_append]

/-- A group holds the times of the trials with its key, in order. -/
theorem lookup_ofTrials (trials : List Trial) (key : GroupKey) :
    (ofTrials trials).lookup key =
      if key ∈ trials.map Trial.key then some (timesOf trials key) else none := by
  induction trials using List.reverseRecOn with
  | nil => rfl
  | append_singleton trials trial ih =>
    rw [ofTrials_append_singleton, timesOf_append]
    by_cases h : trial.key = key
    · subst h
      have hbefore : ((ofTrials trials).lookup trial.key).getD [] = timesOf trials trial.key := by
        rw [ih]
        split
        · rfl
        · next hkey =>
          refine (timesOf_eq_nil ?_).symm
          exact fun t ht heq => hkey (List.mem_map.mpr ⟨t, ht, heq⟩)
      have hlast : timesOf [trial] trial.key = [trial.time] := timesOf_eq_map (by simp)
      rw [lookup_add_self trial.key trial.time (sorted_ofTrials trials), hbefore, hlast,
        if_pos (by simp)]
    · have hkey : key ∈ (trials ++ [trial]).map Trial.key ↔ key ∈ trials.map Trial.key := by
        rw [List.map_append, List.mem_append, List.map_singleton, List.mem_singleton]
        exact or_iff_left fun heq => h heq.symm
      have hlast : timesOf [trial] key = [] := timesOf_eq_nil (by simpa using h)
      rw [lookup_add_of_ne (fun heq => h heq.symm), ih, hlast, List.append_nil]
      simp only [hkey]

end Groups
end TimeTrials
