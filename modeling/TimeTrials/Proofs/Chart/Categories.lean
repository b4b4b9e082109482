import TimeTrials.Proofs.Chart.Pictures
import TimeTrials.Proofs.FirstOccurrences
import TimeTrials.Proofs.Partition

/-!
# The categories of the bar chart

Excluded benchmarks are taken out of the trials before anything else, and the chart is made of what
remains.  So two lists of trials that differ in excluded trials only have the same chart, wherever the
excluded trials stand (`SameRemaining`).

Categories and languages are found independently of each other, both by first occurrence, and a bar is
looked up for every pair.  A pair has a bar if a trial remains that has both.  No language is without a bar
and no category is, because each of them has been found on a trial, and this trial has the other one too.

* `Bars.sameRemaining_iff`: lists that differ in excluded trials only.
* `Bars.forall₂_isBarOf`, `Bars.exists_bar_of_series`, `Bars.exists_bar_of_category`: the bars.
* `bars_show_remaining_trials`: all of it, with the lines of the chart, for charts of trials.
-/

namespace TimeTrials.Chart

open Number (Binary64)

namespace Bars

/-! ## Exclusion -/

/-- A trial of a benchmark that is left out of the chart. -/
def IsExcluded (settings : Settings) (trial : Trial) : Prop :=
  ∃ name ∈ settings.excluded, trial.param = .benchmark name

instance (settings : Settings) : DecidablePred (IsExcluded settings) := fun trial =>
  inferInstanceAs (Decidable (∃ name ∈ settings.excluded, trial.param = .benchmark name))

/-- The trials without those of excluded benchmarks. -/
def remaining (settings : Settings) (trials : List Trial) : List Trial :=
  trials.filter fun trial => ¬ IsExcluded settings trial

/-- Two lists of trials that differ in excluded trials only: each may have some of its own anywhere. -/
inductive SameRemaining (settings : Settings) : List Trial → List Trial → Prop
  | nil : SameRemaining settings [] []
  | both (trial : Trial) {trials trials' : List Trial} (h : SameRemaining settings trials trials') :
      SameRemaining settings (trial :: trials) (trial :: trials')
  | left {trial : Trial} (hexcluded : IsExcluded settings trial) {trials trials' : List Trial}
      (h : SameRemaining settings trials trials') : SameRemaining settings (trial :: trials) trials'
  | right {trial : Trial} (hexcluded : IsExcluded settings trial) {trials trials' : List Trial}
      (h : SameRemaining settings trials trials') : SameRemaining settings trials (trial :: trials')

section

variable {settings : Settings} {trials trials' : List Trial}

theorem keeps_iff {trial : Trial} : keeps settings trial = true ↔ ¬ IsExcluded settings trial := by
  obtain ⟨lang, param, time⟩ := trial
  cases param with
  | size n => exact iff_of_true rfl fun ⟨_, _, h⟩ => by cases h
  | benchmark name =>
    show (!settings.excluded.contains name) = true ↔ _
    rw [Bool.not_eq_true', List.contains_eq_mem, decide_eq_false_iff_not]
    refine not_congr ⟨fun h => ⟨name, h, rfl⟩, ?_⟩
    rintro ⟨name', h, heq⟩
    rwa [Param.benchmark.inj heq]

theorem filter_keeps (settings : Settings) (trials : List Trial) :
    trials.filter (keeps settings) = remaining settings trials := by
  refine List.filter_congr fun trial _ => ?_
  rw [Bool.eq_iff_iff, keeps_iff, decide_eq_true_iff]

theorem mem_remaining_iff {trial : Trial} :
    trial ∈ remaining settings trials ↔ trial ∈ trials ∧ ¬ IsExcluded settings trial := by
  rw [remaining, List.mem_filter, decide_eq_true_iff]

theorem remaining_cons_of_excluded {trial : Trial} (h : IsExcluded settings trial) :
    remaining settings (trial :: trials) = remaining settings trials :=
  List.filter_cons_of_neg (by simpa using h)

theorem remaining_cons_of_kept {trial : Trial} (h : ¬ IsExcluded settings trial) :
    remaining settings (trial :: trials) = trial :: remaining settings trials :=
  List.filter_cons_of_pos (decide_eq_true h)

/-- Excluded trials do not count. -/
theorem SameRemaining.remaining_eq (h : SameRemaining settings trials trials') :
    remaining settings trials = remaining settings trials' := by
  induction h with
  | nil => rfl
  | both trial h ih =>
    by_cases hexcluded : IsExcluded settings trial
    · rw [remaining_cons_of_excluded hexcluded, remaining_cons_of_excluded hexcluded, ih]
    · rw [remaining_cons_of_kept hexcluded, remaining_cons_of_kept hexcluded, ih]
  | left hexcluded h ih => rw [remaining_cons_of_excluded hexcluded, ih]
  | right hexcluded h ih => rw [remaining_cons_of_excluded hexcluded, ih]

theorem sameRemaining_nil (h : remaining settings trials = []) :
    SameRemaining settings [] trials := by
  induction trials with
  | nil => exact .nil
  | cons trial trials ih =>
    by_cases hexcluded : IsExcluded settings trial
    · rw [remaining_cons_of_excluded hexcluded] at h
      exact .right hexcluded (ih h)
    · rw [remaining_cons_of_kept hexcluded] at h
      cases h

/-- A trial that remains is found in the other list behind trials that are excluded. -/
theorem sameRemaining_cons {trial : Trial}
    (hrest : ∀ others, remaining settings trials = remaining settings others →
      SameRemaining settings trials others)
    (h : trial :: remaining settings trials = remaining settings trials') :
    SameRemaining settings (trial :: trials) trials' := by
  induction trials' with
  | nil => cases h
  | cons trial' trials' ih =>
    by_cases hexcluded : IsExcluded settings trial'
    · refine .right hexcluded (ih ?_)
      rwa [remaining_cons_of_excluded hexcluded] at h
    · rw [remaining_cons_of_kept hexcluded] at h
      obtain ⟨rfl, htail⟩ := List.cons.inj h
      exact .both trial (hrest trials' htail)

/-- So two lists are related just when the same trials remain of them. -/
theorem sameRemaining_iff :
    SameRemaining settings trials trials' ↔ remaining settings trials = remaining settings trials' := by
  refine ⟨SameRemaining.remaining_eq, fun h => ?_⟩
  induction trials generalizing trials' with
  | nil => exact sameRemaining_nil h.symm
  | cons trial trials ih =>
    by_cases hexcluded : IsExcluded settings trial
    · refine .left hexcluded (ih ?_)
      rwa [remaining_cons_of_excluded hexcluded] at h
    · rw [remaining_cons_of_kept hexcluded] at h
      exact sameRemaining_cons (fun others => ih) h

/-- A chart is made of the trials that remain. -/
theorem ofTrials_congr (h : remaining settings trials = remaining settings trials') :
    ofTrials settings trials = ofTrials settings trials' := by
  unfold ofTrials
  rw [filter_keeps, filter_keeps, h]

/-! ## Bars -/

/-- What a chart of trials has for a language in a category: the mean of the times that the trials have for
both, in their order, and nothing if there is no such trial. -/
structure IsBarOf (trials : List Trial) (lang : String) (param : Param) (value : Option Binary64) :
    Prop where
  isSome_iff : value.isSome = true ↔ ∃ trial ∈ trials, trial.lang = lang ∧ trial.param = param
  eq_mean : ∀ mean, value = some mean →
    mean = Aggregate.meanOf (Groups.timesOf trials ⟨lang, param⟩)

theorem isBarOf_get? (trials : List Trial) (lang : String) (param : Param) :
    IsBarOf trials lang param (((Statistics.ofTrials trials).get? lang param).map (·.mean)) := by
  have hkey : Groups.timesOf trials ⟨lang, param⟩ ≠ [] ↔
      ∃ trial ∈ trials, trial.lang = lang ∧ trial.param = param := by
    simp only [Groups.timesOf_ne_nil_iff, List.mem_map, Trial.key, GroupKey.mk.injEq]
  rw [Statistics.get?_eq]
  constructor
  · rw [← hkey, Option.isSome_map]
    constructor
    · intro hsome
      obtain ⟨aggregate, h⟩ := Option.isSome_iff_exists.mp hsome
      exact (Aggregate.ofSamples?_eq_some_iff.mp h).1
    · intro hne
      rw [Aggregate.ofSamples?_eq hne]
      rfl
  · intro mean hmean
    obtain ⟨aggregate, h, rfl⟩ := Option.map_eq_some_iff.mp hmean
    obtain ⟨-, rfl⟩ := Aggregate.ofSamples?_eq_some_iff.mp h
    rfl

theorem categories_eq (settings : Settings) (trials : List Trial) :
    (ofTrials settings trials).categories = ((remaining settings trials).map (·.param)).eraseDups := by
  rw [← filter_keeps]
  rfl

theorem map_lang_eq (settings : Settings) (trials : List Trial) :
    (ofTrials settings trials).series.map (·.lang) =
      ((remaining settings trials).map (·.lang)).eraseDups := by
  rw [map_lang_series, filter_keeps]

theorem mem_categories_iff {param : Param} : param ∈ (ofTrials settings trials).categories ↔
    ∃ trial ∈ remaining settings trials, trial.param = param := by
  rw [categories_eq, List.mem_eraseDups, List.mem_map]

/-- No category is an excluded benchmark. -/
theorem notMem_categories {name : String} (h : name ∈ settings.excluded) :
    .benchmark name ∉ (ofTrials settings trials).categories := by
  intro hmem
  obtain ⟨trial, htrial, hparam⟩ := mem_categories_iff.mp hmem
  exact (mem_remaining_iff.mp htrial).2 ⟨name, h, hparam⟩

section

variable {series : BarSeries} (hseries : series ∈ (ofTrials settings trials).series)

include hseries

/-- A language has one entry for each category. -/
theorem forall₂_isBarOf : List.Forall₂ (IsBarOf (remaining settings trials) series.lang)
    (ofTrials settings trials).categories series.values := by
  rw [values_eq hseries, filter_keeps, List.forall₂_map_right_iff, List.forall₂_same]
  exact fun param _ => isBarOf_get? _ _ param

theorem isBarOf_of_getElem? {category : Nat} {param : Param}
    (hparam : (ofTrials settings trials).categories[category]? = some param) :
    ∃ value, series.values[category]? = some value ∧
      IsBarOf (remaining settings trials) series.lang param value := by
  refine ⟨_, ?_, isBarOf_get? _ _ param⟩
  rw [values_eq hseries, filter_keeps, List.getElem?_map, hparam]
  rfl

/-- No language is without a bar: it has been found on a trial. -/
theorem exists_bar_of_series : ∃ value ∈ series.values, value.isSome = true := by
  have hlang : series.lang ∈ (ofTrials settings trials).series.map (·.lang) :=
    List.mem_map_of_mem hseries
  rw [map_lang_eq, List.mem_eraseDups] at hlang
  obtain ⟨trial, htrial, hlang⟩ := List.mem_map.mp hlang
  obtain ⟨category, hcategory⟩ := List.mem_iff_getElem?.mp (mem_categories_iff.mpr ⟨trial, htrial, rfl⟩)
  obtain ⟨value, hvalue, hbar⟩ := isBarOf_of_getElem? hseries hcategory
  exact ⟨value, List.mem_of_getElem? hvalue, hbar.isSome_iff.mpr ⟨trial, htrial, hlang, rfl⟩⟩

end

/-- No category is without a bar: it has been found on a trial. -/
theorem exists_bar_of_category {category : Nat}
    (hcategory : category < (ofTrials settings trials).categories.length) :
    ∃ series ∈ (ofTrials settings trials).series, ∃ mean,
      series.values[category]? = some (some mean) := by
  have hparam := List.getElem?_eq_getElem hcategory
  obtain ⟨trial, htrial, htrial'⟩ := mem_categories_iff.mp (List.mem_of_getElem? hparam)
  have hlang : trial.lang ∈ (ofTrials settings trials).series.map (·.lang) := by
    rw [map_lang_eq, List.mem_eraseDups]
    exact List.mem_map_of_mem htrial
  obtain ⟨series, hseries, hlang⟩ := List.mem_map.mp hlang
  obtain ⟨value, hvalue, hbar⟩ := isBarOf_of_getElem? hseries hparam
  obtain ⟨mean, rfl⟩ := Option.isSome_iff_exists.mp
    (hbar.isSome_iff.mpr ⟨trial, htrial, hlang.symm, htrial'⟩)
  exact ⟨series, hseries, mean, hvalue⟩

end

end Bars

open Bars (remaining SameRemaining IsBarOf)

/-- **The bar chart shows the trials that remain**, and excluded trials change nothing in it.  Its
categories and its languages are those of the trials that remain, by first occurrence, and no category is
excluded.  A language has one entry for each category, which is the mean of the times that remain for both,
or nothing if there are none; and neither a language nor a category is without a bar.  When its columns fit,
the chart is laid out with the rows of one category after those of another. -/
theorem bars_show_remaining_trials (settings : Settings) (trials : List Trial) :
    let chart := Bars.ofTrials settings trials
    let kept := remaining settings trials
    (∀ trials', SameRemaining settings trials trials' → Bars.ofTrials settings trials' = chart) ∧
    (IsByFirstOccurrence (kept.map (·.param)) chart.categories ∧
      IsByFirstOccurrence (kept.map (·.lang)) (chart.series.map (·.lang)) ∧
      ∀ name ∈ settings.excluded, .benchmark name ∉ chart.categories) ∧
    ((∀ series ∈ chart.series, List.Forall₂ (IsBarOf kept series.lang) chart.categories series.values ∧
        ∃ value ∈ series.values, value.isSome = true) ∧
      ∀ category < chart.categories.length, ∃ series ∈ chart.series, ∃ mean,
        series.values[category]? = some (some mean)) ∧
    ∀ colored text, chart.render colored = .ok text ↔
      chart.layout.Fits ∧ text = renderLines colored chart.picture := by
  intro chart kept
  refine ⟨fun trials' h => ?_, ⟨?_, ?_, fun name => Bars.notMem_categories⟩,
    ⟨fun series hseries => ⟨?_, ?_⟩, fun category => Bars.exists_bar_of_category⟩, fun colored text => ?_⟩
  · exact (Bars.ofTrials_congr (Bars.sameRemaining_iff.mp h)).symm
  · show IsByFirstOccurrence _ (Bars.ofTrials settings trials).categories
    rw [Bars.categories_eq]
    exact isByFirstOccurrence_eraseDups _
  · show IsByFirstOccurrence _ ((Bars.ofTrials settings trials).series.map (·.lang))
    rw [Bars.map_lang_eq]
    exact isByFirstOccurrence_eraseDups _
  · exact Bars.forall₂_isBarOf hseries
  · exact Bars.exists_bar_of_series hseries
  · exact Bars.render_eq_ok_iff (Bars.isSound_ofTrials settings trials)

/-- Two languages on a benchmark each, and two that only ran a benchmark that is excluded. -/
theorem bars_show_remaining_trials_interleaved :
    let trials : List Trial := [⟨"c", .benchmark "trees", .zero⟩, ⟨"b", .benchmark "zoo", .ofNat 4⟩,
      ⟨"a", .benchmark "trees", .zero⟩, ⟨"a", .benchmark "equality", .ofNat 1⟩,
      ⟨"b", .benchmark "zoo", .ofNat 2⟩]
    let trials' : List Trial := [⟨"b", .benchmark "zoo", .ofNat 4⟩,
      ⟨"a", .benchmark "equality", .ofNat 1⟩, ⟨"d", .benchmark "trees", .nan⟩,
      ⟨"b", .benchmark "zoo", .ofNat 2⟩]
    let chart := Bars.ofTrials Settings.default trials
    Bars.ofTrials Settings.default trials' = chart ∧
    chart.categories = [.benchmark "zoo", .benchmark "equality"] ∧
    (chart.series.map fun series => (series.lang, series.values)) =
      [("b", [some (.ofNat 3), none]), ("a", [none, some (.ofNat 1)])] ∧
    IsByFirstOccurrence ["b", "a", "b"] ["b", "a"] ∧
    chart.render false = .ok (renderLines false chart.picture) := by
  intro trials trials' chart
  obtain ⟨hexcluded, ⟨-, hlangs, -⟩, -, hrender⟩ := bars_show_remaining_trials Settings.default trials
  have htrees : ∀ lang time, Bars.IsExcluded Settings.default ⟨lang, .benchmark "trees", time⟩ :=
    fun lang time => ⟨"trees", by decide, rfl⟩
  refine ⟨hexcluded trials' ?_, by decide +kernel, by decide +kernel, ?_, (hrender _ _).mpr ⟨?_, rfl⟩⟩
  · exact .left (htrees _ _) (.both _ (.left (htrees _ _) (.both _ (.right (htrees _ _) (.both _ .nil)))))
  · have hkept : (remaining Settings.default trials).map (·.lang) = ["b", "a", "b"] := by decide +kernel
    have hseries : chart.series.map (·.lang) = ["b", "a"] := by decide +kernel
    rwa [hkept, hseries] at hlangs
  · exact ⟨by decide +kernel, by decide +kernel⟩

end TimeTrials.Chart
