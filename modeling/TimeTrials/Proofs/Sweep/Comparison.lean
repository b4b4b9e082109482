import Mathlib.Data.List.Forall2
import TimeTrials.Proofs.Chart.Rendering
import TimeTrials.Proofs.FirstOccurrences
import TimeTrials.Proofs.Sweep.Pipeline

/-!
# From a sweep to bars

The plan of the benchmarks sweep is made of *rounds*: a round runs every language once on a benchmark,
and a benchmark that is listed twice has two rounds.  So a group takes one time from each round of its
benchmark and none from the others.

The bar chart of what was measured has the benchmarks by first occurrence, because the rounds come in
the order of the benchmarks, and all languages in their order, because already the first round that is
shown has all of them.  Exclusion is by benchmark: it takes whole rounds away and nothing else
(`filter_roundKeys`).

* `forall₂_timesOf`: the times of a group, and the exchanges they come from.
* `eraseDups_params`, `eraseDups_langs`: the benchmarks and the languages of some rounds.
* `IsMeanOfRounds`, `IsMeanOfRounds.eq_mean`: what is drawn, and that the outputs tell what it is.
* `bars_of_sweepBenchmarks`: the bars of a benchmarks sweep, from the settings and the outputs.
-/

namespace TimeTrials

open Dataset (Writer)
open Number (Binary64)
open Chart (Bars BarSeries)

namespace Sweep

variable {σ : Type}

/-! ## Rounds -/

/-- The entries of one benchmark. -/
def round (settings : Settings) (benchmark : String) : List Entry :=
  settings.languages.map (benchmarkEntry settings benchmark)

theorem length_round (settings : Settings) (benchmark : String) :
    (round settings benchmark).length = settings.languages.length :=
  List.length_map _

theorem benchmarksPlan_eq (settings : Settings) :
    benchmarksPlan settings = settings.benchmarks.flatMap (round settings) := rfl

/-- The groups of one benchmark. -/
def roundKeys (settings : Settings) (benchmark : String) : List GroupKey :=
  settings.languages.map fun language => ⟨language.name, .benchmark benchmark⟩

theorem map_key_round (settings : Settings) (benchmark : String) :
    (round settings benchmark).map Entry.key = roundKeys settings benchmark :=
  List.map_map

theorem map_lang_roundKeys (settings : Settings) (benchmark : String) :
    (roundKeys settings benchmark).map (·.lang) = settings.languages.map (·.name) :=
  List.map_map

theorem nodup_roundKeys {settings : Settings}
    (hnames : (settings.languages.map (·.name)).Nodup) (benchmark : String) :
    (roundKeys settings benchmark).Nodup := by
  rw [← map_lang_roundKeys settings benchmark] at hnames
  exact hnames.of_map _

theorem param_of_mem_roundKeys {settings : Settings} {benchmark : String} {key : GroupKey}
    (h : key ∈ roundKeys settings benchmark) : key.param = .benchmark benchmark := by
  obtain ⟨language, -, rfl⟩ := List.mem_map.mp h
  rfl

/-- The keys of what was measured are those of the entries. -/
theorem map_key_trials {kind : Kind} (ms : List (Measurement kind)) :
    (ms.map Measurement.trial).map Trial.key = (ms.map (·.entry)).map Entry.key := by
  rw [List.map_map, List.map_map]
  rfl

/-! ## The times of a round -/

/-- The exchange with this number is one of the language on the benchmark, and gave this time. -/
def Gave (settings : Settings) (log : List Exchange) (language : Language) (benchmark : String)
    (number : ℕ) (time : Binary64) : Prop :=
  ∃ output, log[number]? =
      some ⟨⟨language, settings.benchmarkPath benchmark, none⟩, .ok output⟩ ∧
    Timing.read .lastLine output = .ok time

section

variable {settings : Settings} {benchmark : String} {ms : List (Measurement .benchmarks)}

/-- A round has nothing for other benchmarks. -/
theorem timesOf_round_of_ne (h : ms.map (·.entry) = round settings benchmark) {name : String}
    (hne : benchmark ≠ name) (lang : String) :
    Groups.timesOf (ms.map Measurement.trial) ⟨lang, .benchmark name⟩ = [] := by
  refine Groups.timesOf_eq_nil fun trial htrial heq => hne ?_
  have hkey : trial.key ∈ roundKeys settings benchmark := by
    rw [← map_key_round, ← h, ← map_key_trials]
    exact List.mem_map_of_mem htrial
  rw [heq] at hkey
  exact (Param.benchmark.inj (param_of_mem_roundKeys hkey)).symm

/-- A round has one time for each language. -/
theorem exists_timesOf_round (h : ms.map (·.entry) = round settings benchmark)
    (hnames : (settings.languages.map (·.name)).Nodup) {i : ℕ}
    (hi : i < settings.languages.length) :
    ∃ time, Gave settings (ms.map Measurement.exchange) settings.languages[i] benchmark i time ∧
      Groups.timesOf (ms.map Measurement.trial) ⟨settings.languages[i].name, .benchmark benchmark⟩ =
        [time] := by
  have hlt : i < ms.length := by
    rwa [← List.length_map (·.entry), h, length_round]
  have hentry : ms[i].entry = benchmarkEntry settings benchmark settings.languages[i] := by
    have hget : (ms.map (·.entry))[i]? = (round settings benchmark)[i]? := by rw [h]
    rw [List.getElem?_map, List.getElem?_eq_getElem hlt, round, List.getElem?_map,
      List.getElem?_eq_getElem hi] at hget
    exact Option.some.inj hget
  have hread := ms[i].read_output
  have hkey : ms[i].trial.key = ⟨settings.languages[i].name, .benchmark benchmark⟩ := by
    rw [Measurement.key_trial, hentry]
    rfl
  have hkeys : ((ms.map Measurement.trial).map Trial.key).Nodup := by
    rw [map_key_trials, h, map_key_round]
    exact nodup_roundKeys hnames benchmark
  rw [hentry] at hread
  refine ⟨ms[i].time, ⟨ms[i].output, ?_, hread⟩, ?_⟩
  · rw [List.getElem?_map, List.getElem?_eq_getElem hlt, Option.map_some, Measurement.exchange,
      hentry]
    rfl
  · rw [← hkey]
    exact Groups.timesOf_of_mem hkeys (List.mem_map_of_mem (List.getElem_mem hlt))

end

section

variable {settings : Settings} {log : List Exchange} {language : Language} {benchmark : String}
  {number : ℕ} {time : Binary64}

/-- An exchange gives one time. -/
theorem Gave.unique {time' : Binary64} (h : Gave settings log language benchmark number time)
    (h' : Gave settings log language benchmark number time') : time = time' := by
  obtain ⟨output, hplace, hread⟩ := h
  obtain ⟨output', hplace', hread'⟩ := h'
  rw [hplace] at hplace'
  cases hplace'
  exact Except.ok.inj (hread.symm.trans hread')

theorem Gave.append (h : Gave settings log language benchmark number time) (more : List Exchange) :
    Gave settings (log ++ more) language benchmark number time := by
  obtain ⟨output, hplace, hread⟩ := h
  refine ⟨output, ?_, hread⟩
  rwa [List.getElem?_append_left (List.getElem?_eq_some_iff.mp hplace).1]

theorem Gave.shift (h : Gave settings log language benchmark number time)
    (before : List Exchange) :
    Gave settings (before ++ log) language benchmark (before.length + number) time := by
  obtain ⟨output, hplace, hread⟩ := h
  refine ⟨output, ?_, hread⟩
  rwa [List.getElem?_append_right (Nat.le_add_right _ _), Nat.add_sub_cancel_left]

end

/-- **The times of a group are those of the rounds of its benchmark.**  The round at a place of the list
of benchmarks has its exchanges from number `place * languages.length` on. -/
theorem forall₂_timesOf {settings : Settings} (hnames : (settings.languages.map (·.name)).Nodup)
    {benchmarks : List String} {done : List (Measurement .benchmarks)}
    (hdone : done.map (·.entry) = benchmarks.flatMap (round settings)) {i : ℕ}
    (hi : i < settings.languages.length) (name : String) :
    List.Forall₂
      (fun place time => Gave settings (done.map Measurement.exchange) settings.languages[i] name
        (place * settings.languages.length + i) time)
      (benchmarks.idxsOf name)
      (Groups.timesOf (done.map Measurement.trial)
        ⟨settings.languages[i].name, .benchmark name⟩) := by
  induction benchmarks using List.reverseRecOn generalizing done with
  | nil =>
    rw [List.flatMap_nil, List.map_eq_nil_iff] at hdone
    rw [hdone]
    exact List.Forall₂.nil
  | append_singleton benchmarks benchmark ih =>
    rw [List.flatMap_append, List.flatMap_singleton] at hdone
    obtain ⟨before, mine, rfl, hbefore, hmine⟩ := List.map_eq_append_iff.mp hdone
    rw [List.map_append, List.map_append, Groups.timesOf_append, List.idxsOf_append, Nat.zero_add]
    refine List.rel_append ((ih hbefore).imp fun place time h => h.append _) ?_
    by_cases heq : benchmark = name
    · subst heq
      obtain ⟨time, hgave, htimes⟩ := exists_timesOf_round hmine hnames hi
      have hlength : (before.map Measurement.exchange).length =
          benchmarks.length * settings.languages.length := by
        rw [List.length_map, ← List.length_map (·.entry), hbefore,
          length_flatMap_of_length (length_round settings)]
      rw [htimes, List.idxsOf_cons, if_pos (beq_self_eq_true benchmark), List.idxsOf_nil]
      refine List.Forall₂.cons ?_ List.Forall₂.nil
      rw [← hlength]
      exact hgave.shift _
    · rw [timesOf_round_of_ne hmine heq, List.idxsOf_cons, if_neg (by simpa using heq),
        List.idxsOf_nil]
      exact List.Forall₂.nil

/-! ## The rounds that are shown -/

/-- Whether a benchmark takes part in the chart. -/
def isShown (settings : Settings) (name : String) : Bool := !settings.excluded.contains name

theorem isShown_iff {settings : Settings} {name : String} :
    isShown settings name = true ↔ name ∉ settings.excluded := by
  rw [isShown, Bool.not_eq_true', List.contains_eq_mem, decide_eq_false_iff_not]

/-- Whether a group takes part in the chart. -/
def keepsKey (settings : Settings) (key : GroupKey) : Bool :=
  Bars.keeps settings ⟨key.lang, key.param, .zero⟩

/-- Trials are kept by group. -/
theorem map_key_kept (settings : Settings) (trials : List Trial) :
    (trials.filter (Bars.keeps settings)).map Trial.key =
      (trials.map Trial.key).filter (keepsKey settings) := by
  have hkeeps : Bars.keeps settings = keepsKey settings ∘ Trial.key := rfl
  rw [hkeeps, List.filter_map]

/-- Rounds are kept as a whole. -/
theorem filter_roundKeys (settings : Settings) (benchmarks : List String) :
    (benchmarks.flatMap (roundKeys settings)).filter (keepsKey settings) =
      (benchmarks.filter (isShown settings)).flatMap (roundKeys settings) := by
  induction benchmarks with
  | nil => rfl
  | cons name rest ih =>
    have hkeeps : ∀ key ∈ roundKeys settings name, keepsKey settings key = isShown settings name := by
      intro key hkey
      rw [keepsKey, param_of_mem_roundKeys hkey]
      rfl
    rw [List.flatMap_cons, List.filter_append, ih, List.filter_congr hkeeps]
    cases hshown : isShown settings name with
    | true =>
      rw [List.filter_true, List.filter_cons_of_pos hshown, List.flatMap_cons]
    | false =>
      rw [List.filter_false, List.filter_cons_of_neg (by simp [hshown]),
        List.nil_append]

/-- The benchmarks of rounds, as soon as there is a language to run. -/
theorem eraseDups_params {settings : Settings} (hlanguages : settings.languages ≠ [])
    (benchmarks : List String) :
    ((benchmarks.flatMap (roundKeys settings)).map (·.param)).eraseDups =
      benchmarks.eraseDups.map .benchmark := by
  rw [List.map_flatMap, ← eraseDups_map fun _ _ => Param.benchmark.inj]
  refine eraseDups_flatMap_of_const ?_ ?_ benchmarks
  · intro name
    simpa [roundKeys] using hlanguages
  · intro name param hparam
    obtain ⟨key, hkey, rfl⟩ := List.mem_map.mp hparam
    exact param_of_mem_roundKeys hkey

/-- The languages of rounds, as soon as there is a round. -/
theorem eraseDups_langs {settings : Settings}
    (hnames : (settings.languages.map (·.name)).Nodup) {benchmarks : List String}
    (hne : benchmarks ≠ []) :
    ((benchmarks.flatMap (roundKeys settings)).map (·.lang)).eraseDups =
      settings.languages.map (·.name) := by
  obtain ⟨first, rest, rfl⟩ := List.exists_cons_of_ne_nil hne
  have hrest : (rest.flatMap (roundKeys settings)).map (·.lang) ⊆
      settings.languages.map (·.name) := by
    intro lang hlang
    obtain ⟨key, hkey, rfl⟩ := List.mem_map.mp hlang
    obtain ⟨name, -, hmem⟩ := List.mem_flatMap.mp hkey
    rw [← map_lang_roundKeys settings name]
    exact List.mem_map_of_mem hmem
  rw [List.flatMap_cons, List.map_append, map_lang_roundKeys, eraseDups_append_of_subset hrest,
    eraseDups_eq_self hnames]

/-! ## The chart of a sweep -/

/-- What is drawn for a language on a benchmark: the mean of as many times as the benchmark is listed,
from the exchanges that this language has in the benchmark's rounds.  They are added from the left, each sum
rounded, and the last sum is divided by their number. -/
def IsMeanOfRounds (settings : Settings) (log : List Exchange) (index : ℕ) (language : Language)
    (name : String) (value : Option Binary64) : Prop :=
  ∃ times : List Binary64,
    value = some ((times.foldl Binary64.add .negativeZero).div (.ofNat times.length)) ∧
    times.length = settings.benchmarks.count name ∧
    List.Forall₂ (fun place time =>
        Gave settings log language name (place * settings.languages.length + index) time)
      (settings.benchmarks.idxsOf name) times

/-- What is drawn is told by the outputs alone. -/
theorem IsMeanOfRounds.eq_mean {settings : Settings} {log : List Exchange} {index : ℕ}
    {language : Language} {name : String} {value : Option Binary64} {times : List Binary64}
    (h : IsMeanOfRounds settings log index language name value)
    (htimes : List.Forall₂ (fun place time =>
        Gave settings log language name (place * settings.languages.length + index) time)
      (settings.benchmarks.idxsOf name) times) :
    value = some ((times.foldl Binary64.add .negativeZero).div (.ofNat times.length)) := by
  obtain ⟨times', rfl, -, htimes'⟩ := h
  have hunique : times' = times :=
    List.right_unique_forall₂' (fun _ _ _ hgave hgave' => hgave.unique hgave') htimes' htimes
  rw [hunique]

section

variable {settings : Settings} {done : List (Measurement .benchmarks)}

theorem map_key_of_plan (hplan : benchmarksPlan settings = done.map (·.entry)) :
    (done.map Measurement.trial).map Trial.key =
      settings.benchmarks.flatMap (roundKeys settings) := by
  rw [map_key_trials, ← hplan, benchmarksPlan_eq, List.map_flatMap]
  exact List.flatMap_congr fun name _ => map_key_round settings name

/-- The keys of what is shown. -/
theorem map_key_kept_of_plan (hplan : benchmarksPlan settings = done.map (·.entry)) :
    ((done.map Measurement.trial).filter (Bars.keeps settings)).map Trial.key =
      (settings.benchmarks.filter (isShown settings)).flatMap (roundKeys settings) := by
  rw [map_key_kept, map_key_of_plan hplan, filter_roundKeys]

theorem categories_of_plan (hlanguages : settings.languages ≠ [])
    (hplan : benchmarksPlan settings = done.map (·.entry)) :
    (Bars.ofTrials settings (done.map Measurement.trial)).categories =
      (settings.benchmarks.eraseDups.filter (isShown settings)).map .benchmark := by
  have hparams := eraseDups_params hlanguages (settings.benchmarks.filter (isShown settings))
  rw [← map_key_kept_of_plan hplan, List.map_map, eraseDups_filter] at hparams
  exact hparams

theorem langs_of_plan (hnames : (settings.languages.map (·.name)).Nodup)
    (hplan : benchmarksPlan settings = done.map (·.entry))
    (hne : settings.benchmarks.filter (isShown settings) ≠ []) :
    (Bars.ofTrials settings (done.map Measurement.trial)).series.map (·.lang) =
      settings.languages.map (·.name) := by
  have hlangs := eraseDups_langs hnames hne
  rw [← map_key_kept_of_plan hplan, List.map_map] at hlangs
  rw [Bars.map_lang_series]
  exact hlangs

/-- The value of a language for a benchmark that is shown. -/
theorem isMeanOfRounds_of_plan (hnames : (settings.languages.map (·.name)).Nodup)
    (hplan : benchmarksPlan settings = done.map (·.entry)) {i : ℕ}
    (hi : i < settings.languages.length) {name : String} (hname : name ∈ settings.benchmarks)
    (hshown : isShown settings name = true) :
    IsMeanOfRounds settings (done.map Measurement.exchange) i settings.languages[i] name
      (((Statistics.ofTrials ((done.map Measurement.trial).filter (Bars.keeps settings))).get?
        settings.languages[i].name (.benchmark name)).map (·.mean)) := by
  have hkey : ⟨settings.languages[i].name, .benchmark name⟩ ∈
      ((done.map Measurement.trial).filter (Bars.keeps settings)).map Trial.key := by
    rw [map_key_kept_of_plan hplan]
    refine List.mem_flatMap.mpr ⟨name, List.mem_filter.mpr ⟨hname, hshown⟩, ?_⟩
    exact List.mem_map_of_mem (List.getElem_mem hi)
  have hget := Statistics.get?_eq_some_iff.mpr
    ⟨hkey, Aggregate.ofSamples?_eq (Groups.timesOf_ne_nil hkey)⟩
  have htimes := forall₂_timesOf hnames hplan.symm hi name
  rw [hget, Groups.timesOf_filter (Bars.keeps_congr settings) hkey]
  refine ⟨_, rfl, ?_, htimes⟩
  rw [← htimes.length_eq, List.length_idxsOf]

/-- The values of a language, one for each benchmark that is shown. -/
theorem exists_series_of_plan (hnames : (settings.languages.map (·.name)).Nodup)
    (hplan : benchmarksPlan settings = done.map (·.entry))
    (hcategories : (Bars.ofTrials settings (done.map Measurement.trial)).categories =
      (settings.benchmarks.eraseDups.filter (isShown settings)).map .benchmark)
    (hlangs : (Bars.ofTrials settings (done.map Measurement.trial)).series.map (·.lang) =
      settings.languages.map (·.name)) {i : ℕ} (hi : i < settings.languages.length) :
    ∃ series, (Bars.ofTrials settings (done.map Measurement.trial)).series[i]? = some series ∧
      List.Forall₂
        (IsMeanOfRounds settings (done.map Measurement.exchange) i settings.languages[i])
        (settings.benchmarks.eraseDups.filter (isShown settings)) series.values := by
  have hlang : ((Bars.ofTrials settings (done.map Measurement.trial)).series.map (·.lang))[i]? =
      some settings.languages[i].name := by
    rw [hlangs, List.getElem?_map, List.getElem?_eq_getElem hi, Option.map_some]
  rw [List.getElem?_map] at hlang
  obtain ⟨series, hseries, hname⟩ := Option.map_eq_some_iff.mp hlang
  refine ⟨series, hseries, ?_⟩
  rw [Bars.values_eq (List.mem_of_getElem? hseries), hcategories, hname, List.map_map,
    List.forall₂_map_right_iff, List.forall₂_same]
  intro name hmem
  obtain ⟨hbenchmark, hshown⟩ := List.mem_filter.mp hmem
  exact isMeanOfRounds_of_plan hnames hplan hi (List.mem_eraseDups.mp hbenchmark) hshown

end

/-- **From settings and outputs to bars.**  Let a benchmarks sweep with usable settings end well into a
new dataset.  The dataset reads back, and the categories of its bar chart are the benchmarks that are not
excluded, each once, by first occurrence.  If there is one, the series are the languages in their order,
and each language has a value for every category: the mean of its times on that benchmark, of which
there is one for each occurrence of the benchmark in the settings. -/
theorem bars_of_sweepBenchmarks {runner : Runner σ} {settings : Settings} {initial : σ}
    {s' : State σ} (hvalid : settings.validate = .ok ())
    (hsweep : sweepBenchmarks runner settings ⟨initial, Writer.new .benchmarks⟩ = (.ok (), s')) :
    ∃ trials names, Dataset.read .benchmarks s'.writer.sink = .ok trials ∧
      (Bars.ofTrials settings trials).categories = names.map .benchmark ∧
      (∀ name, name ∈ names ↔ name ∈ settings.benchmarks ∧ name ∉ settings.excluded) ∧
      names.Nodup ∧
      names.Pairwise (fun a b => settings.benchmarks.idxOf a < settings.benchmarks.idxOf b) ∧
      (names ≠ [] →
        (Bars.ofTrials settings trials).series.map (·.lang) = settings.languages.map (·.name) ∧
        ∀ (i : ℕ) (hi : i < settings.languages.length), ∃ series,
          (Bars.ofTrials settings trials).series[i]? = some series ∧
          List.Forall₂
            (IsMeanOfRounds settings
              (exchanges runner settings .benchmarks ⟨initial, Writer.new .benchmarks⟩)
              i settings.languages[i])
            names series.values) := by
  have husable := Settings.validate_eq_ok_iff.mp hvalid
  have hbenchmarks :
      sweepOf runner settings .benchmarks ⟨initial, Writer.new .benchmarks⟩ = (.ok (), s') := hsweep
  obtain ⟨done, hplan, hlog, hread⟩ := read_sink_of_sweepOf hbenchmarks
  have hcategories := categories_of_plan husable.languages_ne_nil hplan
  refine ⟨_, _, hread, hcategories, ?members, ?once, ?order, fun hne => ?series⟩
  case members =>
    intro name
    rw [List.mem_filter, List.mem_eraseDups, isShown_iff]
  case once => exact (nodup_eraseDups settings.benchmarks).filter _
  case order => exact (pairwise_idxOf_eraseDups settings.benchmarks).filter _
  case series =>
    have hshown : settings.benchmarks.filter (isShown settings) ≠ [] := by
      intro hnone
      rw [← eraseDups_filter, hnone] at hne
      exact hne rfl
    have hlangs := langs_of_plan husable.nodup_names hplan hshown
    rw [hlog]
    exact ⟨hlangs, fun i hi => exists_series_of_plan husable.nodup_names hplan hcategories hlangs hi⟩

/-- Two languages on three benchmarks, of which one is listed twice and one is excluded: the bar of the
second language is 4, the mean of 2 in the first round and of 6 in the third. -/
theorem bars_of_prepared_outputs :
    let settings : Settings :=
      { Settings.default with benchmarks := ["zoo", "a,b", "zoo"], excluded := ["a,b"] }
    let jlox : Language := ⟨"jlox", ["../../craftinginterpreters/jlox"], some .blue⟩
    let start : State (List (Except LaunchFault String)) :=
      ⟨["1\n0.1\n", "3\n2\n", "3\n0.3\n", "4\n0.4\n", "5\n0.5\n", "3\n6\n"].map .ok,
        Writer.new .benchmarks⟩
    settings.validate = .ok () ∧ (sweepBenchmarks .prepared settings start).1 = .ok () ∧
      ∃ trials series,
        Dataset.read .benchmarks (sweepBenchmarks .prepared settings start).2.writer.sink =
          .ok trials ∧
        (Bars.ofTrials settings trials).categories = [.benchmark "zoo"] ∧
        (Bars.ofTrials settings trials).series[1]? = some series ∧
        series.values = [some (.ofNat 4)] ∧
        Gave settings (exchanges .prepared settings .benchmarks start) jlox "zoo" 1 (.ofNat 2) ∧
        Gave settings (exchanges .prepared settings .benchmarks start) jlox "zoo" 5 (.ofNat 6) := by
  intro settings jlox start
  have hvalid : settings.validate = .ok () := by decide
  have hends : (sweepBenchmarks .prepared settings start).1 = .ok () := by decide +kernel
  have htwo : Gave settings (exchanges .prepared settings .benchmarks start) jlox "zoo" 1 (.ofNat 2) :=
    ⟨"3\n2\n", by decide +kernel, by decide +kernel⟩
  have hsix : Gave settings (exchanges .prepared settings .benchmarks start) jlox "zoo" 5 (.ofNat 6) :=
    ⟨"3\n6\n", by decide +kernel, by decide +kernel⟩
  have hfour : ([Binary64.ofNat 2, .ofNat 6].foldl Binary64.add .negativeZero).div (.ofNat 2) =
      .ofNat 4 := by decide +kernel
  cases hsweep : sweepBenchmarks .prepared settings start with
  | mk result s' =>
    obtain rfl : result = .ok () := (congrArg Prod.fst hsweep).symm.trans hends
    obtain ⟨trials, names, hread, hcategories, hmembers, honce, -, hseries⟩ :=
      bars_of_sweepBenchmarks hvalid hsweep
    have hperm : names.Perm ["zoo"] := by
      refine (List.perm_ext_iff_of_nodup honce (by decide)).mpr fun name => ?_
      rw [hmembers]
      simp only [settings, List.mem_cons, List.not_mem_nil, or_false]
      grind
    obtain rfl : names = ["zoo"] := List.perm_singleton.mp hperm
    obtain ⟨-, hlanguages⟩ := hseries (by decide)
    obtain ⟨series, hplace, hvalues⟩ := hlanguages 1 (by decide)
    obtain ⟨value, _, hmean, hnil, hlist⟩ := List.forall₂_cons_left_iff.mp hvalues
    cases hnil
    have hplaces : settings.benchmarks.idxsOf "zoo" = [0, 2] := by decide
    have hvalue : value = some (.ofNat 4) := by
      rw [← hfour]
      refine hmean.eq_mean ?_
      rw [hplaces]
      exact .cons htwo (.cons hsix .nil)
    rw [hvalue] at hlist
    exact ⟨hvalid, rfl, trials, series, hread, hcategories, hplace, hlist, htwo, hsix⟩

end Sweep
end TimeTrials
