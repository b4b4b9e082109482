import Mathlib.Data.List.Nodup
import Mathlib.Data.List.ProdSigma
import TimeTrials.Proofs.Dataset.RoundTrip
import TimeTrials.Proofs.Grouping
import TimeTrials.Proofs.Settings.Validation
import TimeTrials.Proofs.Sweep.Execution
import TimeTrials.Proofs.Timing

/-!
# From a sweep to groups of times

A sweep that ends well into a new dataset leaves a measurement for each entry of its plan, and the
dataset reads back as their trials (`read_sink_of_sweepOf`).

The plan of the sizes sweep is made of blocks: a *subject* is a language on a size, and its block is the
entries that repeat it.  Subjects have keys of their own, because languages have names of their own and
sizes do not repeat, so the trials of one block are the trials of one group.  Which block it is, and so
which starts of programs the times come from, is a matter of counting (`getElem?_subjects`).

* `nodup_keys_subjects`: no two blocks share a group.
* `exists_block`: what was measured is cut where the block of a subject begins and ends.
* `groups_of_sweepSizes`: the groups of a sizes sweep, from the settings and the outputs.
-/

namespace TimeTrials

open Dataset (Writer)

/-! ## Reading a sweep back -/

namespace Sweep

variable {σ : Type}

/-- A new dataset that a sweep of its kind has been written to reads back as what was measured: one
trial for each entry of the plan. -/
theorem read_sink_of_sweepOf {runner : Runner σ} {settings : Settings} {kind : Kind} {initial : σ}
    {s' : State σ} (h : sweepOf runner settings kind ⟨initial, Writer.new kind⟩ = (.ok (), s')) :
    ∃ done : List (Measurement kind),
      plan settings kind = done.map (·.entry) ∧
      exchanges runner settings kind ⟨initial, Writer.new kind⟩ = done.map Measurement.exchange ∧
      Dataset.read kind s'.writer.sink = .ok (done.map Measurement.trial) := by
  obtain ⟨(done : List (Measurement kind)), hwriter, hprogress⟩ :=
    exists_progress runner settings kind ⟨initial, Writer.new kind⟩
  rw [h] at hwriter hprogress
  obtain ⟨hplan, hlog⟩ := hprogress.eq_map_of_ok
  refine ⟨done, hplan, hlog, ?_⟩
  rw [hwriter]
  refine Dataset.read_sink_withRows ?_
  intro trial htrial
  obtain ⟨m, -, rfl⟩ := List.mem_map.mp htrial
  exact ⟨m.kind_param, Timing.isValidTime_of_read m.read_output⟩

/-! ## Blocks of equal length -/

/-- Counting through lists of one length that are joined. -/
theorem getElem?_flatMap_of_length {α β : Type} {f : α → List β} {n : ℕ}
    (hf : ∀ a, (f a).length = n) {as : List α} {i j : ℕ} (hi : i < as.length) (hj : j < n) :
    (as.flatMap f)[i * n + j]? = (f as[i])[j]? := by
  induction as generalizing i with
  | nil => exact absurd hi (Nat.not_lt_zero i)
  | cons a as ih =>
    rw [List.flatMap_cons]
    cases i with
    | zero =>
      rw [Nat.zero_mul, Nat.zero_add, List.getElem?_append_left (by rw [hf]; exact hj)]
      rfl
    | succ i =>
      have hskip : (i + 1) * n + j = n + (i * n + j) := by
        rw [Nat.succ_mul]
        omega
      rw [hskip, ← hf a, List.getElem?_append_right (Nat.le_add_right _ _), Nat.add_sub_cancel_left,
        hf a, ih (Nat.lt_of_succ_lt_succ hi)]
      rfl

theorem length_flatMap_of_length {α β : Type} {f : α → List β} {n : ℕ}
    (hf : ∀ a, (f a).length = n) (as : List α) : (as.flatMap f).length = as.length * n := by
  induction as with
  | nil => exact (Nat.zero_mul n).symm
  | cons a as ih =>
    rw [List.flatMap_cons, List.length_append, hf, ih, List.length_cons, Nat.succ_mul, Nat.add_comm]

/-! ## The subjects of the sizes sweep -/

/-- The languages on the sizes, in the order in which they are measured. -/
def subjects (settings : Settings) : List (Language × UInt64) :=
  settings.languages ×ˢ sizesOf settings.sizes

/-- The group of a language on a size. -/
def subjectKey (subject : Language × UInt64) : GroupKey := ⟨subject.1.name, .size subject.2⟩

/-- The entries of a language on a size. -/
def block (settings : Settings) (subject : Language × UInt64) : List Entry :=
  (List.range settings.trials).map fun trial => sizeEntry settings subject.1 subject.2 trial

theorem length_block (settings : Settings) (subject : Language × UInt64) :
    (block settings subject).length = settings.trials := by
  rw [block, List.length_map, List.length_range]

theorem sizesPlan_eq (settings : Settings) :
    sizesPlan settings = (subjects settings).flatMap (block settings) := by
  have hsubjects : subjects settings = settings.languages.flatMap fun language =>
      (sizesOf settings.sizes).map fun n => (language, n) := rfl
  rw [hsubjects, List.flatMap_assoc]
  simp only [List.flatMap_map]
  rfl

theorem length_sizesOf (range : SizeRange) : (sizesOf range).length = range.count := by
  rw [sizesOf, List.length_map, List.length_range']

theorem length_subjects (settings : Settings) :
    (subjects settings).length = settings.languages.length * settings.sizes.count := by
  rw [subjects, List.length_product, length_sizesOf]

/-- Sizes are counted up without an overflow. -/
theorem toNat_ofNat_of_mem_range' {range : SizeRange} {n : ℕ}
    (h : n ∈ List.range' range.start.toNat range.count) : (UInt64.ofNat n).toNat = n := by
  obtain ⟨hstart, hn⟩ := List.mem_range'_1.mp h
  have hstop : range.stop.toNat < UInt64.size := range.stop.toNat_lt
  rw [SizeRange.count] at hn
  exact UInt64.toNat_ofNat_of_lt' (by omega)

theorem nodup_sizesOf (range : SizeRange) : (sizesOf range).Nodup := by
  refine List.Nodup.map_on ?_ List.nodup_range'
  intro n hn m hm heq
  rw [← toNat_ofNat_of_mem_range' hn, heq, toNat_ofNat_of_mem_range' hm]

/-- Languages with names of their own have groups of their own. -/
theorem nodup_keys_subjects {settings : Settings}
    (h : (settings.languages.map (·.name)).Nodup) :
    ((subjects settings).map subjectKey).Nodup := by
  have hlanguages : settings.languages.Nodup := List.Nodup.of_map _ h
  refine List.Nodup.map_on ?_ (hlanguages.product (nodup_sizesOf settings.sizes))
  rintro ⟨language, n⟩ hmem ⟨language', n'⟩ hmem' heq
  obtain ⟨hname, hsize⟩ := GroupKey.mk.inj heq
  have hlanguage : language = language' :=
    List.inj_on_of_nodup_map h (List.mem_product.mp hmem).1 (List.mem_product.mp hmem').1 hname
  rw [hlanguage]
  exact congrArg (Prod.mk language') (Param.size.inj hsize)

/-- The subject at a place. -/
theorem getElem?_subjects {settings : Settings} {i j : ℕ} (hi : i < settings.languages.length)
    (hj : j < settings.sizes.count) :
    (subjects settings)[i * settings.sizes.count + j]? =
      some (settings.languages[i], .ofNat (settings.sizes.start.toNat + j)) := by
  have hlength : ∀ language : Language,
      ((sizesOf settings.sizes).map (Prod.mk language)).length = settings.sizes.count := by
    intro language
    rw [List.length_map, length_sizesOf]
  have hplace := getElem?_flatMap_of_length hlength hi hj
  rw [List.getElem?_map, sizesOf, List.getElem?_map, List.getElem?_range' hj, Nat.one_mul] at hplace
  exact hplace

/-! ## Blocks and groups -/

/-- The group that the trial of an entry belongs to. -/
def Entry.key (entry : Entry) : GroupKey := ⟨entry.lang, entry.param⟩

theorem Measurement.key_trial {kind : Kind} (m : Measurement kind) : m.trial.key = m.entry.key := rfl

theorem key_of_mem_block {settings : Settings} {subject : Language × UInt64} {entry : Entry}
    (h : entry ∈ block settings subject) : entry.key = subjectKey subject := by
  obtain ⟨trial, -, rfl⟩ := List.mem_map.mp h
  rfl

/-- The keys of the trials of some blocks are keys of their subjects. -/
theorem exists_of_mem_blocks {settings : Settings} {chosen : List (Language × UInt64)}
    {ms : List (Measurement .sizes)}
    (h : ms.map (·.entry) = chosen.flatMap (block settings)) {trial : Trial}
    (htrial : trial ∈ ms.map Measurement.trial) :
    ∃ subject ∈ chosen, trial.key = subjectKey subject := by
  obtain ⟨m, hm, rfl⟩ := List.mem_map.mp htrial
  have hentry : m.entry ∈ chosen.flatMap (block settings) := by
    rw [← h]
    exact List.mem_map_of_mem hm
  obtain ⟨subject, hsubject, hmem⟩ := List.mem_flatMap.mp hentry
  exact ⟨subject, hsubject, key_of_mem_block hmem⟩

/-- Blocks of other subjects have no times in a group. -/
theorem timesOf_eq_nil_of_blocks {settings : Settings} {chosen : List (Language × UInt64)}
    {ms : List (Measurement .sizes)} (h : ms.map (·.entry) = chosen.flatMap (block settings))
    {key : GroupKey} (hkey : key ∉ chosen.map subjectKey) :
    Groups.timesOf (ms.map Measurement.trial) key = [] := by
  refine Groups.timesOf_eq_nil ?_
  rintro trial htrial rfl
  obtain ⟨subject, hsubject, heq⟩ := exists_of_mem_blocks h htrial
  rw [heq] at hkey
  exact hkey (List.mem_map_of_mem hsubject)

/-- The block of a subject has all its times in the subject's group. -/
theorem timesOf_eq_map_of_block {settings : Settings} {subject : Language × UInt64}
    {ms : List (Measurement .sizes)} (h : ms.map (·.entry) = block settings subject) :
    Groups.timesOf (ms.map Measurement.trial) (subjectKey subject) =
      ms.map Measurement.time := by
  have hkeys : ∀ trial ∈ ms.map Measurement.trial, trial.key = subjectKey subject := by
    intro trial htrial
    obtain ⟨m, hm, rfl⟩ := List.mem_map.mp htrial
    have hentry : m.entry ∈ block settings subject := by
      rw [← h]
      exact List.mem_map_of_mem hm
    rw [m.key_trial, key_of_mem_block hentry]
  rw [Groups.timesOf_eq_map hkeys, List.map_map]
  rfl

/-- The measurements of a subject stand together, and their times are all the times of its group. -/
theorem exists_block {settings : Settings} {done : List (Measurement .sizes)}
    (hnames : (settings.languages.map (·.name)).Nodup)
    (hplan : sizesPlan settings = done.map (·.entry)) {b : ℕ} {subject : Language × UInt64}
    (hb : (subjects settings)[b]? = some subject) :
    ∃ before mine after : List (Measurement .sizes), done = before ++ (mine ++ after) ∧
      before.length = b * settings.trials ∧ mine.map (·.entry) = block settings subject ∧
      Groups.timesOf (done.map Measurement.trial) (subjectKey subject) =
        mine.map Measurement.time := by
  obtain ⟨hlt, rfl⟩ := List.getElem?_eq_some_iff.mp hb
  have hsplit : subjects settings =
      (subjects settings).take b ++ (subjects settings)[b] :: (subjects settings).drop (b + 1) := by
    rw [← List.drop_eq_getElem_cons hlt, List.take_append_drop]
  have hkeys := nodup_keys_subjects hnames
  rw [hsplit, List.map_append, List.map_cons, List.nodup_append, List.nodup_cons] at hkeys
  obtain ⟨-, ⟨hnotAfter, -⟩, hdisjoint⟩ := hkeys
  have hnotBefore : subjectKey (subjects settings)[b] ∉
      ((subjects settings).take b).map subjectKey :=
    fun hmem => hdisjoint _ hmem _ List.mem_cons_self rfl
  rw [sizesPlan_eq, hsplit, List.flatMap_append, List.flatMap_cons, eq_comm,
    List.map_eq_append_iff] at hplan
  obtain ⟨before, rest, rfl, hbefore, hrest⟩ := hplan
  obtain ⟨mine, after, rfl, hmine, hafter⟩ := List.map_eq_append_iff.mp hrest
  refine ⟨before, mine, after, rfl, ?_, hmine, ?_⟩
  · rw [← List.length_map, hbefore, length_flatMap_of_length (length_block settings),
      List.length_take, Nat.min_eq_left hlt.le]
  · rw [List.map_append, List.map_append, Groups.timesOf_append, Groups.timesOf_append,
      timesOf_eq_nil_of_blocks hbefore hnotBefore, timesOf_eq_map_of_block hmine,
      timesOf_eq_nil_of_blocks hafter hnotAfter, List.nil_append, List.append_nil]

/-- With at least one trial, the groups are those of the subjects. -/
theorem mem_keys_iff_mem_subjects {settings : Settings} {done : List (Measurement .sizes)}
    (hplan : sizesPlan settings = done.map (·.entry)) (htrials : 0 < settings.trials)
    (key : GroupKey) :
    key ∈ (Groups.ofTrials (done.map Measurement.trial)).map Prod.fst ↔
      key ∈ (subjects settings).map subjectKey := by
  rw [Groups.mem_keys_ofTrials]
  rw [sizesPlan_eq] at hplan
  constructor
  · intro h
    obtain ⟨trial, htrial, rfl⟩ := List.mem_map.mp h
    obtain ⟨subject, hsubject, hkey⟩ := exists_of_mem_blocks hplan.symm htrial
    rw [hkey]
    exact List.mem_map_of_mem hsubject
  · intro h
    obtain ⟨subject, hsubject, rfl⟩ := List.mem_map.mp h
    have hfirst : sizeEntry settings subject.1 subject.2 0 ∈ done.map (·.entry) := by
      rw [← hplan]
      refine List.mem_flatMap.mpr ⟨subject, hsubject, ?_⟩
      exact List.mem_map.mpr ⟨0, List.mem_range.mpr htrials, rfl⟩
    obtain ⟨m, hm, hentry⟩ := List.mem_map.mp hfirst
    refine List.mem_map.mpr ⟨m.trial, List.mem_map_of_mem hm, ?_⟩
    rw [m.key_trial, hentry]
    rfl

/-- The entry behind a measurement of a subject. -/
theorem entry_of_block {settings : Settings} {subject : Language × UInt64}
    {mine : List (Measurement .sizes)} (hmine : mine.map (·.entry) = block settings subject) {t : ℕ}
    (ht : t < mine.length) : mine[t].entry = sizeEntry settings subject.1 subject.2 t := by
  have hlt : t < settings.trials := by
    rwa [← length_block settings subject, ← hmine, List.length_map]
  have hget : (mine.map (·.entry))[t]? = (block settings subject)[t]? := by rw [hmine]
  rw [List.getElem?_map, List.getElem?_eq_getElem ht, block, List.getElem?_map,
    List.getElem?_range hlt] at hget
  exact Option.some.inj hget

/-- The group of one language on one size, from what was exchanged for it. -/
theorem exists_times_of_subject {settings : Settings} {done : List (Measurement .sizes)}
    (hnames : (settings.languages.map (·.name)).Nodup)
    (hplan : sizesPlan settings = done.map (·.entry)) (htrials : 0 < settings.trials) {i j : ℕ}
    (hi : i < settings.languages.length) (hj : j < settings.sizes.count) :
    ∃ (n : UInt64) (times : List Number.Binary64), n.toNat = settings.sizes.start.toNat + j ∧
      (Groups.ofTrials (done.map Measurement.trial)).lookup
        ⟨settings.languages[i].name, .size n⟩ = some times ∧
      times.length = settings.trials ∧
      ∀ t < settings.trials, ∃ output time,
        (done.map Measurement.exchange)[
            (i * settings.sizes.count + j) * settings.trials + t]? =
          some ⟨⟨settings.languages[i], settings.program, some n⟩, .ok output⟩ ∧
        Timing.read .wholeOutput output = .ok time ∧ times[t]? = some time := by
  have hsubject := getElem?_subjects hi hj
  have hkey := (mem_keys_iff_mem_subjects hplan htrials _).mpr
    (List.mem_map_of_mem (List.mem_of_getElem? hsubject))
  obtain ⟨before, mine, after, rfl, hbefore, hmine, htimes⟩ := exists_block hnames hplan hsubject
  have hcount : mine.length = settings.trials := by
    rw [← length_block, ← hmine, List.length_map]
  have hgroup := Groups.lookup_ofTrials ((before ++ (mine ++ after)).map Measurement.trial)
    (subjectKey (settings.languages[i], .ofNat (settings.sizes.start.toNat + j)))
  rw [if_pos (Groups.mem_keys_ofTrials.mp hkey), htimes] at hgroup
  refine ⟨.ofNat (settings.sizes.start.toNat + j), mine.map Measurement.time, ?_, hgroup, ?_, ?_⟩
  · refine toNat_ofNat_of_mem_range' (List.mem_range'_1.mpr ⟨Nat.le_add_right _ _, ?_⟩)
    exact Nat.add_lt_add_left hj _
  · rw [List.length_map, hcount]
  · intro t ht
    have hlt : t < mine.length := by rwa [hcount]
    have hentry := entry_of_block hmine hlt
    refine ⟨mine[t].output, mine[t].time, ?_, ?_, ?_⟩
    · rw [← hbefore, List.getElem?_map, List.getElem?_append_right (Nat.le_add_right _ _),
        Nat.add_sub_cancel_left, List.getElem?_append_left hlt, List.getElem?_eq_getElem hlt,
        Option.map_some, Measurement.exchange, hentry]
      rfl
    · have hread := mine[t].read_output
      rw [hentry] at hread
      exact hread
    · rw [List.getElem?_map, List.getElem?_eq_getElem hlt, Option.map_some]

/-- **From settings and outputs to groups.**  Let a sizes sweep with usable settings end well into a new
dataset.  The dataset reads back, and without trials there are no groups.  Otherwise there is one group
for each language on each size, and the times of the `j`-th size of the `i`-th language are, one for
each trial and in this order, what was read in the outputs from number `(i * count + j) * trials` on,
which are outputs of this language on this size. -/
theorem groups_of_sweepSizes {runner : Runner σ} {settings : Settings} {initial : σ} {s' : State σ}
    (hvalid : settings.validate = .ok ())
    (hsweep : sweepSizes runner settings ⟨initial, Writer.new .sizes⟩ = (.ok (), s')) :
    ∃ trials, Dataset.read .sizes s'.writer.sink = .ok trials ∧
      (settings.trials = 0 → Groups.ofTrials trials = []) ∧
      (0 < settings.trials →
        (exchanges runner settings .sizes ⟨initial, Writer.new .sizes⟩).length =
          settings.languages.length * settings.sizes.count * settings.trials ∧
        (Groups.ofTrials trials).length = settings.languages.length * settings.sizes.count ∧
        ((Groups.ofTrials trials).map Prod.fst).Nodup ∧
        ∀ (i : ℕ) (hi : i < settings.languages.length) (j : ℕ), j < settings.sizes.count →
          ∃ (n : UInt64) (times : List Number.Binary64),
            n.toNat = settings.sizes.start.toNat + j ∧
            (Groups.ofTrials trials).lookup ⟨settings.languages[i].name, .size n⟩ = some times ∧
            times.length = settings.trials ∧
            ∀ t < settings.trials, ∃ output time,
              (exchanges runner settings .sizes ⟨initial, Writer.new .sizes⟩)[
                  (i * settings.sizes.count + j) * settings.trials + t]? =
                some ⟨⟨settings.languages[i], settings.program, some n⟩, .ok output⟩ ∧
              Timing.read .wholeOutput output = .ok time ∧ times[t]? = some time) := by
  have hnames := (Settings.validate_eq_ok_iff.mp hvalid).nodup_names
  have hsizes : sweepOf runner settings .sizes ⟨initial, Writer.new .sizes⟩ = (.ok (), s') := hsweep
  obtain ⟨done, hplan, hlog, hread⟩ := read_sink_of_sweepOf hsizes
  have hsizesPlan : sizesPlan settings = done.map (·.entry) := hplan
  have hlength : done.length =
      settings.languages.length * settings.sizes.count * settings.trials := by
    rw [← length_subjects, ← length_flatMap_of_length (length_block settings), ← sizesPlan_eq,
      hsizesPlan, List.length_map]
  refine ⟨_, hread, ?_, ?_⟩
  · intro hzero
    rw [hzero, Nat.mul_zero, List.length_eq_zero_iff] at hlength
    rw [hlength]
    rfl
  · intro htrials
    have hkeys := (Groups.sorted_ofTrials (done.map Measurement.trial)).nodup_keys
    have hperm := (List.perm_ext_iff_of_nodup hkeys (nodup_keys_subjects hnames)).mpr
      (mem_keys_iff_mem_subjects hsizesPlan htrials)
    rw [hlog]
    refine ⟨?_, ?_, hkeys, ?_⟩
    · rw [List.length_map, hlength]
    · rw [← length_subjects, ← List.length_map, hperm.length_eq, List.length_map]
    · intro i hi j hj
      exact exists_times_of_subject hnames hsizesPlan htrials hi hj

/-- Two languages on two sizes, twice each: the last group is that of the last two outputs. -/
theorem groups_of_prepared_outputs :
    let settings : Settings := { Settings.default with sizes := ⟨1, 3⟩, trials := 2 }
    let start : State (List (Except LaunchFault String)) :=
      ⟨["0.1", "0.2", "0.3", "0.4", "0.5", "0.6", "0.7", "0.8\n"].map .ok, Writer.new .sizes⟩
    settings.validate = .ok () ∧ (sweepSizes .prepared settings start).1 = .ok () ∧
      ∃ trials times,
        Dataset.read .sizes (sweepSizes .prepared settings start).2.writer.sink = .ok trials ∧
        (Groups.ofTrials trials).length = 4 ∧
        (Groups.ofTrials trials).lookup ⟨"jlox", .size 2⟩ = some times ∧ times.length = 2 ∧
        ∃ output time,
          (exchanges .prepared settings .sizes start)[7]? =
            some ⟨⟨⟨"jlox", ["../../craftinginterpreters/jlox"], some .blue⟩,
              "../lox_programs/benchmark.lox", some 2⟩, .ok output⟩ ∧
          Timing.read .wholeOutput output = .ok time ∧ times[1]? = some time := by
  intro settings start
  have hvalid : settings.validate = .ok () := by decide
  have hends : (sweepSizes .prepared settings start).1 = .ok () := by decide +kernel
  cases hsweep : sweepSizes .prepared settings start with
  | mk result s' =>
    obtain rfl : result = .ok () := (congrArg Prod.fst hsweep).symm.trans hends
    obtain ⟨trials, hread, -, hgroups⟩ := groups_of_sweepSizes hvalid hsweep
    obtain ⟨-, hlength, -, htimes⟩ := hgroups (by decide)
    obtain ⟨n, times, hn, hlookup, hcount, hrepeats⟩ := htimes 1 (by decide) 1 (by decide)
    obtain rfl : n = 2 := UInt64.toNat_inj.mp hn
    exact ⟨hvalid, rfl, trials, times, hread, hlength, hlookup, hcount, hrepeats 1 (by decide)⟩

end Sweep
end TimeTrials
