import TimeTrials.Proofs.Settings.Readings

/-!
# Settings field by field

Four records are decoded from tables: a range, a language, the look of the charts and the settings as a
whole.  For each of them there is

* a step relation with one case for each key, which is what the decoder's step does when it ends well
  (`setRange_eq_ok_iff` and so on);
* the fields that the steps read (`reads_range` and so on);
* what a table has to say for the record (`DescribesRange` and so on), and the decoder's result as exactly
  that (`decodeRange_table_iff` and so on).
-/

namespace TimeTrials.Settings

open Toml (Value Table)

variable {entries document : Table} {key : String} {v : Value}

/-! ## Ranges -/

/-- What one key does to a range. -/
inductive RangeStep (range : PartialRange) : String → Value → PartialRange → Prop
  | start {v : Value} {size : UInt64} (hv : decodeSize v = .ok size) :
      RangeStep range "start" v { range with start := some size }
  | stop {v : Value} {size : UInt64} (hv : decodeSize v = .ok size) :
      RangeStep range "end" v { range with stop := some size }

theorem setRange_eq_ok_iff {range range' : PartialRange} :
    range.set (key, v) = .ok range' ↔ RangeStep range key v range' := by
  constructor
  · intro h
    unfold PartialRange.set at h
    split at h
    case h_3 => cases h
    all_goals
      rename_i v heq
      cases heq
      obtain ⟨_, hv, h⟩ := bind_eq_ok_iff.mp h
      cases h
      constructor
      exact hv
  · intro h
    cases h with
    | start hv => exact bind_eq_ok_iff.mpr ⟨_, hv, rfl⟩
    | stop hv => exact bind_eq_ok_iff.mpr ⟨_, hv, rfl⟩

/-- Each end is read from its own key. -/
theorem reads_range :
    Reads PartialRange.set "start" (·.start) (Given (Decodes decodeSize)) ∧
    Reads PartialRange.set "end" (·.stop) (Given (Decodes decodeSize)) := by
  refine ⟨?_, ?_⟩ <;>
  · intro range k v range' h
    cases setRange_eq_ok_iff.mp h <;> simp_all [Given, Decodes]

/-- What a table has said of a range when it ends. -/
structure RangeRead (entries : Table) (range : PartialRange) : Prop where
  known : KnownKeys ["start", "end"] entries
  start : Holds entries "start" (Given (Decodes decodeSize)) none range.start
  stop : Holds entries "end" (Given (Decodes decodeSize)) none range.stop

theorem foldlM_setRange_eq_ok_iff (hkeys : (entries.map (·.1)).Nodup) {range : PartialRange} :
    entries.foldlM PartialRange.set {} = .ok range ↔ RangeRead entries range := by
  obtain ⟨hstart, hstop⟩ := reads_range
  refine foldlM_eq_ok_iff ["start", "end"] ?_ ?_ ?_ ?_
  · intro t k v t' hstep
    cases setRange_eq_ok_iff.mp hstep <;> simp
  · exact fun range hrun hknown => ⟨hknown, hstart.holds hkeys hrun, hstop.holds hkeys hrun⟩
  · intro range h k v hkv t
    have hk := h.known _ hkv
    simp only [List.mem_cons, List.not_mem_nil, or_false] at hk
    rcases hk with rfl | rfl
    · obtain ⟨_, -, hv⟩ := h.start.1 v hkv
      exact ⟨_, setRange_eq_ok_iff.mpr (.start hv)⟩
    · obtain ⟨_, -, hv⟩ := h.stop.1 v hkv
      exact ⟨_, setRange_eq_ok_iff.mpr (.stop hv)⟩
  · rintro ⟨start, stop⟩ ⟨start', stop'⟩ h h'
    congr
    · exact h.start.unique (Given.unique Decodes.unique) h'.start
    · exact h.stop.unique (Given.unique Decodes.unique) h'.stop

theorem finishRange_eq_ok_iff {found : PartialRange} {range : SizeRange} :
    found.finish = .ok range ↔ found = ⟨some range.start, some range.stop⟩ := by
  obtain ⟨start, stop⟩ := found
  cases start <;> cases stop <;> cases range <;> simp [PartialRange.finish]

/-- What a table has to say for a range: both of its ends and nothing else. -/
structure DescribesRange (entries : Table) (range : SizeRange) : Prop where
  known : KnownKeys ["start", "end"] entries
  start : Present entries "start" (IsSize · range.start)
  stop : Present entries "end" (IsSize · range.stop)

theorem decodeRange_table_iff (htable : (Value.table entries).WellFormed) {range : SizeRange} :
    decodeRange (.table entries) = .ok range ↔ DescribesRange entries range := by
  obtain ⟨hkeys, hvalues⟩ := Toml.Value.wellFormed_table_iff.mp htable
  have hsize : ∀ key size, Present entries key (Decodes decodeSize · size) ↔
      Present entries key (IsSize · size) :=
    fun key size => present_congr fun v hv => decodes_size_iff (hvalues _ hv)
  have hrun : decodeRange (.table entries) = .ok range ↔
      RangeRead entries ⟨some range.start, some range.stop⟩ := by
    rw [decodeRange, bind_eq_ok_iff, ← foldlM_setRange_eq_ok_iff hkeys]
    simp only [finishRange_eq_ok_iff, exists_eq_right]
  rw [hrun]
  constructor
  · rintro ⟨hknown, hstart, hstop⟩
    exact ⟨hknown, (hsize _ _).mp ((holds_given_iff hkeys).mp hstart),
      (hsize _ _).mp ((holds_given_iff hkeys).mp hstop)⟩
  · rintro ⟨hknown, hstart, hstop⟩
    exact ⟨hknown, (holds_given_iff hkeys).mpr ((hsize _ _).mpr hstart),
      (holds_given_iff hkeys).mpr ((hsize _ _).mpr hstop)⟩

/-! ## Languages -/

/-- What one key does to a language. -/
inductive LanguageStep (language : PartialLanguage) : String → Value → PartialLanguage → Prop
  | name {v : Value} {name : String} (hv : decodeText .text v = .ok name) :
      LanguageStep language "name" v { language with name := some name }
  | command {v : Value} {command : List String} (hv : decodeCommand v = .ok command) :
      LanguageStep language "command" v { language with command := some command }
  | color {v : Value} {color : Color} (hv : decodeColor v = .ok color) :
      LanguageStep language "color" v { language with color := some color }

theorem setLanguage_eq_ok_iff {language language' : PartialLanguage} :
    language.set (key, v) = .ok language' ↔ LanguageStep language key v language' := by
  constructor
  · intro h
    unfold PartialLanguage.set at h
    split at h
    case h_4 => cases h
    all_goals
      rename_i v heq
      cases heq
      obtain ⟨_, hv, h⟩ := bind_eq_ok_iff.mp h
      cases h
      constructor
      exact hv
  · intro h
    cases h with
    | name hv => exact bind_eq_ok_iff.mpr ⟨_, hv, rfl⟩
    | command hv => exact bind_eq_ok_iff.mpr ⟨_, hv, rfl⟩
    | color hv => exact bind_eq_ok_iff.mpr ⟨_, hv, rfl⟩

/-- Each part is read from its own key. -/
theorem reads_language :
    Reads PartialLanguage.set "name" (·.name) (Given (Decodes (decodeText .text))) ∧
    Reads PartialLanguage.set "command" (·.command) (Given (Decodes decodeCommand)) ∧
    Reads PartialLanguage.set "color" (·.color) (Given (Decodes decodeColor)) := by
  refine ⟨?_, ?_, ?_⟩ <;>
  · intro language k v language' h
    cases setLanguage_eq_ok_iff.mp h <;> simp_all [Given, Decodes]

/-- What a table has said of a language when it ends. -/
structure LanguageRead (entries : Table) (language : PartialLanguage) : Prop where
  known : KnownKeys ["name", "command", "color"] entries
  name : Holds entries "name" (Given (Decodes (decodeText .text))) none language.name
  command : Holds entries "command" (Given (Decodes decodeCommand)) none language.command
  color : Holds entries "color" (Given (Decodes decodeColor)) none language.color

theorem foldlM_setLanguage_eq_ok_iff (hkeys : (entries.map (·.1)).Nodup)
    {language : PartialLanguage} :
    entries.foldlM PartialLanguage.set {} = .ok language ↔ LanguageRead entries language := by
  obtain ⟨hname, hcommand, hcolor⟩ := reads_language
  refine foldlM_eq_ok_iff ["name", "command", "color"] ?_ ?_ ?_ ?_
  · intro t k v t' hstep
    cases setLanguage_eq_ok_iff.mp hstep <;> simp
  · exact fun language hrun hknown =>
      ⟨hknown, hname.holds hkeys hrun, hcommand.holds hkeys hrun, hcolor.holds hkeys hrun⟩
  · intro language h k v hkv t
    have hk := h.known _ hkv
    simp only [List.mem_cons, List.not_mem_nil, or_false] at hk
    rcases hk with rfl | rfl | rfl
    · obtain ⟨_, -, hv⟩ := h.name.1 v hkv
      exact ⟨_, setLanguage_eq_ok_iff.mpr (.name hv)⟩
    · obtain ⟨_, -, hv⟩ := h.command.1 v hkv
      exact ⟨_, setLanguage_eq_ok_iff.mpr (.command hv)⟩
    · obtain ⟨_, -, hv⟩ := h.color.1 v hkv
      exact ⟨_, setLanguage_eq_ok_iff.mpr (.color hv)⟩
  · rintro ⟨name, command, color⟩ ⟨name', command', color'⟩ h h'
    congr
    · exact h.name.unique (Given.unique Decodes.unique) h'.name
    · exact h.command.unique (Given.unique Decodes.unique) h'.command
    · exact h.color.unique (Given.unique Decodes.unique) h'.color

theorem finishLanguage_eq_ok_iff {found : PartialLanguage} {language : Language} :
    found.finish = .ok language ↔
      found = ⟨some language.name, some language.command, language.color⟩ := by
  obtain ⟨name, command, color⟩ := found
  cases name <;> cases command <;> cases language <;> simp [PartialLanguage.finish]

/-- What a table has to say for a language: its name and its command, at most a colour besides, and
nothing else. -/
structure DescribesLanguage (entries : Table) (language : Language) : Prop where
  known : KnownKeys ["name", "command", "color"] entries
  name : Present entries "name" (IsText · language.name)
  command : Present entries "command" (IsList IsText · language.command)
  color : Holds entries "color" (Given IsColor) none language.color

theorem decodeLanguage_table_iff (hkeys : (entries.map (·.1)).Nodup) {language : Language} :
    decodeLanguage (.table entries) = .ok language ↔ DescribesLanguage entries language := by
  have hrun : decodeLanguage (.table entries) = .ok language ↔
      LanguageRead entries ⟨some language.name, some language.command, language.color⟩ := by
    rw [decodeLanguage, bind_eq_ok_iff, ← foldlM_setLanguage_eq_ok_iff hkeys]
    simp only [finishLanguage_eq_ok_iff, exists_eq_right]
  rw [hrun]
  have hcommand : Decodes decodeCommand = IsList IsText := decodes_texts .text
  constructor
  · rintro ⟨hknown, hname, hcom, hcolor⟩
    rw [holds_given_iff hkeys, decodes_text] at hname
    rw [holds_given_iff hkeys, hcommand] at hcom
    rw [decodes_color] at hcolor
    exact ⟨hknown, hname, hcom, hcolor⟩
  · rintro ⟨hknown, hname, hcom, hcolor⟩
    rw [← decodes_text .text, ← holds_given_iff hkeys] at hname
    rw [← hcommand, ← holds_given_iff hkeys] at hcom
    rw [← decodes_color] at hcolor
    exact ⟨hknown, hname, hcom, hcolor⟩

/-! ## The look of the charts -/

/-- What one key does to the look of the charts. -/
inductive ChartStep (chart : ChartSettings) : String → Value → ChartSettings → Prop
  | width {v : Value} {width : Nat} (hv : decodeNat .count v = .ok width) :
      ChartStep chart "width" v { chart with width := width }
  | trendTitle {v : Value} {title : String} (hv : decodeText .text v = .ok title) :
      ChartStep chart "trend_title" v { chart with trendTitle := title }
  | barsTitle {v : Value} {title : String} (hv : decodeText .text v = .ok title) :
      ChartStep chart "bars_title" v { chart with barsTitle := title }

theorem setChart_eq_ok_iff {chart chart' : ChartSettings} :
    setChart chart (key, v) = .ok chart' ↔ ChartStep chart key v chart' := by
  constructor
  · intro h
    unfold setChart at h
    split at h
    case h_4 => cases h
    all_goals
      rename_i v heq
      cases heq
      obtain ⟨_, hv, h⟩ := bind_eq_ok_iff.mp h
      cases h
      constructor
      exact hv
  · intro h
    cases h with
    | width hv => exact bind_eq_ok_iff.mpr ⟨_, hv, rfl⟩
    | trendTitle hv => exact bind_eq_ok_iff.mpr ⟨_, hv, rfl⟩
    | barsTitle hv => exact bind_eq_ok_iff.mpr ⟨_, hv, rfl⟩

/-- Each part of the look is read from its own key. -/
theorem reads_chart :
    Reads setChart "width" (·.width) IsCount ∧
    Reads setChart "trend_title" (·.trendTitle) IsText ∧
    Reads setChart "bars_title" (·.barsTitle) IsText := by
  rw [← decodes_count .count, ← decodes_text .text]
  refine ⟨?_, ?_, ?_⟩ <;>
  · intro chart k v chart' h
    cases setChart_eq_ok_iff.mp h <;> simp_all [Decodes]

/-- What a table says of the look of the charts: nothing but its parts, and the default of each that it
does not give. -/
structure DescribesChart (entries : Table) (chart : ChartSettings) : Prop where
  known : KnownKeys ["width", "trend_title", "bars_title"] entries
  width : Holds entries "width" IsCount ChartSettings.default.width chart.width
  trendTitle : Holds entries "trend_title" IsText ChartSettings.default.trendTitle chart.trendTitle
  barsTitle : Holds entries "bars_title" IsText ChartSettings.default.barsTitle chart.barsTitle

theorem decodeChart_table_iff (hkeys : (entries.map (·.1)).Nodup) {chart : ChartSettings} :
    decodeChart (.table entries) = .ok chart ↔ DescribesChart entries chart := by
  obtain ⟨hwidth, htrend, hbars⟩ := reads_chart
  refine foldlM_eq_ok_iff ["width", "trend_title", "bars_title"] ?_ ?_ ?_ ?_
  · intro t k v t' hstep
    cases setChart_eq_ok_iff.mp hstep <;> simp
  · exact fun chart hrun hknown =>
      ⟨hknown, hwidth.holds hkeys hrun, htrend.holds hkeys hrun, hbars.holds hkeys hrun⟩
  · intro chart h k v hkv t
    have hk := h.known _ hkv
    simp only [List.mem_cons, List.not_mem_nil, or_false] at hk
    rcases hk with rfl | rfl | rfl
    · have hv := h.width.1 v hkv
      rw [← decodes_count .count] at hv
      exact ⟨_, setChart_eq_ok_iff.mpr (.width hv)⟩
    · have hv := h.trendTitle.1 v hkv
      rw [← decodes_text .text] at hv
      exact ⟨_, setChart_eq_ok_iff.mpr (.trendTitle hv)⟩
    · have hv := h.barsTitle.1 v hkv
      rw [← decodes_text .text] at hv
      exact ⟨_, setChart_eq_ok_iff.mpr (.barsTitle hv)⟩
  · rintro ⟨width, trendTitle, barsTitle⟩ ⟨width', trendTitle', barsTitle'⟩ h h'
    congr
    · exact h.width.unique IsCount.unique h'.width
    · exact h.trendTitle.unique IsText.unique h'.trendTitle
    · exact h.barsTitle.unique IsText.unique h'.barsTitle

/-! ## Values that are tables -/

theorem decodes_range_iff (hv : v.WellFormed) (harray : ¬v.IsArray) {range : SizeRange} :
    Decodes decodeRange v range ↔ IsTable DescribesRange v range := by
  unfold Decodes IsTable
  cases v with
  | table entries => simp [decodeRange_table_iff hv]
  | array vs => exact absurd ⟨vs, rfl⟩ harray
  | _ => exact iff_of_false (fun h => by cases h) (fun ⟨_, h, _⟩ => by cases h)

theorem decodes_language_iff (hv : v.WellFormed) (harray : ¬v.IsArray) {language : Language} :
    Decodes decodeLanguage v language ↔ IsTable DescribesLanguage v language := by
  unfold Decodes IsTable
  cases v with
  | table entries =>
    simp [decodeLanguage_table_iff (Toml.Value.wellFormed_table_iff.mp hv).1]
  | array vs => exact absurd ⟨vs, rfl⟩ harray
  | _ => exact iff_of_false (fun h => by cases h) (fun ⟨_, h, _⟩ => by cases h)

theorem decodes_chart_iff (hv : v.WellFormed) (harray : ¬v.IsArray) {chart : ChartSettings} :
    Decodes decodeChart v chart ↔ IsTable DescribesChart v chart := by
  unfold Decodes IsTable
  cases v with
  | table entries => simp [decodeChart_table_iff (Toml.Value.wellFormed_table_iff.mp hv).1]
  | array vs => exact absurd ⟨vs, rfl⟩ harray
  | _ => exact iff_of_false (fun h => by cases h) (fun ⟨_, h, _⟩ => by cases h)

/-! ## The settings -/

/-- What one key does to the settings. -/
inductive SettingsStep (settings : Settings) : String → Value → Settings → Prop
  | languages {v : Value} {languages : List Language}
      (hv : decodeList decodeLanguage v = .ok languages) :
      SettingsStep settings "languages" v { settings with languages := languages }
  | program {v : Value} {program : String} (hv : decodeText .path v = .ok program) :
      SettingsStep settings "program" v { settings with program := program }
  | sizes {v : Value} {sizes : SizeRange} (hv : decodeRange v = .ok sizes) :
      SettingsStep settings "sizes" v { settings with sizes := sizes }
  | trials {v : Value} {trials : Nat} (hv : decodeNat .count v = .ok trials) :
      SettingsStep settings "trials" v { settings with trials := trials }
  | benchmarkDir {v : Value} {dir : String} (hv : decodeText .path v = .ok dir) :
      SettingsStep settings "benchmark_dir" v { settings with benchmarkDir := dir }
  | extension {v : Value} {extension : String} (hv : decodeText .text v = .ok extension) :
      SettingsStep settings "extension" v { settings with extension := extension }
  | benchmarks {v : Value} {names : List String}
      (hv : decodeList (decodeText .text) v = .ok names) :
      SettingsStep settings "benchmarks" v { settings with benchmarks := names }
  | excluded {v : Value} {names : List String}
      (hv : decodeList (decodeText .text) v = .ok names) :
      SettingsStep settings "excluded" v { settings with excluded := names }
  | chart {v : Value} {chart : ChartSettings} (hv : decodeChart v = .ok chart) :
      SettingsStep settings "chart" v { settings with chart := chart }

theorem set_eq_ok_iff {settings settings' : Settings} :
    set settings (key, v) = .ok settings' ↔ SettingsStep settings key v settings' := by
  constructor
  · intro h
    unfold set at h
    split at h
    case h_10 => cases h
    all_goals
      rename_i v heq
      cases heq
      obtain ⟨_, hv, h⟩ := bind_eq_ok_iff.mp h
      cases h
      constructor
      exact hv
  · intro h
    cases h with
    | languages hv => exact bind_eq_ok_iff.mpr ⟨_, hv, rfl⟩
    | program hv => exact bind_eq_ok_iff.mpr ⟨_, hv, rfl⟩
    | sizes hv => exact bind_eq_ok_iff.mpr ⟨_, hv, rfl⟩
    | trials hv => exact bind_eq_ok_iff.mpr ⟨_, hv, rfl⟩
    | benchmarkDir hv => exact bind_eq_ok_iff.mpr ⟨_, hv, rfl⟩
    | extension hv => exact bind_eq_ok_iff.mpr ⟨_, hv, rfl⟩
    | benchmarks hv => exact bind_eq_ok_iff.mpr ⟨_, hv, rfl⟩
    | excluded hv => exact bind_eq_ok_iff.mpr ⟨_, hv, rfl⟩
    | chart hv => exact bind_eq_ok_iff.mpr ⟨_, hv, rfl⟩

/-- Each setting is read from its own key. -/
theorem reads_settings :
    Reads set "languages" (·.languages) (Decodes (decodeList decodeLanguage)) ∧
    Reads set "program" (·.program) (Decodes (decodeText .path)) ∧
    Reads set "sizes" (·.sizes) (Decodes decodeRange) ∧
    Reads set "trials" (·.trials) (Decodes (decodeNat .count)) ∧
    Reads set "benchmark_dir" (·.benchmarkDir) (Decodes (decodeText .path)) ∧
    Reads set "extension" (·.extension) (Decodes (decodeText .text)) ∧
    Reads set "benchmarks" (·.benchmarks) (Decodes (decodeList (decodeText .text))) ∧
    Reads set "excluded" (·.excluded) (Decodes (decodeList (decodeText .text))) ∧
    Reads set "chart" (·.chart) (Decodes decodeChart) := by
  refine ⟨?_, ?_, ?_, ?_, ?_, ?_, ?_, ?_, ?_⟩ <;>
  · intro settings k v settings' h
    cases set_eq_ok_iff.mp h <;> simp_all [Decodes]

/-- What a document has said of the settings when it ends. -/
structure SettingsRead (document : Table) (settings : Settings) : Prop where
  known : KnownKeys fields document
  languages : Holds document "languages" (Decodes (decodeList decodeLanguage))
    Settings.default.languages settings.languages
  program : Holds document "program" (Decodes (decodeText .path))
    Settings.default.program settings.program
  sizes : Holds document "sizes" (Decodes decodeRange) Settings.default.sizes settings.sizes
  trials : Holds document "trials" (Decodes (decodeNat .count))
    Settings.default.trials settings.trials
  benchmarkDir : Holds document "benchmark_dir" (Decodes (decodeText .path))
    Settings.default.benchmarkDir settings.benchmarkDir
  extension : Holds document "extension" (Decodes (decodeText .text))
    Settings.default.extension settings.extension
  benchmarks : Holds document "benchmarks" (Decodes (decodeList (decodeText .text)))
    Settings.default.benchmarks settings.benchmarks
  excluded : Holds document "excluded" (Decodes (decodeList (decodeText .text)))
    Settings.default.excluded settings.excluded
  chart : Holds document "chart" (Decodes decodeChart) Settings.default.chart settings.chart

theorem decode_eq_ok_iff_read (hkeys : (document.map (·.1)).Nodup) {settings : Settings} :
    decode document = .ok settings ↔ SettingsRead document settings := by
  obtain ⟨hl, hp, hs, ht, hd, he, hb, hx, hc⟩ := reads_settings
  refine foldlM_eq_ok_iff fields ?_ ?_ ?_ ?_
  · intro t k v t' hstep
    cases set_eq_ok_iff.mp hstep <;> simp [fields]
  · exact fun settings hrun hknown =>
      ⟨hknown, hl.holds hkeys hrun, hp.holds hkeys hrun, hs.holds hkeys hrun, ht.holds hkeys hrun,
        hd.holds hkeys hrun, he.holds hkeys hrun, hb.holds hkeys hrun, hx.holds hkeys hrun,
        hc.holds hkeys hrun⟩
  · intro settings h k v hkv t
    have hk := h.known _ hkv
    simp only [fields, List.mem_cons, List.not_mem_nil, or_false] at hk
    rcases hk with rfl | rfl | rfl | rfl | rfl | rfl | rfl | rfl | rfl
    · exact ⟨_, set_eq_ok_iff.mpr (.languages (h.languages.1 v hkv))⟩
    · exact ⟨_, set_eq_ok_iff.mpr (.program (h.program.1 v hkv))⟩
    · exact ⟨_, set_eq_ok_iff.mpr (.sizes (h.sizes.1 v hkv))⟩
    · exact ⟨_, set_eq_ok_iff.mpr (.trials (h.trials.1 v hkv))⟩
    · exact ⟨_, set_eq_ok_iff.mpr (.benchmarkDir (h.benchmarkDir.1 v hkv))⟩
    · exact ⟨_, set_eq_ok_iff.mpr (.extension (h.extension.1 v hkv))⟩
    · exact ⟨_, set_eq_ok_iff.mpr (.benchmarks (h.benchmarks.1 v hkv))⟩
    · exact ⟨_, set_eq_ok_iff.mpr (.excluded (h.excluded.1 v hkv))⟩
    · exact ⟨_, set_eq_ok_iff.mpr (.chart (h.chart.1 v hkv))⟩
  · intro settings settings' h h'
    cases settings
    cases settings'
    congr
    · exact h.languages.unique Decodes.unique h'.languages
    · exact h.program.unique Decodes.unique h'.program
    · exact h.sizes.unique Decodes.unique h'.sizes
    · exact h.trials.unique Decodes.unique h'.trials
    · exact h.benchmarkDir.unique Decodes.unique h'.benchmarkDir
    · exact h.extension.unique Decodes.unique h'.extension
    · exact h.benchmarks.unique Decodes.unique h'.benchmarks
    · exact h.excluded.unique Decodes.unique h'.excluded
    · exact h.chart.unique Decodes.unique h'.chart

/-- What a document says of the settings: nothing but them, and the default of each that it does not
give. -/
structure Describes (document : Table) (settings : Settings) : Prop where
  known : KnownKeys fields document
  languages : Holds document "languages" (IsList (IsTable DescribesLanguage))
    Settings.default.languages settings.languages
  program : Holds document "program" IsText Settings.default.program settings.program
  sizes : Holds document "sizes" (IsTable DescribesRange) Settings.default.sizes settings.sizes
  trials : Holds document "trials" IsCount Settings.default.trials settings.trials
  benchmarkDir : Holds document "benchmark_dir" IsText
    Settings.default.benchmarkDir settings.benchmarkDir
  extension : Holds document "extension" IsText Settings.default.extension settings.extension
  benchmarks : Holds document "benchmarks" (IsList IsText)
    Settings.default.benchmarks settings.benchmarks
  excluded : Holds document "excluded" (IsList IsText) Settings.default.excluded settings.excluded
  chart : Holds document "chart" (IsTable DescribesChart) Settings.default.chart settings.chart

/-- Ranges, charts and languages are not written as arrays of their values. -/
structure GivenAsTables (document : Table) : Prop where
  sizes : IfPresent document "sizes" (¬·.IsArray)
  chart : IfPresent document "chart" (¬·.IsArray)
  languages : IfPresent document "languages" fun v => ∀ vs, v = .array vs → ∀ w ∈ vs, ¬w.IsArray

theorem decode_eq_ok_iff_describes (hdocument : (Value.table document).WellFormed)
    (htables : GivenAsTables document) {settings : Settings} :
    decode document = .ok settings ↔ Describes document settings := by
  obtain ⟨hkeys, hvalues⟩ := Toml.Value.wellFormed_table_iff.mp hdocument
  have hlanguages : ∀ languages, Holds document "languages" (Decodes (decodeList decodeLanguage))
        Settings.default.languages languages ↔
      Holds document "languages" (IsList (IsTable DescribesLanguage))
        Settings.default.languages languages := by
    refine fun languages => holds_congr fun v hv => ?_
    rw [decodes_list]
    refine isList_congr (p := fun w => w.WellFormed ∧ ¬w.IsArray)
      (fun w _ hw => decodes_language_iff hw.1 hw.2) fun vs hvs w hw => ⟨?_, ?_⟩
    · have hwf := hvalues _ hv
      rw [hvs, Toml.Value.wellFormed_array_iff] at hwf
      exact hwf w hw
    · exact htables.languages v hv vs hvs w hw
  have hsizes : ∀ sizes,
      Holds document "sizes" (Decodes decodeRange) Settings.default.sizes sizes ↔
        Holds document "sizes" (IsTable DescribesRange) Settings.default.sizes sizes :=
    fun sizes => holds_congr fun v hv => decodes_range_iff (hvalues _ hv) (htables.sizes v hv)
  have hchart : ∀ chart,
      Holds document "chart" (Decodes decodeChart) Settings.default.chart chart ↔
        Holds document "chart" (IsTable DescribesChart) Settings.default.chart chart :=
    fun chart => holds_congr fun v hv => decodes_chart_iff (hvalues _ hv) (htables.chart v hv)
  rw [decode_eq_ok_iff_read hkeys]
  constructor
  · rintro ⟨hknown, hl, hp, hs, ht, hd, he, hb, hx, hc⟩
    rw [decodes_text] at hp hd he
    rw [decodes_count] at ht
    rw [decodes_texts] at hb hx
    exact ⟨hknown, (hlanguages _).mp hl, hp, (hsizes _).mp hs, ht, hd, he, hb, hx,
      (hchart _).mp hc⟩
  · rintro ⟨hknown, hl, hp, hs, ht, hd, he, hb, hx, hc⟩
    rw [← decodes_text .path] at hp hd
    rw [← decodes_text .text] at he
    rw [← decodes_count .count] at ht
    rw [← decodes_texts .text] at hb hx
    exact ⟨hknown, (hlanguages _).mpr hl, hp, (hsizes _).mpr hs, ht, hd, he, hb, hx,
      (hchart _).mpr hc⟩

end TimeTrials.Settings
