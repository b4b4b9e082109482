import TimeTrials.Proofs.Settings.Order
import TimeTrials.Proofs.Toml.Documents
import TimeTrials.Settings.Load

/-!
# Decoding field by field

When a document decodes, and to what: exactly when its keys are known at every level, nothing that is
required is missing and every value is of its field's type and range (`Acceptable`); and then each field
has what its key says, or its default, on its own (`Describes`).  The keys may come in any order.

`Acceptable` is about the document alone.  That it is the existence of settings as `Describes` has them is
`acceptable_iff`, by the same statement for each kind of value and record.
-/

namespace TimeTrials.Settings

open Toml (Value Table parse? wellFormed_of_parse?)
open Toml.Value (Reordered reordered_of_perm wellFormed_array_iff wellFormed_integer_iff
  wellFormed_table_iff)

variable {α : Type} {entries document : Table} {key : String} {v : Value}
variable {has : Value → α → Prop} {p q : Value → Prop}

/-! ## Values and tables that can be decoded -/

/-- The value is of the type and range of what it should say. -/
def Fits (has : Value → α → Prop) (v : Value) : Prop := ∃ a, has v a

/-- The value is an array of such elements. -/
def ListOf (p : Value → Prop) (v : Value) : Prop := ∃ vs, v = .array vs ∧ ∀ w ∈ vs, p w

/-- The value is a table of such entries. -/
def TableOf (p : Table → Prop) (v : Value) : Prop := ∃ entries, v = .table entries ∧ p entries

/-- A range that can be decoded: both ends are there. -/
structure AcceptableRange (entries : Table) : Prop where
  known : KnownKeys ["start", "end"] entries
  start : Present entries "start" (Fits IsSize)
  stop : Present entries "end" (Fits IsSize)

/-- A language that can be decoded: its name and its command are there. -/
structure AcceptableLanguage (entries : Table) : Prop where
  known : KnownKeys ["name", "command", "color"] entries
  name : Present entries "name" (Fits IsText)
  command : Present entries "command" (ListOf (Fits IsText))
  color : IfPresent entries "color" (Fits IsColor)

/-- The look of the charts, where nothing has to be there. -/
structure AcceptableChart (entries : Table) : Prop where
  known : KnownKeys ["width", "trend_title", "bars_title"] entries
  width : IfPresent entries "width" (Fits IsCount)
  trendTitle : IfPresent entries "trend_title" (Fits IsText)
  barsTitle : IfPresent entries "bars_title" (Fits IsText)

/-- A document that can be decoded. -/
structure Acceptable (document : Table) : Prop where
  known : KnownKeys fields document
  languages : IfPresent document "languages" (ListOf (TableOf AcceptableLanguage))
  program : IfPresent document "program" (Fits IsText)
  sizes : IfPresent document "sizes" (TableOf AcceptableRange)
  trials : IfPresent document "trials" (Fits IsCount)
  benchmarkDir : IfPresent document "benchmark_dir" (Fits IsText)
  extension : IfPresent document "extension" (Fits IsText)
  benchmarks : IfPresent document "benchmarks" (ListOf (Fits IsText))
  excluded : IfPresent document "excluded" (ListOf (Fits IsText))
  chart : IfPresent document "chart" (TableOf AcceptableChart)

theorem exists_forall₂_iff {as : List Value} :
    (∃ bs, List.Forall₂ has as bs) ↔ ∀ w ∈ as, Fits has w := by
  induction as with
  | nil => exact iff_of_true ⟨[], .nil⟩ fun _ h => absurd h List.not_mem_nil
  | cons w rest ih =>
    rw [List.forall_mem_cons, ← ih]
    constructor
    · rintro ⟨_, h⟩
      obtain ⟨b, bs, hb, hbs, -⟩ := List.forall₂_cons_left_iff.mp h
      exact ⟨⟨b, hb⟩, bs, hbs⟩
    · rintro ⟨⟨b, hb⟩, bs, hbs⟩
      exact ⟨b :: bs, .cons hb hbs⟩

theorem fits_list_iff : Fits (IsList has) v ↔ ListOf (Fits has) v := by
  constructor
  · rintro ⟨as, vs, hv, hvs⟩
    exact ⟨vs, hv, exists_forall₂_iff.mp ⟨as, hvs⟩⟩
  · rintro ⟨vs, hv, hvs⟩
    obtain ⟨as, has⟩ := exists_forall₂_iff.mpr hvs
    exact ⟨as, vs, hv, has⟩

theorem fits_table_iff {told : Table → α → Prop} :
    Fits (IsTable told) v ↔ TableOf (fun entries => ∃ a, told entries a) v := by
  constructor
  · rintro ⟨a, entries, hv, ha⟩
    exact ⟨entries, hv, a, ha⟩
  · rintro ⟨entries, hv, a, ha⟩
    exact ⟨a, entries, hv, ha⟩

theorem tableOf_congr {p q : Table → Prop}
    (h : ∀ entries, v = .table entries → (p entries ↔ q entries)) : TableOf p v ↔ TableOf q v :=
  exists_congr fun entries => and_congr_right (h entries)

theorem listOf_congr (h : ∀ vs, v = .array vs → ∀ w ∈ vs, (p w ↔ q w)) : ListOf p v ↔ ListOf q v :=
  exists_congr fun vs => and_congr_right fun hv => forall₂_congr (h vs hv)

theorem exists_describesRange_iff :
    (∃ range, DescribesRange entries range) ↔ AcceptableRange entries := by
  constructor
  · rintro ⟨range, hknown, ⟨start, hstart, hs⟩, ⟨stop, hstop, he⟩⟩
    exact ⟨hknown, ⟨start, hstart, range.start, hs⟩, ⟨stop, hstop, range.stop, he⟩⟩
  · rintro ⟨hknown, ⟨start, hstart, a, ha⟩, ⟨stop, hstop, b, hb⟩⟩
    exact ⟨⟨a, b⟩, hknown, ⟨start, hstart, ha⟩, ⟨stop, hstop, hb⟩⟩

theorem exists_describesLanguage_iff (hkeys : (entries.map (·.1)).Nodup) :
    (∃ language, DescribesLanguage entries language) ↔ AcceptableLanguage entries := by
  have hcolor : (∃ color, Holds entries "color" (Given IsColor) none color) ↔
      IfPresent entries "color" (Fits IsColor) := by
    rw [exists_holds_iff hkeys]
    refine forall₂_congr fun v hv => ⟨?_, ?_⟩
    · rintro ⟨_, color, -, h⟩
      exact ⟨color, h⟩
    · rintro ⟨color, h⟩
      exact ⟨some color, color, rfl, h⟩
  constructor
  · rintro ⟨language, hknown, ⟨name, hname, hn⟩, ⟨command, hcommand, hc⟩, h⟩
    exact ⟨hknown, ⟨name, hname, language.name, hn⟩,
      ⟨command, hcommand, fits_list_iff.mp ⟨language.command, hc⟩⟩, hcolor.mp ⟨language.color, h⟩⟩
  · rintro ⟨hknown, ⟨name, hname, n, hn⟩, ⟨command, hcommand, hc⟩, h⟩
    obtain ⟨words, hwords⟩ := fits_list_iff.mpr hc
    obtain ⟨color, h⟩ := hcolor.mpr h
    exact ⟨⟨n, words, color⟩, hknown, ⟨name, hname, hn⟩, ⟨command, hcommand, hwords⟩, h⟩

theorem exists_describesChart_iff (hkeys : (entries.map (·.1)).Nodup) :
    (∃ chart, DescribesChart entries chart) ↔ AcceptableChart entries := by
  constructor
  · rintro ⟨chart, hknown, hwidth, htrend, hbars⟩
    exact ⟨hknown, (exists_holds_iff hkeys).mp ⟨_, hwidth⟩, (exists_holds_iff hkeys).mp ⟨_, htrend⟩,
      (exists_holds_iff hkeys).mp ⟨_, hbars⟩⟩
  · rintro ⟨hknown, hwidth, htrend, hbars⟩
    obtain ⟨width, hwidth⟩ := (exists_holds_iff hkeys).mpr hwidth
    obtain ⟨trend, htrend⟩ := (exists_holds_iff hkeys).mpr htrend
    obtain ⟨bars, hbars⟩ := (exists_holds_iff hkeys).mpr hbars
    exact ⟨⟨width, trend, bars⟩, hknown, hwidth, htrend, hbars⟩

/-- A document can be decoded exactly when there are settings that it describes. -/
theorem acceptable_iff (hdocument : (Value.table document).WellFormed) :
    Acceptable document ↔ ∃ settings, Describes document settings := by
  obtain ⟨hkeys, hvalues⟩ := wellFormed_table_iff.mp hdocument
  have hlanguages : IfPresent document "languages" (Fits (IsList (IsTable DescribesLanguage))) ↔
      IfPresent document "languages" (ListOf (TableOf AcceptableLanguage)) := by
    refine forall₂_congr fun v hv => ?_
    rw [fits_list_iff]
    refine listOf_congr fun vs hvs w hw => ?_
    rw [fits_table_iff]
    refine tableOf_congr fun entries hentries => exists_describesLanguage_iff ?_
    have hwf := hvalues _ hv
    rw [hvs, wellFormed_array_iff] at hwf
    exact (wellFormed_table_iff.mp (hentries ▸ hwf w hw)).1
  have hsizes : IfPresent document "sizes" (Fits (IsTable DescribesRange)) ↔
      IfPresent document "sizes" (TableOf AcceptableRange) := by
    refine forall₂_congr fun v hv => ?_
    rw [fits_table_iff]
    exact tableOf_congr fun entries _ => exists_describesRange_iff
  have hchart : IfPresent document "chart" (Fits (IsTable DescribesChart)) ↔
      IfPresent document "chart" (TableOf AcceptableChart) := by
    refine forall₂_congr fun v hv => ?_
    rw [fits_table_iff]
    exact tableOf_congr fun entries hentries =>
      exists_describesChart_iff (wellFormed_table_iff.mp (hentries ▸ hvalues _ hv)).1
  have htexts : ∀ key, IfPresent document key (Fits (IsList IsText)) ↔
      IfPresent document key (ListOf (Fits IsText)) :=
    fun key => forall₂_congr fun v _ => fits_list_iff
  constructor
  · rintro ⟨hknown, hl, hp, hs, ht, hd, he, hb, hx, hc⟩
    obtain ⟨languages, hl⟩ := (exists_holds_iff hkeys).mpr (hlanguages.mpr hl)
    obtain ⟨program, hp⟩ := (exists_holds_iff hkeys).mpr hp
    obtain ⟨sizes, hs⟩ := (exists_holds_iff hkeys).mpr (hsizes.mpr hs)
    obtain ⟨trials, ht⟩ := (exists_holds_iff hkeys).mpr ht
    obtain ⟨benchmarkDir, hd⟩ := (exists_holds_iff hkeys).mpr hd
    obtain ⟨extension, he⟩ := (exists_holds_iff hkeys).mpr he
    obtain ⟨benchmarks, hb⟩ := (exists_holds_iff hkeys).mpr ((htexts _).mpr hb)
    obtain ⟨excluded, hx⟩ := (exists_holds_iff hkeys).mpr ((htexts _).mpr hx)
    obtain ⟨chart, hc⟩ := (exists_holds_iff hkeys).mpr (hchart.mpr hc)
    exact ⟨⟨languages, program, sizes, trials, benchmarkDir, extension, benchmarks, excluded, chart⟩,
      hknown, hl, hp, hs, ht, hd, he, hb, hx, hc⟩
  · rintro ⟨settings, hknown, hl, hp, hs, ht, hd, he, hb, hx, hc⟩
    exact ⟨hknown, hlanguages.mp ((exists_holds_iff hkeys).mp ⟨_, hl⟩),
      (exists_holds_iff hkeys).mp ⟨_, hp⟩, hsizes.mp ((exists_holds_iff hkeys).mp ⟨_, hs⟩),
      (exists_holds_iff hkeys).mp ⟨_, ht⟩, (exists_holds_iff hkeys).mp ⟨_, hd⟩,
      (exists_holds_iff hkeys).mp ⟨_, he⟩, (htexts _).mp ((exists_holds_iff hkeys).mp ⟨_, hb⟩),
      (htexts _).mp ((exists_holds_iff hkeys).mp ⟨_, hx⟩),
      hchart.mp ((exists_holds_iff hkeys).mp ⟨_, hc⟩)⟩

/-! ## Documents -/

/-- Decoding is field by field.  A document that gives its range, its charts and its languages as tables
decodes exactly when its keys are known, nothing required is missing and its values are of their types and
ranges; it then decodes to the settings that have what it says where it says something and the default
everywhere else; and all of this does not depend on the order of its keys, at whatever depth. -/
theorem decode_is_fieldwise {document : Table} (hdocument : (Value.table document).WellFormed)
    (htables : GivenAsTables document) :
    ((∃ settings, decode document = .ok settings) ↔ Acceptable document) ∧
    (∀ settings, decode document = .ok settings ↔ Describes document settings) ∧
    ∀ document' settings, Reordered (.table document) (.table document') →
      (decode document' = .ok settings ↔ decode document = .ok settings) := by
  have hdecode : ∀ settings, decode document = .ok settings ↔ Describes document settings :=
    fun settings => decode_eq_ok_iff_describes hdocument htables
  refine ⟨?_, hdecode, ?_⟩
  · rw [acceptable_iff hdocument]
    exact exists_congr hdecode
  · intro document' settings h
    have hsame := h.sameTable
    rw [hdecode, decode_eq_ok_iff_describes (hdocument.reordered h) (htables.same hsame)]
    exact ⟨fun h' => h'.same h.symm.sameTable, fun h' => h'.same hsame⟩

/-- Some of the settings, with part of a chart and of a language. -/
def partialDocument : Table :=
  [("trials", .integer 2), ("chart", .table [("width", .integer 20)]),
    ("sizes", .table [("end", .integer 5), ("start", .integer 3)]),
    ("languages", .array [.table [("name", .string "clox"), ("command", .array [])]])]

theorem wellFormed_partialDocument : (Value.table partialDocument).WellFormed := by
  simp [partialDocument, wellFormed_table_iff, wellFormed_array_iff, wellFormed_integer_iff,
    Value.WellFormed.string]

theorem givenAsTables_partialDocument : GivenAsTables partialDocument where
  sizes v hv := by
    obtain rfl : v = .table [("end", .integer 5), ("start", .integer 3)] := by
      simpa [partialDocument] using hv
    rintro ⟨vs, h⟩
    cases h
  chart v hv := by
    obtain rfl : v = .table [("width", .integer 20)] := by simpa [partialDocument] using hv
    rintro ⟨vs, h⟩
    cases h
  languages v hv vs hvs w hw := by
    obtain rfl : vs = [.table [("name", .string "clox"), ("command", .array [])]] := by
      simpa [partialDocument, hvs] using hv
    obtain rfl := List.mem_singleton.mp hw
    rintro ⟨ws, h⟩
    cases h

theorem decode_is_fieldwise_of_partial :
    (Value.table partialDocument).WellFormed ∧ GivenAsTables partialDocument ∧
      Acceptable partialDocument ∧
      Reordered (.table partialDocument) (.table partialDocument.reverse) ∧
      decode partialDocument.reverse = .ok { Settings.default with
        trials := 2
        chart := { ChartSettings.default with width := 20 }
        sizes := ⟨3, 5⟩
        languages := [⟨"clox", [], none⟩] } := by
  obtain ⟨haccept, -, horder⟩ :=
    decode_is_fieldwise wellFormed_partialDocument givenAsTables_partialDocument
  have hreversed : Reordered (.table partialDocument) (.table partialDocument.reverse) :=
    reordered_of_perm (List.reverse_perm _).symm
  exact ⟨wellFormed_partialDocument, givenAsTables_partialDocument, haccept.mp ⟨_, rfl⟩, hreversed,
    (horder _ _ hreversed).mpr rfl⟩

/-- The same for a text: what it is read into is always well-formed. -/
theorem ofText_eq_ok_iff_describes {text : String} {document : Table}
    (hparse : parse? text = some document) (htables : GivenAsTables document) {settings : Settings} :
    ofText text = .ok settings ↔ Describes document settings := by
  rw [ofText, hparse, mapError_eq_ok_iff]
  exact decode_eq_ok_iff_describes (wellFormed_of_parse? hparse) htables

end TimeTrials.Settings
