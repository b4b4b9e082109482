import Mathlib.Data.List.GetD
import Mathlib.Data.List.Perm.Subperm
import TimeTrials.Proofs.Chart.Categories
import TimeTrials.Proofs.Chart.Points

/-!
# The colours of languages

A language is drawn in its own colour if the settings give it one, and otherwise in the colour that the
palette has for its place in the chart.  Two own colours differ if those in the settings do, and two colours
of the palette differ as long as there are no more languages than colours.  But the palette is asked for a
place without a look at the settings, and so it may hand out the own colour of another language.  That is
the only way in which two languages of a chart come to the same colour (`Settings.PaletteClash`).

Trend charts order languages by name and bar charts by first occurrence, so that the same trials may have a
clash in one of them and none in the other.

* `Settings.eq_of_ownColor?`, `Color.eq_of_ofIndex_eq`: colours of one kind do not clash.
* `Settings.nodup_colors_iff`: nor do colours of two kinds, but for the one case.
* `nodup_colors_iff_not_paletteClash`: both charts of trials.
* `exists_equal_colors`: six languages, five of them with a colour of their own, and a clash.
-/

namespace TimeTrials

/-! ## The palette -/

namespace Color

theorem nodup_palette : palette.Nodup := by decide

theorem ofIndex_of_lt {index : Nat} (h : index < palette.length) : ofIndex index = palette[index] := by
  rw [ofIndex, Nat.mod_eq_of_lt h, List.getD_eq_getElem _ _ h]

/-- The palette does not repeat itself before its end. -/
theorem eq_of_ofIndex_eq {i j : Nat} (hi : i < palette.length) (hj : j < palette.length)
    (h : ofIndex i = ofIndex j) : i = j := by
  rw [ofIndex_of_lt hi, ofIndex_of_lt hj] at h
  exact nodup_palette.getElem_inj_iff.mp h

end Color

/-! ## Own colours -/

namespace Settings

/-- The colours that the settings give to languages. -/
def ownColors (settings : Settings) : List Color := settings.languages.filterMap (·.color)

/-- The colour that the settings give to a language, if they know it and give it one. -/
def ownColor? (settings : Settings) (lang : String) : Option Color :=
  (settings.languages.find? (·.name == lang)).bind (·.color)

theorem colorOf_eq (settings : Settings) (lang : String) (index : Nat) :
    settings.colorOf lang index = (settings.ownColor? lang).getD (.ofIndex index) := rfl

/-- The palette has the own colour of one language for the place of another, which has none. -/
def PaletteClash (settings : Settings) (langs : List String) : Prop :=
  ∃ (place : Nat) (lang : String), langs[place]? = some lang ∧ settings.ownColor? lang = none ∧
    ∃ other ∈ langs, settings.ownColor? other = some (.ofIndex place)

/-- The language that an own colour is found with. -/
theorem exists_of_ownColor? {settings : Settings} {lang : String} {color : Color}
    (h : settings.ownColor? lang = some color) :
    ∃ language ∈ settings.languages, language.name = lang ∧ language.color = some color := by
  obtain ⟨language, hfind, hcolor⟩ := Option.bind_eq_some_iff.mp h
  have hname := List.find?_some hfind
  exact ⟨language, List.mem_of_find?_eq_some hfind, eq_of_beq hname, hcolor⟩

variable {settings : Settings} (hcolors : settings.ownColors.Nodup)

include hcolors

/-- A colour is given to one language at most. -/
theorem eq_of_ownColor? {lang lang' : String} {color : Color}
    (h : settings.ownColor? lang = some color) (h' : settings.ownColor? lang' = some color) :
    lang = lang' := by
  obtain ⟨language, hmem, rfl, hcolor⟩ := exists_of_ownColor? h
  obtain ⟨language', hmem', rfl, hcolor'⟩ := exists_of_ownColor? h'
  have hdiffer : settings.languages.Pairwise fun a b =>
      ∀ c, a.color = some c → ∀ c', b.color = some c' → c ≠ c' := List.pairwise_filterMap.mp hcolors
  have hsymm : Std.Symm fun a b : Language =>
      ∀ c, a.color = some c → ∀ c', b.color = some c' → c ≠ c' :=
    ⟨fun a b hab c hc c' hc' => (hab c' hc' c hc).symm⟩
  by_contra hne
  have hlanguage : language ≠ language' := fun heq => hne (congrArg Language.name heq)
  exact hdiffer.forall hmem hmem' hlanguage color hcolor color hcolor' rfl

/-- Two languages in different places have the same colour only if one of them has it from the palette and
the other one has it as its own. -/
theorem colorOf_eq_colorOf_iff {lang lang' : String} (hlang : lang ≠ lang') {i j : Nat}
    (hi : i < Color.palette.length) (hj : j < Color.palette.length) (hij : i ≠ j) :
    settings.colorOf lang i = settings.colorOf lang' j ↔
      (settings.ownColor? lang = none ∧ settings.ownColor? lang' = some (.ofIndex i)) ∨
        (settings.ownColor? lang' = none ∧ settings.ownColor? lang = some (.ofIndex j)) := by
  rw [colorOf_eq, colorOf_eq]
  cases hown : settings.ownColor? lang with
  | none =>
    cases hown' : settings.ownColor? lang' with
    | none =>
      have hne : Color.ofIndex i ≠ Color.ofIndex j := fun h => hij (Color.eq_of_ofIndex_eq hi hj h)
      simp [hne]
    | some color' => simp [eq_comm]
  | some color =>
    cases hown' : settings.ownColor? lang' with
    | none => simp
    | some color' =>
      have hne : color ≠ color' := by
        rintro rfl
        exact hlang (eq_of_ownColor? hcolors hown hown')
      simp [hne]

theorem nodup_colors_iff {langs : List String} (hlangs : langs.Nodup)
    (hfew : langs.length ≤ Color.palette.length) :
    (langs.mapIdx fun i lang => settings.colorOf lang i).Nodup ↔ ¬ settings.PaletteClash langs := by
  have hsame (i j : Nat) (hi : i < langs.length) (hj : j < langs.length) (hij : i ≠ j) :=
    colorOf_eq_colorOf_iff hcolors (fun heq => hij (hlangs.getElem_inj_iff.mp heq) : langs[i] ≠ langs[j])
      (hi.trans_le hfew) (hj.trans_le hfew) hij
  constructor
  · rintro hnodup ⟨i, lang, hlang, hnone, other, hother, hown⟩
    obtain ⟨hi, rfl⟩ := List.getElem?_eq_some_iff.mp hlang
    obtain ⟨j, hj, rfl⟩ := List.getElem_of_mem hother
    have hij : i ≠ j := by
      rintro rfl
      rw [hnone] at hown
      cases hown
    have hi' : i < (langs.mapIdx fun i lang => settings.colorOf lang i).length := by simpa
    have hj' : j < (langs.mapIdx fun i lang => settings.colorOf lang i).length := by simpa
    refine hij ((@List.Nodup.getElem_inj_iff _ _ hnodup i hi' j hj').mp ?_)
    rw [List.getElem_mapIdx, List.getElem_mapIdx]
    exact (hsame i j hi hj hij).mpr (.inl ⟨hnone, hown⟩)
  · intro hclash
    refine List.nodup_iff_injective_getElem.mpr fun ⟨i, hi⟩ ⟨j, hj⟩ heq => Fin.ext ?_
    rw [List.length_mapIdx] at hi hj
    simp only [List.getElem_mapIdx] at heq
    by_contra hij
    rcases (hsame i j hi hj hij).mp heq with ⟨hnone, hown⟩ | ⟨hnone, hown⟩
    · exact hclash ⟨i, _, List.getElem?_eq_getElem hi, hnone, _, List.getElem_mem hj, hown⟩
    · exact hclash ⟨j, _, List.getElem?_eq_getElem hj, hnone, _, List.getElem_mem hi, hown⟩

end Settings

/-! ## Charts of trials -/

namespace Chart

/-- A chart has no more languages than its trials. -/
theorem length_le_of_langs {langs : List String} {trials : List Trial} (hlangs : langs.Nodup)
    (hmem : ∀ lang ∈ langs, ∃ trial ∈ trials, trial.lang = lang) :
    langs.length ≤ (trials.map (·.lang)).eraseDups.length := by
  refine (hlangs.subperm fun lang hlang => ?_).length_le
  obtain ⟨trial, htrial, rfl⟩ := hmem lang hlang
  exact List.mem_eraseDups.mpr (List.mem_map_of_mem htrial)

section

variable {settings : Settings} {trials : List Trial} {minSize : Option UInt64}

theorem Trend.map_color_series : (ofTrials settings trials minSize).series.map (·.color) =
    ((ofTrials settings trials minSize).series.map (·.lang)).mapIdx
      fun i lang => settings.colorOf lang i := by
  rw [map_lang_series]
  exact map_mapIdx _ _ _

theorem Trend.nodup_langs : ((ofTrials settings trials minSize).series.map (·.lang)).Nodup := by
  rw [map_lang_series]
  exact (Statistics.pairwise_languages _).imp fun hlt => hlt.ne

theorem Bars.map_color_series : (ofTrials settings trials).series.map (·.color) =
    ((ofTrials settings trials).series.map (·.lang)).mapIdx
      fun i lang => settings.colorOf lang i := by
  rw [map_lang_series]
  exact map_mapIdx _ _ _

theorem Bars.nodup_langs : ((ofTrials settings trials).series.map (·.lang)).Nodup := by
  rw [map_lang_series]
  exact nodup_eraseDups _

theorem Bars.exists_of_mem_langs {lang : String}
    (h : lang ∈ (ofTrials settings trials).series.map (·.lang)) :
    ∃ trial ∈ trials, trial.lang = lang := by
  rw [map_lang_eq, List.mem_eraseDups] at h
  obtain ⟨trial, htrial, hlang⟩ := List.mem_map.mp h
  exact ⟨trial, (mem_remaining_iff.mp htrial).1, hlang⟩

end

/-- **The languages of a chart have different colours**, unless one of them has no colour of its own and
the palette has the own colour of another one for its place.  This is so of both charts of trials with at
most six languages, when the colours in the settings differ. -/
theorem nodup_colors_iff_not_paletteClash {settings : Settings} {trials : List Trial}
    (hcolors : settings.ownColors.Nodup) (hfew : (trials.map (·.lang)).eraseDups.length ≤ 6)
    (minSize : Option UInt64) :
    let trend := Trend.ofTrials settings trials minSize
    let bars := Bars.ofTrials settings trials
    ((trend.series.map (·.color)).Nodup ↔ ¬ settings.PaletteClash (trend.series.map (·.lang))) ∧
      ((bars.series.map (·.color)).Nodup ↔ ¬ settings.PaletteClash (bars.series.map (·.lang))) := by
  intro trend bars
  constructor
  · have hmem : ∀ lang ∈ trend.series.map (·.lang), ∃ trial ∈ trials, trial.lang = lang := by
      intro lang hlang
      obtain ⟨trial, htrial, heq, -⟩ := Trend.mem_langs_iff.mp hlang
      exact ⟨trial, htrial, heq⟩
    rw [Trend.map_color_series]
    exact Settings.nodup_colors_iff hcolors Trend.nodup_langs
      ((length_le_of_langs Trend.nodup_langs hmem).trans hfew)
  · have hmem : ∀ lang ∈ bars.series.map (·.lang), ∃ trial ∈ trials, trial.lang = lang :=
      fun lang => Bars.exists_of_mem_langs
    rw [Bars.map_color_series]
    exact Settings.nodup_colors_iff hcolors Bars.nodup_langs
      ((length_le_of_langs Bars.nodup_langs hmem).trans hfew)

/-- A language without a colour of its own: in one chart it comes second and is blue, in the other one it
comes first and is red, which is the own colour of the other language. -/
theorem nodup_colors_iff_of_two_orders :
    let trials : List Trial := [⟨"zlox", .size 1, .ofNat 1⟩, ⟨"rubylox", .size 1, .ofNat 1⟩]
    let trend := Trend.ofTrials .default trials none
    let bars := Bars.ofTrials .default trials
    Settings.default.ownColors.Nodup ∧ (trials.map (·.lang)).eraseDups.length ≤ 6 ∧
      trend.series.map (·.color) = [.red, .blue] ∧
      ¬ Settings.default.PaletteClash (trend.series.map (·.lang)) ∧
      bars.series.map (·.color) = [.red, .red] ∧
      Settings.default.PaletteClash (bars.series.map (·.lang)) := by
  intro trials trend bars
  have hcolors : Settings.default.ownColors.Nodup := by decide
  have hfew : (trials.map (·.lang)).eraseDups.length ≤ 6 := by decide
  obtain ⟨htrend, hbars⟩ := nodup_colors_iff_not_paletteClash hcolors hfew none
  have hblue : trend.series.map (·.color) = [.red, .blue] := by decide +kernel
  have hred : bars.series.map (·.color) = [.red, .red] := by decide +kernel
  refine ⟨hcolors, hfew, hblue, htrend.mp ?_, hred, not_not.mp fun hclash => ?_⟩
  · rw [hblue]
    decide
  · have hnodup := hbars.mpr hclash
    rw [hred] at hnodup
    revert hnodup
    decide

/-- Six languages, and five colours among those of the settings: in both charts the sixth language comes
first, and the palette does not give it the colour that is left. -/
theorem exists_equal_colors :
    let settings : Settings := { Settings.default with
      languages := [⟨"b", ["b"], some .red⟩, ⟨"c", ["c"], some .blue⟩, ⟨"d", ["d"], some .green⟩,
        ⟨"e", ["e"], some .yellow⟩, ⟨"f", ["f"], some .magenta⟩] }
    let trialsOn (param : Param) : List Trial :=
      ["a", "b", "c", "d", "e", "f"].map fun lang => ⟨lang, param, .ofNat 1⟩
    settings.validate = .ok () ∧ settings.ownColors.Nodup ∧
      (∀ param, ((trialsOn param).map (·.lang)).eraseDups.length ≤ 6) ∧
      ¬ ((Trend.ofTrials settings (trialsOn (.size 1)) none).series.map (·.color)).Nodup ∧
      ¬ ((Bars.ofTrials settings (trialsOn (.benchmark "zoo"))).series.map (·.color)).Nodup := by
  intro settings trialsOn
  refine ⟨by decide, by decide, fun param => ?_, by decide +kernel, by decide +kernel⟩
  show ["a", "b", "c", "d", "e", "f"].eraseDups.length ≤ 6
  decide

end Chart
end TimeTrials
