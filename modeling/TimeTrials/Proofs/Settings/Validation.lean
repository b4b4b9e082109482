import TimeTrials.Proofs.Results
import TimeTrials.Settings.Basic

/-!
# Usable settings

`Settings.validate` goes through its checks one after the other; what it comes to when all of them pass
is said here once (`Settings.Usable`), and later files take what they need from that.
-/

namespace TimeTrials.Settings

/-- What settings have to be like. -/
structure Usable (settings : Settings) : Prop where
  languages_ne_nil : settings.languages ≠ []
  command_ne_nil : ∀ language ∈ settings.languages, language.command ≠ []
  nodup_names : (settings.languages.map (·.name)).Nodup
  start_lt_stop : settings.sizes.start < settings.sizes.stop
  width_ne_zero : settings.chart.width ≠ 0

/-- The languages pass when each has a command and a name that neither an earlier one has nor one that
was seen before. -/
theorem checkLanguages_eq_ok_iff {seen : List String} {languages : List Language} :
    checkLanguages seen languages = .ok () ↔
      (∀ language ∈ languages, language.command ≠ [] ∧ language.name ∉ seen) ∧
        (languages.map (·.name)).Nodup := by
  induction languages generalizing seen with
  | nil => exact iff_of_true rfl ⟨by simp, List.nodup_nil⟩
  | cons language rest ih =>
    rw [checkLanguages, List.forall_mem_cons, List.map_cons, List.nodup_cons]
    by_cases hcommand : language.command = []
    · rw [if_pos (by rw [hcommand]; rfl)]
      refine iff_of_false (by simp) ?_
      rintro ⟨⟨⟨hne, -⟩, -⟩, -⟩
      exact hne hcommand
    · rw [if_neg (by rwa [List.isEmpty_iff])]
      by_cases hseen : language.name ∈ seen
      · rw [if_pos hseen]
        refine iff_of_false (by simp) ?_
        rintro ⟨⟨⟨-, hnot⟩, -⟩, -⟩
        exact hnot hseen
      · rw [if_neg hseen, ih]
        simp only [List.mem_cons, not_or, List.mem_map, not_exists, not_and]
        constructor
        · rintro ⟨hrest, hnodup⟩
          exact ⟨⟨⟨hcommand, hseen⟩, fun l hl => ⟨(hrest l hl).1, (hrest l hl).2.2⟩⟩,
            fun l hl => (hrest l hl).2.1, hnodup⟩
        · rintro ⟨⟨-, hrest⟩, hnew, hnodup⟩
          exact ⟨fun l hl => ⟨(hrest l hl).1, hnew l hl, (hrest l hl).2⟩, hnodup⟩

/-- Settings pass exactly when they are usable. -/
theorem validate_eq_ok_iff {settings : Settings} :
    settings.validate = .ok () ↔ settings.Usable := by
  have hwidth : (if settings.chart.width = 0 then throw Fault.noWidth else pure () :
      Except Fault Unit) = .ok () ↔ settings.chart.width ≠ 0 := by
    by_cases h : settings.chart.width = 0
    · rw [if_pos h]
      exact iff_of_false (fun heq => by cases heq) fun hne => hne h
    · rw [if_neg h]
      exact iff_of_true rfl h
  rw [validate, guard_eq_ok_iff, bind_eq_ok_iff, List.isEmpty_iff]
  simp only [guard_eq_ok_iff, hwidth, UInt64.not_le]
  constructor
  · rintro ⟨hne, ⟨⟩, hcheck, hrange, hwidth⟩
    obtain ⟨hlanguages, hnames⟩ := checkLanguages_eq_ok_iff.mp hcheck
    exact ⟨hne, fun language h => (hlanguages language h).1, hnames, hrange, hwidth⟩
  · rintro ⟨hne, hcommands, hnames, hrange, hwidth⟩
    refine ⟨hne, (), checkLanguages_eq_ok_iff.mpr ⟨?_, hnames⟩, hrange, hwidth⟩
    exact fun language h => ⟨hcommands language h, List.not_mem_nil⟩

end TimeTrials.Settings
