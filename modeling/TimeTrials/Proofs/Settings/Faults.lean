import Mathlib.Data.List.Nodup
import TimeTrials.Proofs.Settings.Validation

/-!
# The first fault of settings

Settings can be unusable for several reasons at once, and only one of them is reported.  The languages are
looked at first, one after the other, and each of them has to pass both of its checks before the next one is
looked at.  So what decides is the first language that is at fault in either way, and not which way it is;
when it is at fault in both, it is the missing command that is reported.

* `FaultyAt`: a language at fault, by its place and without the names that the loop collects.
* `checkLanguages_of_rejected`, `checkLanguages_of_passed`: what the loop does with one language.
* `checkLanguages_eq_error_iff`: it stops at the first one that is at fault.
* `validate_eq_error_iff`: the fault of settings is their first one (`FirstFault`).
* `colorOf_of_mem`: settings that pass know each language by its name.
-/

namespace TimeTrials.Settings

/-! ## Languages at fault -/

/-- The language in a place is at fault: it has no command, or the name of one in an earlier place. -/
def FaultyAt (languages : List Language) (i : Nat) : Prop :=
  ∃ language, languages[i]? = some language ∧ (language.command = [] ∨
    ∃ j < i, ∃ earlier, languages[j]? = some earlier ∧ earlier.name = language.name)

/-- What is reported of a language that is at fault. -/
def faultOf (language : Language) : Fault :=
  if language.command = [] then .emptyCommand language.name else .configuredTwice language.name

theorem faultyAt_append_iff {before : List Language} {i : Nat} (h : i < before.length)
    (after : List Language) : FaultyAt (before ++ after) i ↔ FaultyAt before i := by
  have hearlier : ∀ j < i, (before ++ after)[j]? = before[j]? :=
    fun j hj => List.getElem?_append_left (Nat.lt_trans hj h)
  rw [FaultyAt, FaultyAt, List.getElem?_append_left h]
  refine exists_congr fun language => and_congr_right fun _ => or_congr_right ?_
  refine exists_congr fun j => and_congr_right fun hj => ?_
  rw [hearlier j hj]

theorem faultyAt_length_iff {before after : List Language} {language : Language} :
    FaultyAt (before ++ language :: after) before.length ↔
      language.command = [] ∨ language.name ∈ before.map (·.name) := by
  have hat : (before ++ language :: after)[before.length]? = some language := by simp
  rw [FaultyAt, hat]
  constructor
  · rintro ⟨_, ⟨⟩, hcommand | ⟨j, hj, earlier, hget, hname⟩⟩
    · exact .inl hcommand
    · rw [List.getElem?_append_left hj] at hget
      exact .inr (List.mem_map.mpr ⟨earlier, List.mem_of_getElem? hget, hname⟩)
  · rintro (hcommand | hmem)
    · exact ⟨language, rfl, .inl hcommand⟩
    · obtain ⟨earlier, hearlier, hname⟩ := List.mem_map.mp hmem
      obtain ⟨j, hj, hget⟩ := List.getElem_of_mem hearlier
      refine ⟨language, rfl, .inr ⟨j, hj, earlier, ?_, hname⟩⟩
      rw [List.getElem?_append_left hj, List.getElem?_eq_getElem hj, hget]

/-- None is at fault exactly when all have commands and names of their own. -/
theorem forall_not_faultyAt_iff {languages : List Language} :
    (∀ i, ¬ FaultyAt languages i) ↔
      (∀ language ∈ languages, language.command ≠ []) ∧ (languages.map (·.name)).Nodup := by
  rw [List.nodup_iff_getElem?_ne_getElem?]
  constructor
  · intro hnone
    refine ⟨fun language hmem hcommand => ?_, fun j i hji hi heq => ?_⟩
    · obtain ⟨i, hget⟩ := List.mem_iff_getElem?.mp hmem
      exact hnone i ⟨language, hget, .inl hcommand⟩
    · rw [List.length_map] at hi
      rw [List.getElem?_map, List.getElem?_map, List.getElem?_eq_getElem hi] at heq
      obtain ⟨earlier, hget, hname⟩ := Option.map_eq_some_iff.mp heq
      exact hnone i ⟨languages[i], List.getElem?_eq_getElem hi, .inr ⟨j, hji, earlier, hget, hname⟩⟩
  · rintro ⟨hcommands, hnames⟩ i ⟨language, hget, hcommand | ⟨j, hji, earlier, hearlier, hname⟩⟩
    · exact hcommands language (List.mem_of_getElem? hget) hcommand
    · obtain ⟨hi, -⟩ := List.getElem?_eq_some_iff.mp hget
      refine hnames j i hji (by rwa [List.length_map]) ?_
      rw [List.getElem?_map, List.getElem?_map, hget, hearlier, Option.map_some, Option.map_some, hname]

/-! ## The loop -/

section

variable {seen : List String} {language : Language}

theorem checkLanguages_of_rejected (h : language.command = [] ∨ language.name ∈ seen)
    (rest : List Language) : checkLanguages seen (language :: rest) = .error (faultOf language) := by
  rw [checkLanguages, faultOf]
  by_cases hcommand : language.command = []
  · rw [if_pos hcommand, if_pos (List.isEmpty_iff.mpr hcommand)]
  · rw [if_neg hcommand, if_neg (by rwa [List.isEmpty_iff]), if_pos (h.resolve_left hcommand)]

/-- A language that passes joins the names that the ones behind it are compared with. -/
theorem checkLanguages_of_passed (h : ¬ (language.command = [] ∨ language.name ∈ seen))
    (rest : List Language) :
    checkLanguages seen (language :: rest) = checkLanguages (language.name :: seen) rest := by
  obtain ⟨hcommand, hseen⟩ := not_or.mp h
  rw [checkLanguages, if_neg (by rwa [List.isEmpty_iff]), if_neg hseen]

end

/-- The loop stops at the first language without a command, or with a name that was seen before it. -/
theorem checkLanguages_eq_error_iff {seen : List String} {languages : List Language} {fault : Fault} :
    checkLanguages seen languages = .error fault ↔
      ∃ before language after, languages = before ++ language :: after ∧
        checkLanguages seen before = .ok () ∧ fault = faultOf language ∧
        (language.command = [] ∨ language.name ∈ seen ∨ language.name ∈ before.map (·.name)) := by
  -- a language that passes moves its name from those behind the loop's place to those seen
  induction languages generalizing seen with
  | nil =>
    refine iff_of_false (fun h => by cases h) ?_
    rintro ⟨before, language, after, heq, -⟩
    exact absurd heq (by simp)
  | cons first rest ih =>
    by_cases hfirst : first.command = [] ∨ first.name ∈ seen
    · rw [checkLanguages_of_rejected hfirst]
      constructor
      · intro h
        refine ⟨[], first, rest, rfl, rfl, (Except.error.inj h).symm, ?_⟩
        exact hfirst.imp_right .inl
      · rintro ⟨_ | ⟨_, before⟩, language, after, heq, hbefore, rfl, -⟩
        · obtain ⟨rfl, -⟩ := List.cons.inj heq
          rfl
        · obtain ⟨rfl, -⟩ := List.cons.inj heq
          rw [checkLanguages_of_rejected hfirst] at hbefore
          cases hbefore
    · rw [checkLanguages_of_passed hfirst, ih]
      constructor
      · rintro ⟨before, language, after, rfl, hbefore, rfl, hfaulty⟩
        refine ⟨first :: before, language, after, rfl, ?_, rfl, ?_⟩
        · rwa [checkLanguages_of_passed hfirst]
        · simp only [List.mem_cons, List.map_cons] at hfaulty ⊢
          tauto
      · rintro ⟨_ | ⟨_, before⟩, language, after, heq, hbefore, rfl, hfaulty⟩
        · obtain ⟨rfl, -⟩ := List.cons.inj heq
          refine absurd ?_ hfirst
          simpa using hfaulty
        · obtain ⟨rfl, rfl⟩ := List.cons.inj heq
          rw [checkLanguages_of_passed hfirst] at hbefore
          refine ⟨before, language, after, rfl, hbefore, rfl, ?_⟩
          simp only [List.mem_cons, List.map_cons] at hfaulty ⊢
          tauto

/-- With nothing seen, the names before a language are those in earlier places. -/
theorem checkLanguages_nil_eq_ok_iff {languages : List Language} :
    checkLanguages [] languages = .ok () ↔ ∀ i, ¬ FaultyAt languages i := by
  simp only [forall_not_faultyAt_iff, checkLanguages_eq_ok_iff, List.not_mem_nil, not_false_eq_true,
    and_true]

theorem checkLanguages_nil_eq_error_iff {languages : List Language} {fault : Fault} :
    checkLanguages [] languages = .error fault ↔
      ∃ i language, languages[i]? = some language ∧ FaultyAt languages i ∧
        (∀ j < i, ¬ FaultyAt languages j) ∧ fault = faultOf language := by
  rw [checkLanguages_eq_error_iff]
  constructor
  · rintro ⟨before, language, after, rfl, hbefore, rfl, hfaulty⟩
    refine ⟨before.length, language, by simp, ?_, fun j hj => ?_, rfl⟩
    · rw [faultyAt_length_iff]
      simpa using hfaulty
    · rw [faultyAt_append_iff hj]
      exact checkLanguages_nil_eq_ok_iff.mp hbefore j
  · rintro ⟨i, language, hget, hfaulty, hfirst, rfl⟩
    obtain ⟨before, after, rfl, rfl⟩ : ∃ before after,
        languages = before ++ language :: after ∧ before.length = i := by
      obtain ⟨hi, rfl⟩ := List.getElem?_eq_some_iff.mp hget
      refine ⟨languages.take i, languages.drop (i + 1), ?_, List.length_take_of_le (Nat.le_of_lt hi)⟩
      rw [← List.drop_eq_getElem_cons hi, List.take_append_drop]
    refine ⟨before, language, after, rfl, checkLanguages_nil_eq_ok_iff.mpr fun j hj => ?_, rfl, ?_⟩
    · have hlt : j < before.length := by
        obtain ⟨_, hget, -⟩ := hj
        exact (List.getElem?_eq_some_iff.mp hget).1
      exact hfirst j hlt ((faultyAt_append_iff hlt _).mpr hj)
    · simpa using faultyAt_length_iff.mp hfaulty

/-! ## The first fault -/

/-- What is wrong with settings before anything else is: the languages come first, and among them the first
one that is at fault. -/
inductive FirstFault (settings : Settings) : Fault → Prop
  | noLanguages (hnone : settings.languages = []) : FirstFault settings .noLanguages
  | language {i : Nat} {language : Language} (hat : settings.languages[i]? = some language)
      (hfaulty : FaultyAt settings.languages i) (hfirst : ∀ j < i, ¬ FaultyAt settings.languages j) :
      FirstFault settings (faultOf language)
  | emptyRange (hsome : settings.languages ≠ []) (hsound : ∀ i, ¬ FaultyAt settings.languages i)
      (hrange : settings.sizes.stop ≤ settings.sizes.start) :
      FirstFault settings (.emptyRange settings.sizes)
  | noWidth (hsome : settings.languages ≠ []) (hsound : ∀ i, ¬ FaultyAt settings.languages i)
      (hrange : settings.sizes.start < settings.sizes.stop) (hwidth : settings.chart.width = 0) :
      FirstFault settings .noWidth

/-- The fault of settings is their first one. -/
theorem validate_eq_error_iff {settings : Settings} {fault : Fault} :
    settings.validate = .error fault ↔ settings.FirstFault fault := by
  have hwidth : (if settings.chart.width = 0 then throw Fault.noWidth else pure () :
      Except Fault Unit) = .error fault ↔ settings.chart.width = 0 ∧ Fault.noWidth = fault := by
    split_ifs with h
    · exact ⟨fun heq => ⟨h, Except.error.inj heq⟩, fun heq => congrArg Except.error heq.2⟩
    · exact iff_of_false (fun heq => by cases heq) fun heq => h heq.1
  rw [validate, guard_eq_error_iff, bind_eq_error_iff, List.isEmpty_iff]
  simp only [guard_eq_error_iff, hwidth, checkLanguages_nil_eq_error_iff]
  constructor
  · rintro (⟨hnone, rfl⟩ | ⟨hsome, ⟨i, language, hat, hfaulty, hfirst, rfl⟩ | ⟨⟨⟩, hcheck, hrest⟩⟩)
    · exact .noLanguages hnone
    · exact .language hat hfaulty hfirst
    · have hsound := checkLanguages_nil_eq_ok_iff.mp hcheck
      rcases hrest with ⟨hrange, rfl⟩ | ⟨hrange, hzero, rfl⟩
      · exact .emptyRange hsome hsound hrange
      · exact .noWidth hsome hsound (UInt64.not_le.mp hrange) hzero
  · rintro (hnone | ⟨hat, hfaulty, hfirst⟩ | ⟨hsome, hsound, hrange⟩ | ⟨hsome, hsound, hrange, hzero⟩)
    · exact .inl ⟨hnone, rfl⟩
    · have hsome : settings.languages ≠ [] := by
        intro hnone
        rw [hnone] at hat
        cases hat
      exact .inr ⟨hsome, .inl ⟨_, _, hat, hfaulty, hfirst, rfl⟩⟩
    · have hcheck := checkLanguages_nil_eq_ok_iff.mpr hsound
      exact .inr ⟨hsome, .inr ⟨(), hcheck, .inl ⟨hrange, rfl⟩⟩⟩
    · have hcheck := checkLanguages_nil_eq_ok_iff.mpr hsound
      exact .inr ⟨hsome, .inr ⟨(), hcheck, .inr ⟨UInt64.not_le.mpr hrange, hzero, rfl⟩⟩⟩

/-! ## Settings that pass -/

/-- Where names differ, a language is found by its name. -/
theorem colorOf_of_mem {settings : Settings} (hnames : (settings.languages.map (·.name)).Nodup)
    {language : Language} (hmem : language ∈ settings.languages) (index : Nat) :
    settings.colorOf language.name index = language.color.getD (.ofIndex index) := by
  obtain ⟨found, hfind⟩ : ∃ found, settings.languages.find? (·.name == language.name) = some found :=
    Option.isSome_iff_exists.mp (List.find?_isSome.mpr ⟨language, hmem, beq_self_eq_true _⟩)
  have hname : found.name = language.name := eq_of_beq (List.find?_some hfind :)
  obtain rfl := List.inj_on_of_nodup_map hnames (List.mem_of_find?_eq_some hfind) hmem hname
  rw [colorOf, hfind]
  rfl

/-- **Settings pass when they are usable, and otherwise their first fault is reported.**  In settings that
pass, a language with a colour of its own has this colour in whatever place it is drawn. -/
theorem validate_reports_first_fault (settings : Settings) :
    (settings.validate = .ok () ↔ settings.Usable) ∧
      (∀ fault, settings.validate = .error fault ↔ settings.FirstFault fault) ∧
      (settings.validate = .ok () → ∀ language ∈ settings.languages, ∀ color,
        language.color = some color → ∀ index, settings.colorOf language.name index = color) := by
  refine ⟨validate_eq_ok_iff, fun _ => validate_eq_error_iff, ?_⟩
  intro hvalid language hmem color hcolor index
  rw [colorOf_of_mem (validate_eq_ok_iff.mp hvalid).nodup_names hmem, hcolor]
  rfl

/-- Everything is wrong with the first settings except that there are languages.  The second of these is the
first at fault, though it has a name of its own, and the third one has no command either. -/
theorem validate_reports_first_fault_of_many :
    let broken : Settings := { default with
      languages := [⟨"a", ["a"], none⟩, ⟨"b", [], none⟩, ⟨"a", [], none⟩]
      sizes := ⟨5, 3⟩
      chart := { ChartSettings.default with width := 0 } }
    broken.FirstFault (.emptyCommand "b") ∧ ¬ broken.Usable ∧ default.Usable ∧
      ∀ index, default.colorOf "jlox" index = .blue := by
  intro broken
  have hbroken : broken.validate = .error (.emptyCommand "b") := rfl
  have hvalid : default.validate = .ok () := rfl
  have hmem : ⟨"jlox", ["../../craftinginterpreters/jlox"], some .blue⟩ ∈ default.languages :=
    List.mem_cons_of_mem _ List.mem_cons_self
  obtain ⟨husable, hfault, -⟩ := validate_reports_first_fault broken
  obtain ⟨husable', -, hcolors⟩ := validate_reports_first_fault default
  refine ⟨(hfault _).mp hbroken, fun h => ?_, husable'.mp hvalid, hcolors hvalid _ hmem .blue rfl⟩
  rw [husable.mpr h] at hbroken
  cases hbroken

end TimeTrials.Settings
