import TimeTrials.Proofs.Number.Fixed
import TimeTrials.Proofs.Summary.Rows

/-!
# The rules of the summary

A rule closes the rows of a language, and one expects it to be as wide as the widest of them
(`Underlines`).  What it is made from is the last row alone, and from the bytes of that row.  So there are
two ways in which it can be off.

* Only the first row names the language.  If the name is too long for its column, the first row is wider
  than the others, and the rule is too short.  The same goes for a long benchmark in any row but the last.
* Names are filled up by characters.  Each further byte of a character in the last row makes the rule longer
  by one, and it is too long.

Numbers have single bytes only, so the further bytes are those of the two names in the row.

* `extraBytes_groupRow`: the bytes of a row.
* `getLast?_languageRows`: the last row of a block.
* `length_closing_rule`: how wide a rule is, and when it is right.
* `not_underlines_block`: a rule that is too short, and one that is too long.
-/

namespace TimeTrials.Summary

open Text (extraBytes repeated)

/-- A rule as wide as the widest of some rows. -/
structure Underlines (rows : List String) (closing : String) : Prop where
  covers : ∀ row ∈ rows, row.length ≤ closing.length
  reached : ∃ row ∈ rows, row.length = closing.length

instance (rows : List String) (closing : String) : Decidable (Underlines rows closing) :=
  decidable_of_iff ((∀ row ∈ rows, row.length ≤ closing.length) ∧
    ∃ row ∈ rows, row.length = closing.length)
    ⟨fun h => ⟨h.1, h.2⟩, fun h => ⟨h.covers, h.reached⟩⟩

/-- A rule as wide as one of the rows is as wide as the widest of them if it is this one. -/
theorem underlines_iff {rows : List String} {row closing : String} (hmem : row ∈ rows)
    (hlength : closing.length = row.length) :
    Underlines rows closing ↔ ∀ other ∈ rows, other.length ≤ row.length := by
  rw [← hlength]
  exact ⟨Underlines.covers, fun h => ⟨h, row, hmem, hlength.symm⟩⟩

/-! ## The bytes of a row -/

theorem extraBytes_toString (n : Nat) : extraBytes (toString n) = 0 := by
  have htext : (toString n).toList = Number.digitsOf n := Nat.toList_repr
  refine Text.extraBytes_eq_zero fun c hc => Number.utf8Size_of_isDigit ?_
  rw [htext] at hc
  exact Number.isDigits_digitsOf n c hc

theorem extraBytes_fixed (x : Number.Binary64) (places : Nat) : extraBytes (x.fixed places) = 0 :=
  Text.extraBytes_eq_zero fun _ hc => Number.Binary64.utf8Size_of_mem_fixed hc

/-- The further bytes of a row are those of its two names. -/
theorem extraBytes_groupRow (label : String) (param : Param) (aggregate : Aggregate) :
    extraBytes (groupRow label param aggregate) = extraBytes label + extraBytes param.text := by
  have hgap : extraBytes gap = 0 := by decide
  simp only [groupRow, row, labels, List.take_succ_cons, List.take_zero, List.drop_succ_cons,
    List.drop_zero, List.map_cons, List.map_nil, List.cons_append, List.nil_append,
    String.intercalate_cons_cons, String.intercalate_singleton, Text.extraBytes_append,
    Text.extraBytes_flushLeft, Text.extraBytes_flushRight, extraBytes_toString, extraBytes_fixed,
    hgap, Nat.add_zero]

theorem length_rule (mark : Char) (row : String) :
    (rule mark row).length = row.length + extraBytes row := by
  rw [rule, Text.length_repeated, Text.length_add_extraBytes]

/-! ## The rows of a block -/

theorem languageRows_cons (lang : String) (entry : Param × Aggregate)
    (rest : List (Param × Aggregate)) : languageRows lang (entry :: rest) =
      groupRow lang entry.1 entry.2 :: rest.map fun entry => groupRow "" entry.1 entry.2 := rfl

/-- The label of the last row: the language, if there is no other row. -/
def lastLabel (lang : String) (before : List (Param × Aggregate)) : String :=
  if before.isEmpty then lang else ""

theorem getLast?_languageRows (lang : String) (before : List (Param × Aggregate))
    (last : Param × Aggregate) : (languageRows lang (before ++ [last])).getLast? =
      some (groupRow (lastLabel lang before) last.1 last.2) := by
  cases before with
  | nil => rfl
  | cons first rest =>
    rw [List.cons_append, languageRows_cons, List.map_append, List.map_singleton,
      ← List.cons_append, List.getLast?_concat]
    rfl

theorem exists_of_mem_languageRows {lang row : String} {entries : List (Param × Aggregate)}
    (h : row ∈ languageRows lang entries) :
    ∃ label, (label = lang ∨ label = "") ∧ ∃ entry ∈ entries, row = groupRow label entry.1 entry.2 := by
  cases entries with
  | nil => exact absurd h List.not_mem_nil
  | cons first rest =>
    rw [languageRows_cons] at h
    rcases List.mem_cons.mp h with rfl | hrest
    · exact ⟨lang, .inl rfl, first, List.mem_cons_self, rfl⟩
    · obtain ⟨entry, hentry, rfl⟩ := List.mem_map.mp hrest
      exact ⟨"", .inr rfl, entry, List.mem_cons_of_mem _ hentry, rfl⟩

/-- Rows of a block in which every cell fits are all of one width. -/
theorem length_of_mem_languageRows {lang : String} {entries : List (Param × Aggregate)}
    (hcells : ∀ entry ∈ entries, ∀ cell ∈ groupCells lang (keyed lang entry),
      cell.length ≤ columnWidth) {row : String} (h : row ∈ languageRows lang entries) :
    row.length = 88 := by
  obtain ⟨label, hlabel, entry, hentry, rfl⟩ := exists_of_mem_languageRows h
  obtain ⟨hlang, hothers⟩ := List.forall_mem_cons.mp (hcells entry hentry)
  have hfits : ∀ cell ∈ groupCells label (keyed lang entry), cell.length ≤ columnWidth := by
    refine List.forall_mem_cons.mpr ⟨?_, hothers⟩
    rcases hlabel with rfl | rfl
    · exact hlang
    · exact Nat.zero_le _
  exact length_row_of_five hfits rfl

/-! ## The rule of a block -/

/-- **The rule that closes a block is as wide as its last row**, and wider by one for each further byte of
the names in that row.  When they have single bytes only, the rule is as wide as the widest row just if this
is the last one, as it is when all cells fit their columns. -/
theorem length_closing_rule {trials : List Trial} {lang : String}
    (hlang : lang ∈ (Statistics.ofTrials trials).languages) :
    let entries := (Statistics.ofTrials trials).ofLanguage lang
    let rows := languageRows lang entries
    ∃ before param aggregate, entries = before ++ [(param, aggregate)] ∧
      let label := lastLabel lang before
      let last := groupRow label param aggregate
      let closing := rule '-' last
      rows.getLast? = some last ∧ block lang entries = rows ++ [closing] ∧
        closing.length = last.length + (extraBytes label + extraBytes param.text) ∧
        (extraBytes label = 0 → extraBytes param.text = 0 →
          (Underlines rows closing ↔ ∀ row ∈ rows, row.length ≤ last.length)) ∧
        ((∀ entry ∈ entries, ∀ cell ∈ groupCells lang (keyed lang entry), cell.length ≤ columnWidth) →
          ∀ row ∈ rows, row.length = last.length) := by
  intro entries rows
  obtain ⟨before, ⟨param, aggregate⟩, hentries⟩ :=
    (List.eq_nil_or_concat' entries).resolve_left (ofLanguage_ne_nil hlang)
  refine ⟨before, param, aggregate, hentries, ?_⟩
  intro label last closing
  have hlast : rows.getLast? = some last := by
    rw [show last = groupRow (lastLabel lang before) param aggregate from rfl,
      ← getLast?_languageRows lang before (param, aggregate), ← hentries]
  have hmem : last ∈ rows := List.mem_of_getLast? hlast
  have hlength : closing.length = last.length + (extraBytes label + extraBytes param.text) := by
    rw [length_rule, extraBytes_groupRow]
  refine ⟨hlast, ?_, hlength, fun hlabel hparam => ?_, fun hcells row hrow => ?_⟩
  · rw [block, hlast]
    rfl
  · simp only [hlabel, hparam, Nat.add_zero] at hlength
    exact underlines_iff hmem hlength
  · rw [length_of_mem_languageRows hcells hrow, length_of_mem_languageRows hcells hmem]

/-- Names of single bytes, each in its column. -/
theorem length_closing_rule_of_fitting :
    let trials : List Trial := [⟨"jlox", .size 10, .ofNat 1⟩, ⟨"jlox", .size 11, .ofNat 3⟩]
    let entries := (Statistics.ofTrials trials).ofLanguage "jlox"
    "jlox" ∈ (Statistics.ofTrials trials).languages ∧
      (∀ entry ∈ entries, ∀ cell ∈ groupCells "jlox" (keyed "jlox" entry),
        cell.length ≤ columnWidth) ∧
      ∃ closing, block "jlox" entries = languageRows "jlox" entries ++ [closing] ∧
        Underlines (languageRows "jlox" entries) closing := by
  intro trials entries
  have hlang : "jlox" ∈ (Statistics.ofTrials trials).languages := by decide +kernel
  have hcells : ∀ entry ∈ entries, ∀ cell ∈ groupCells "jlox" (keyed "jlox" entry),
      cell.length ≤ columnWidth := by decide +kernel
  have hparams : entries.map Prod.fst = [.size 10] ++ [.size 11] := by decide +kernel
  obtain ⟨before, param, aggregate, hentries, hlast, hblock, hlength, hiff, hrows⟩ :=
    length_closing_rule hlang
  rw [show entries = before ++ [(param, aggregate)] from hentries, List.map_append] at hparams
  obtain ⟨hbefore, hparam⟩ := List.append_inj' hparams rfl
  obtain rfl : param = .size 11 := List.singleton_inj.mp hparam
  obtain ⟨first, rest, rfl⟩ := List.exists_cons_of_ne_nil (l := before) (by rintro rfl; cases hbefore)
  refine ⟨hlang, hcells, _, hblock, (hiff ?_ ?_).mpr fun row hrow => (hrows hcells row hrow).le⟩
  · show extraBytes "" = 0
    decide
  · exact extraBytes_toString _

/-- The name of a language that is too long for its column in the first of two rows, and the name of a
benchmark with characters of two bytes: the first rule is too short, and the second is too long. -/
theorem not_underlines_block :
    let longName : List Trial :=
      [⟨"interpreter-in-ruby", .size 10, .ofNat 1⟩, ⟨"interpreter-in-ruby", .size 11, .ofNat 1⟩]
    let wideName : List Trial := [⟨"jlox", .benchmark "żółw", .ofNat 1⟩]
    let rowsOf (trials : List Trial) (lang : String) : List String :=
      languageRows lang ((Statistics.ofTrials trials).ofLanguage lang)
    let blockOf (trials : List Trial) (lang : String) : List String :=
      block lang ((Statistics.ofTrials trials).ofLanguage lang)
    (blockOf longName "interpreter-in-ruby" =
        rowsOf longName "interpreter-in-ruby" ++ [repeated 88 '-'] ∧
      (rowsOf longName "interpreter-in-ruby").map String.length = [91, 88] ∧
      ¬ Underlines (rowsOf longName "interpreter-in-ruby") (repeated 88 '-')) ∧
    blockOf wideName "jlox" = rowsOf wideName "jlox" ++ [repeated 91 '-'] ∧
      (rowsOf wideName "jlox").map String.length = [88] ∧
      ¬ Underlines (rowsOf wideName "jlox") (repeated 91 '-') := by
  intro longName wideName rowsOf blockOf
  exact ⟨by decide +kernel, by decide +kernel⟩

end TimeTrials.Summary
