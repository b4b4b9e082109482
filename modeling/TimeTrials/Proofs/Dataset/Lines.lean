import TimeTrials.Proofs.Dataset.Defects

/-!
# The line of a bad time

The fault of a time names a line.  It is the line on which the reader stands before it begins the record,
and that is just behind the byte that ended the record before.  Line feeds that the reader then skips, of
blank lines or of two-byte line ends, are not counted.

* `line_of_offends`: the line that is named, by the line feeds before the record's passage.
* `line_of_read`: so it is too small by the number of line feeds that were skipped, and right exactly when
  none was.
* `line_of_read_blank_line`, `line_too_small`: a blank line before the row.
-/

namespace TimeTrials.Dataset

open Number (Binary64)
open Text (Bytes)

/-- The line on which the byte behind the given ones stands. -/
def lineBehind (before : Bytes) : Nat := 1 + before.count lineFeed

theorem lineBehind_append (before more : Bytes) :
    lineBehind (before ++ more) = lineBehind before + more.count lineFeed := by
  rw [lineBehind, lineBehind, List.count_append, Nat.add_assoc]

/-- The line of the place behind a header and rows counts the line feeds in them. -/
theorem line_behind_placeOfRows (mark : Bytes) (header : Passage) (rows : List Passage) :
    ((placeOfRows mark header).behind rows).line =
      lineBehind (mark ++ (header :: rows).flatMap Passage.bytes) := by
  rw [Place.line_behind, List.flatMap_cons, ← List.append_assoc, lineBehind_append]
  rfl

/-- The line that is named for an invalid time. -/
theorem line_of_offends {kind : Kind} {mark : Bytes} {before : List Passage} {passage : Passage}
    {line : Nat} {value : Binary64} (h : Offends kind mark before passage (.time line value)) :
    line = lineBehind (mark ++ before.flatMap Passage.bytes) := by
  cases h with
  | header h =>
    generalize passage.fields = fields at h
    cases h
  | row _ _ h =>
    generalize passage.fields = fields at h
    cases h
    exact line_behind_placeOfRows _ _ _

/-- **The line of a bad time.**  If a dataset is refused for a time, that is the time of the first record
that is not in order, and the line that is named falls short of the record's by the line feeds that are
skipped before it. -/
theorem line_of_read {kind : Kind} {bytes : Bytes} {line : Nat} {value : Binary64}
    (h : read kind bytes = .error (.time line value)) :
    ∃ before passage after, Layout (withoutMark bytes) (before ++ passage :: after) ∧
      Offends kind (markOf bytes) before passage (.time line value) ∧
      line + passage.blank.count lineFeed =
        lineBehind (markOf bytes ++ before.flatMap Passage.bytes ++ passage.blank) ∧
      (line = lineBehind (markOf bytes ++ before.flatMap Passage.bytes ++ passage.blank) ↔
        lineFeed ∉ passage.blank) := by
  obtain ⟨passages, hlayout⟩ := exists_layout (withoutMark bytes)
  obtain ⟨-, hnone⟩ | ⟨before, passage, after, rfl, hoffends⟩ := (read_eq_error_iff hlayout).mp h
  · cases hnone
  · have hline : line + passage.blank.count lineFeed =
        lineBehind (markOf bytes ++ before.flatMap Passage.bytes ++ passage.blank) := by
      rw [line_of_offends hoffends, ← lineBehind_append]
    refine ⟨before, passage, after, hlayout, hoffends, hline, ?_⟩
    rw [← hline, ← List.count_eq_zero]
    omega

/-- Minus one, as a number that no time is. -/
def minusOne : Binary64 := (Number.Literal.decimal true ⟨1, 0⟩).toBinary64

/-- A blank line before the row. -/
theorem line_of_read_blank_line :
    read .sizes (Text.Utf8.encode "lang,n,time\n\na,10,-1\n") = .error (.time 2 minusOne) ∧
    ∃ before passage after,
      Layout (withoutMark (Text.Utf8.encode "lang,n,time\n\na,10,-1\n")) (before ++ passage :: after) ∧
      Offends .sizes (markOf (Text.Utf8.encode "lang,n,time\n\na,10,-1\n")) before passage
        (.time 2 minusOne) ∧
      2 + passage.blank.count lineFeed =
        lineBehind (markOf (Text.Utf8.encode "lang,n,time\n\na,10,-1\n") ++
          before.flatMap Passage.bytes ++ passage.blank) ∧
      (2 = lineBehind (markOf (Text.Utf8.encode "lang,n,time\n\na,10,-1\n") ++
          before.flatMap Passage.bytes ++ passage.blank) ↔ lineFeed ∉ passage.blank) := by
  have hread : read .sizes (Text.Utf8.encode "lang,n,time\n\na,10,-1\n") =
      .error (.time 2 minusOne) := by
    decide +kernel
  exact ⟨hread, line_of_read hread⟩

/-- The row stands on the third line, and the second is named. -/
theorem line_too_small :
    read .sizes (Text.Utf8.encode "lang,n,time\n\n" ++ Text.Utf8.encode "a,10,-1\n") =
      .error (.time 2 minusOne) ∧
    Layout (Text.Utf8.encode "lang,n,time\n\n" ++ Text.Utf8.encode "a,10,-1\n")
      [⟨[], Text.Utf8.encode "lang,n,time", some lineFeed, headerRecord .sizes⟩,
        ⟨[lineFeed], Text.Utf8.encode "a,10,-1", some lineFeed, recordOf ["a", "10", "-1"]⟩] ∧
    lineBehind (Text.Utf8.encode "lang,n,time\n\n") = 3 := by
  have hheader := recordText_encodeFields (by decide : headerRecord .sizes ≠ [])
  have hrow := recordText_encodeFields (by decide : recordOf ["a", "10", "-1"] ≠ [])
  have hlast : Layout ([lineFeed] ++ encodeFields (recordOf ["a", "10", "-1"]) ++ [lineFeed]) _ :=
    .ended (by simp [isLineEnd]) (by decide +kernel) hrow rfl (.done (by simp))
  have hall := Layout.ended (by simp : ∀ b ∈ [], isLineEnd b = true) (by decide +kernel) hheader
    (rfl : isLineEnd lineFeed = true) hlast
  exact ⟨by decide +kernel, hall, by decide⟩

end TimeTrials.Dataset
