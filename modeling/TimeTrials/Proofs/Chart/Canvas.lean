import TimeTrials.Proofs.Chart.Columns
import TimeTrials.Proofs.Text.Blank

/-!
# Drawing a whisker cell by cell

`Trend.Whisker.draw` says which character every column of a row shows.  The row can also be drawn on a
canvas: a row of blanks as wide as the plot, on which a stem is filled in up to the near end, dashes from
there to the far end, and the marks are put one over the other.  Then the blanks at the end are cut off.
Every range and every place is checked against the row (`Trend.tryDraw`).

* `fill_rowOf`, `put_rowOf`: what a step leaves in the cells.
* `canvas_eq_ok`: when the ends are in order and all marks are on the plot, every range and place is one
  of the row, and the cells are those of `Whisker.char`.
* `tryDraw_eq_ok`: without its blank end, which starts after the last mark, the row is `Whisker.text`.
-/

namespace TimeTrials.Chart

/-! ## The canvas -/

/-- A row with the cells from `start` up to `stop` filled. -/
def fill (start stop : Nat) (c : Char) (cells : List Char) : Except Mishap (List Char) :=
  if start ≤ stop ∧ stop ≤ cells.length then
    .ok (cells.mapIdx fun i cell => if start ≤ i ∧ i < stop then c else cell)
  else .error (.badRange start stop cells.length)

/-- A row with a character put in one cell. -/
def put (index : Nat) (c : Char) (cells : List Char) : Except Mishap (List Char) :=
  if index < cells.length then .ok (cells.set index c)
  else .error (.badIndex index cells.length)

/-- A row of `width` cells by what is in each of them. -/
def rowOf (width : Nat) (char : Nat → Char) : List Char := (List.range width).map char

@[simp] theorem length_rowOf (width : Nat) (char : Nat → Char) : (rowOf width char).length = width := by
  simp [rowOf]

@[simp] theorem getElem_rowOf {width : Nat} (char : Nat → Char) {i : Nat}
    (h : i < (rowOf width char).length) : (rowOf width char)[i] = char i := by
  simp [rowOf]

theorem fill_rowOf {start stop width : Nat} (c : Char) (char : Nat → Char) (h : start ≤ stop)
    (h' : stop ≤ width) : fill start stop c (rowOf width char) =
      .ok (rowOf width fun i => if start ≤ i ∧ i < stop then c else char i) := by
  rw [fill, length_rowOf, if_pos ⟨h, h'⟩]
  refine congrArg Except.ok (List.ext_getElem (by simp) ?_)
  intro i hi hi'
  simp

theorem put_rowOf {index width : Nat} (c : Char) (char : Nat → Char) (h : index < width) :
    put index c (rowOf width char) = .ok (rowOf width fun i => if i = index then c else char i) := by
  rw [put, length_rowOf, if_pos h]
  refine congrArg Except.ok (List.ext_getElem (by simp) ?_)
  intro i hi hi'
  simp [List.getElem_set, eq_comm]

/-! ## Trimming -/

/-- A row that shows something in one cell and nothing after it is trimmed up to that cell. -/
theorem dropEndWhile_rowOf {last width : Nat} {char : Nat → Char} (hlast : last < width)
    (hshown : Text.isBlank (char last) = false) (hblank : ∀ i, last < i → char i = ' ') :
    Text.dropEndWhile Text.isBlank (rowOf width char) = rowOf (last + 1) char := by
  have hsplit : rowOf width char = rowOf (last + 1) char ++ List.replicate (width - (last + 1)) ' ' := by
    refine List.ext_getElem (by simp; omega) ?_
    intro i hi hi'
    rw [List.getElem_append]
    split_ifs with hfirst
    · simp
    · rw [getElem_rowOf, List.getElem_replicate]
      rw [length_rowOf] at hfirst
      exact hblank i (by omega)
  have hconcat : rowOf (last + 1) char = rowOf last char ++ [char last] := by
    rw [rowOf, List.range_succ, List.map_append, List.map_singleton, rowOf]
  rw [hsplit, Text.dropEndWhile_append_replicate rfl, hconcat,
    Text.dropEndWhile_append_singleton hshown]

/-! ## Whiskers -/

namespace Trend

/-- The row of a whisker up to its last mark. -/
def Whisker.text (w : Whisker) (marker stem : Char) : String :=
  String.ofList (rowOf (Nat.max w.mid w.high + 1) (w.char marker stem))

/-- The cells of a whisker's row, drawn one over the other. -/
def canvas (w : Whisker) (marker stem : Char) (width : Nat) : Except Mishap (List Char) := do
  let cells ← fill 0 w.low stem (rowOf width fun _ => ' ')
  let cells ← fill w.low (w.high + 1) '─' cells
  let cells ← put w.low '├' cells
  let cells ← put w.high '┤' cells
  put w.mid marker cells

/-- The row of a whisker as it is drawn, without blanks at the end. -/
def tryDraw (w : Whisker) (marker stem : Char) (width : Nat) : Except Mishap String := do
  let cells ← canvas w marker stem width
  return String.ofList (Text.dropEndWhile Text.isBlank cells)

section

variable {w : Whisker} {marker stem : Char} {width : Nat} (hends : w.low ≤ w.high)
  (hhigh : w.high < width) (hmid : w.mid < width)
include hends hhigh hmid

theorem draw_eq_ok : w.draw marker stem width = .ok (w.text marker stem) := by
  rw [Whisker.draw, if_pos ⟨hends, hhigh, hmid⟩]
  rfl

theorem canvas_eq_ok : canvas w marker stem width = .ok (rowOf width (w.char marker stem)) := by
  have hlow : w.low < width := Nat.lt_of_le_of_lt hends hhigh
  have hchar : ∀ i, (if i = w.mid then marker else if i = w.high then '┤' else if i = w.low then '├'
      else if w.low ≤ i ∧ i < w.high + 1 then '─' else if 0 ≤ i ∧ i < w.low then stem else ' ') =
        w.char marker stem i := by
    intro i
    rw [Whisker.char]
    split_ifs <;> first | rfl | omega
  rw [canvas, fill_rowOf stem _ (Nat.zero_le _) hlow.le]
  simp only [bind, Except.bind]
  rw [fill_rowOf '─' _ (by omega) hhigh]
  simp only [put_rowOf '├' _ hlow, put_rowOf '┤' _ hhigh, put_rowOf marker _ hmid, hchar]

theorem tryDraw_eq_ok (hmarker : Text.isBlank marker = false) :
    tryDraw w marker stem width = .ok (w.text marker stem) := by
  have hlast : Nat.max w.mid w.high < width := Nat.max_lt.mpr ⟨hmid, hhigh⟩
  have hshown : Text.isBlank (w.char marker stem (Nat.max w.mid w.high)) = false := by
    rw [Whisker.char]
    rcases Nat.le_total w.mid w.high with hle | hle
    · have hmax : Nat.max w.mid w.high = w.high := Nat.max_eq_right hle
      rw [hmax]
      by_cases hat : w.high = w.mid
      · rw [if_pos hat]
        exact hmarker
      · rw [if_neg hat, if_pos rfl]
        rfl
    · have hmax : Nat.max w.mid w.high = w.mid := Nat.max_eq_left hle
      rw [hmax, if_pos rfl]
      exact hmarker
  have hblank : ∀ i, Nat.max w.mid w.high < i → w.char marker stem i = ' ' := by
    intro i hi
    obtain ⟨hi₁, hi₂⟩ := Nat.max_lt.mp hi
    rw [Whisker.char]
    split_ifs <;> first | rfl | omega
  rw [tryDraw, canvas_eq_ok hends hhigh hmid]
  simp only [bind, Except.bind, dropEndWhile_rowOf hlast hshown hblank]
  rfl

end

end Trend
end TimeTrials.Chart
