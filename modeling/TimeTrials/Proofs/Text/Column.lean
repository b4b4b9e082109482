import Mathlib.Data.String.Basic
import TimeTrials.Text.Column

/-!
# The widths of columns

Text is filled up with spaces by counting characters, but the width of a column of names is found by
counting bytes.  A character has at least one byte, so no name is too long for its column, and in a column
that is wide enough every text comes out as wide as the column is.

* `length_flushLeft`, `length_flushRight`, `length_centred`: text in a column that is wide enough.
* `length_le_utf8ByteSize`: there are no more characters than bytes.
* `utf8ByteSize_eq_length`: there are as many when every character is a single byte.
* `extraBytes`: how many more bytes there are; filling up a column adds none.
-/

namespace TimeTrials.Text

/-! ## Columns -/

@[simp] theorem length_repeated (n : Nat) (c : Char) : (repeated n c).length = n := by
  rw [repeated, String.length_ofList, List.length_replicate]

@[simp] theorem length_spaces (n : Nat) : (spaces n).length = n := length_repeated n ' '

section

variable {width : Nat} {text : String} (h : text.length ≤ width)

include h

theorem length_flushLeft : (flushLeft width text).length = width := by
  rw [flushLeft, String.length_append, length_spaces]
  omega

theorem length_flushRight : (flushRight width text).length = width := by
  rw [flushRight, String.length_append, length_spaces]
  omega

theorem length_centred : (centred width text).length = width := by
  unfold centred
  rw [String.length_append, String.length_append, length_spaces, length_spaces]
  omega

end

/-! ## Characters and bytes -/

theorem length_le_utf8ByteSize (text : String) : text.length ≤ text.utf8ByteSize := by
  rw [← String.length_toList, ← String.utf8Len_toList]
  generalize text.toList = cs
  induction cs with
  | nil => exact Nat.le_refl 0
  | cons c cs ih =>
    have hpos := c.utf8Size_pos
    rw [List.length_cons, String.utf8Len_cons]
    omega

theorem utf8ByteSize_eq_length {text : String} (h : ∀ c ∈ text.toList, c.utf8Size = 1) :
    text.utf8ByteSize = text.length := by
  rw [← String.length_toList, ← String.utf8Len_toList]
  generalize text.toList = cs at h
  induction cs with
  | nil => rfl
  | cons c cs ih =>
    obtain ⟨hc, hcs⟩ := List.forall_mem_cons.mp h
    rw [List.length_cons, String.utf8Len_cons, ih hcs, hc]

/-- How many more bytes a text has than characters. -/
def extraBytes (text : String) : Nat := text.utf8ByteSize - text.length

theorem length_add_extraBytes (text : String) :
    text.length + extraBytes text = text.utf8ByteSize :=
  Nat.add_sub_cancel' (length_le_utf8ByteSize text)

theorem extraBytes_eq_zero {text : String} (h : ∀ c ∈ text.toList, c.utf8Size = 1) :
    extraBytes text = 0 := by
  rw [extraBytes, utf8ByteSize_eq_length h, Nat.sub_self]

theorem extraBytes_append (first second : String) :
    extraBytes (first ++ second) = extraBytes first + extraBytes second := by
  have hfirst := length_add_extraBytes first
  have hsecond := length_add_extraBytes second
  rw [extraBytes, String.utf8ByteSize_append, String.length_append]
  omega

theorem extraBytes_spaces (n : Nat) : extraBytes (spaces n) = 0 := by
  refine extraBytes_eq_zero fun c hc => ?_
  rw [spaces, String.toList_ofList] at hc
  rw [List.eq_of_mem_replicate hc]
  rfl

theorem extraBytes_flushLeft (width : Nat) (text : String) :
    extraBytes (flushLeft width text) = extraBytes text := by
  rw [flushLeft, extraBytes_append, extraBytes_spaces, Nat.add_zero]

theorem extraBytes_flushRight (width : Nat) (text : String) :
    extraBytes (flushRight width text) = extraBytes text := by
  rw [flushRight, extraBytes_append, extraBytes_spaces, Nat.zero_add]

end TimeTrials.Text
