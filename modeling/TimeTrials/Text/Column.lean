/-!
# Columns

Text set in a column is filled up with spaces to the column's width.  Both are counted in
characters, and a text that is already wider stays as it is.
-/

namespace TimeTrials.Text

/-- So many spaces. -/
def spaces (n : Nat) : String := String.ofList (List.replicate n ' ')

/-- So many copies of a character. -/
def repeated (n : Nat) (c : Char) : String := String.ofList (List.replicate n c)

/-- The text at the left end of a column. -/
def flushLeft (width : Nat) (text : String) : String := text ++ spaces (width - text.length)

/-- The text at the right end of a column. -/
def flushRight (width : Nat) (text : String) : String := spaces (width - text.length) ++ text

/-- The text in the middle of a column; an odd space goes to the right. -/
def centred (width : Nat) (text : String) : String :=
  let fill := width - text.length
  spaces (fill / 2) ++ text ++ spaces (fill - fill / 2)

end TimeTrials.Text
