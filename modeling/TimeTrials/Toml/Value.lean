import TimeTrials.Number.Binary64

/-!
# TOML values

A value is a scalar, an array or a table.  A table keeps its keys in the order in which the document
introduces them, because the first fault of a document is reported and that order decides which one
is first.  Dates and times are checked when they are read, and nothing in a value depends on which
one it was.
-/

namespace TimeTrials.Toml

open Number (Binary64)

/-- A TOML value. -/
inductive Value where
  | string (text : String)
  | integer (n : Int)
  | float (x : Binary64)
  | boolean (b : Bool)
  /-- A date, a time, or both. -/
  | moment
  | array (elements : List Value)
  | table (entries : List (String × Value))

/-- A table: keys and values in document order. -/
abbrev Table := List (String × Value)

/-- A scanner takes something off the front of a text, or fails. -/
abbrev Scan (α : Type) := List Char → Option (α × List Char)

/-- Space and tab, the only blanks within a line. -/
def isSpace (c : Char) : Bool := c == ' ' || c == '\t'

/-- Skips blanks within a line. -/
def skipSpace (text : List Char) : List Char := text.dropWhile isSpace

/-- Takes a line end off the front: a line feed, with or without a carriage return before it. -/
def lineEnd? : List Char → Option (List Char)
  | '\n' :: rest => some rest
  | '\r' :: '\n' :: rest => some rest
  | _ => none

/-- Whether a character may stand unescaped in text: not a control, the tab aside. -/
def isTextChar (c : Char) : Bool := c == '\t' || (0x20 ≤ c.toNat && c.toNat ≠ 0x7f)

end TimeTrials.Toml
