import TimeTrials.Toml.Document
import TimeTrials.Toml.Quotation
import TimeTrials.Toml.Scalar

/-!
# Reading TOML text

A text is read into its assignments and headers, from which `document?` builds the table.  A fault
anywhere makes the whole text unreadable; there is no telling one from another.

Arrays may go over lines and hold comments; tables between braces stay on one line and end without a
comma.  Neither may be nested deeper than `nestingLimit`, and no key may have as many parts as that.
-/

namespace TimeTrials.Toml

/-- How deep values may be nested, and how many parts a key may have: fewer than this. -/
def nestingLimit : Nat := 80

/-! ## Trivia -/

/-- The text after a comment, which ends with its line. -/
def skipComment : List Char → Option (List Char)
  | '#' :: rest =>
    let after := rest.dropWhile isTextChar
    if after.isEmpty || (lineEnd? after).isSome then some after else none
  | text => some text

/-- The text after what may end a line: blanks, a comment, and the line end or the end of it all. -/
def finishLine? (text : List Char) : Option (List Char) := do
  let after ← skipComment (skipSpace text)
  if after.isEmpty then some [] else lineEnd? after

/-- Skips blanks, comments and line ends within an array. -/
def skipTrivia : Nat → List Char → Option (List Char)
  | 0, text => some text
  | fuel + 1, text => do
    let after ← skipComment (skipSpace text)
    match lineEnd? after with
    | some rest => skipTrivia fuel rest
    | none => some after

/-- The same with fuel for every line. -/
def skipLines (text : List Char) : Option (List Char) := skipTrivia (text.length + 1) text

/-! ## Keys -/

/-- Whether a character may stand in a bare key. -/
def isBareChar (c : Char) : Bool := c.isAlphanum || c == '-' || c == '_'

/-- One part of a key. -/
def keyPart? (text : List Char) : Option (String × List Char) :=
  match text with
  | '"' :: _ => lineString? text
  | '\'' :: _ => lineString? text
  | _ =>
    let bare := text.takeWhile isBareChar
    if bare.isEmpty then none else some (String.ofList bare, text.dropWhile isBareChar)

/-- The parts of a key, with points between them and blanks around them. -/
def keyParts : Nat → Scan (List String)
  | 0, _ => none
  | fuel + 1, text => do
    let (part, rest) ← keyPart? (skipSpace text)
    match skipSpace rest with
    | '.' :: rest => do
      let (parts, rest) ← keyParts fuel rest
      return (part :: parts, rest)
    | rest => return ([part], rest)

/-- A key: the parts before the last one, and the last one. -/
def key? (text : List Char) : Option ((List String × String) × List Char) := do
  let (parts, rest) ← keyParts (text.length + 1) text
  if nestingLimit ≤ parts.length then none
  else return ((parts.dropLast, ← parts.getLast?), rest)

/-! ## Values -/

/-- The values of an array after its bracket, read by `item`. -/
def arrayItems (item : Scan Value) : Nat → Scan (List Value)
  | 0, _ => none
  | fuel + 1, text => do
    match ← skipLines text with
    | ']' :: rest => return ([], rest)
    | start =>
      let (value, rest) ← item start
      match ← skipLines rest with
      | ',' :: rest =>
        let (values, rest) ← arrayItems item fuel rest
        return (value :: values, rest)
      | ']' :: rest => return ([value], rest)
      | _ => none

/-- An assignment, its value read by `item`. -/
def assignment? (item : Scan Value) (text : List Char) : Option (Assignment × List Char) := do
  let ((path, key), rest) ← key? text
  match rest with
  | '=' :: rest =>
    let (value, rest) ← item (skipSpace rest)
    return (⟨path, key, value⟩, rest)
  | _ => none

/-- The assignments of a table between braces, of which there is at least one. -/
def inlineItems (item : Scan Value) : Nat → Scan (List Assignment)
  | 0, _ => none
  | fuel + 1, text => do
    let (assignment, rest) ← assignment? item text
    match skipSpace rest with
    | ',' :: rest =>
      let (assignments, rest) ← inlineItems item fuel rest
      return (assignment :: assignments, rest)
    | '\x7d' :: rest => return ([assignment], rest)
    | _ => none

/-- A value, nested no deeper than `depth`. -/
def value? : Nat → Scan Value
  | depth, text =>
    match text with
    | '"' :: _ => (string? text).map fun (s, rest) => (.string s, rest)
    | '\'' :: _ => (string? text).map fun (s, rest) => (.string s, rest)
    | '[' :: rest =>
      match depth with
      | 0 => none
      | depth + 1 =>
        (arrayItems (value? depth) text.length rest).map fun (vs, rest) => (.array vs, rest)
    | '\x7b' :: rest =>
      match depth with
      | 0 => none
      | depth + 1 =>
        match skipSpace rest with
        | '\x7d' :: rest => some (.table [], rest)
        | start => do
          let (assignments, rest) ← inlineItems (value? depth) text.length start
          return (← inlineTable? assignments, rest)
    | _ => bareScalar? text

/-! ## Lines -/

/-- A header, its brackets included. -/
def header? (text : List Char) : Option (Header × List Char) := do
  match text with
  | '[' :: '[' :: rest =>
    let ((path, key), rest) ← key? rest
    match rest with
    | ']' :: ']' :: rest => return (.element path key, rest)
    | _ => none
  | '[' :: rest =>
    let ((path, key), rest) ← key? rest
    match rest with
    | ']' :: rest => return (.table path key, rest)
    | _ => none
  | _ => none

/-- The lines of a document: the assignments up to the first header, and the sections. -/
def lines? : Nat → List Char → Option (List Assignment × List Section)
  | 0, _ => none
  | fuel + 1, text =>
    match skipSpace text with
    | [] => some ([], [])
    | '[' :: rest => do
      let (header, rest) ← header? ('[' :: rest)
      let (assignments, sections) ← lines? fuel (← finishLine? rest)
      return ([], ⟨header, assignments⟩ :: sections)
    | c :: rest =>
      if c = '#' ∨ c = '\n' ∨ c = '\r' then do lines? fuel (← finishLine? (c :: rest))
      else do
        let (assignment, rest) ← assignment? (value? (nestingLimit - 1)) (c :: rest)
        let (assignments, sections) ← lines? fuel (← finishLine? rest)
        return (assignment :: assignments, sections)

/-- The text without a mark of its encoding in front. -/
def withoutMark : List Char → List Char
  | '\ufeff' :: rest => rest
  | text => text

/-- The table that a text describes, if it is a TOML document. -/
def parse? (text : String) : Option Table := do
  let chars := withoutMark text.toList
  let (leading, sections) ← lines? (chars.length + 1) chars
  document? leading sections

end TimeTrials.Toml
