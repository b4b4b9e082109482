import TimeTrials.Number.Literal
import TimeTrials.Toml.Value

/-!
# TOML strings

Four forms: basic strings with escapes between double quotes, literal strings without between single
quotes, and both over several lines between tripled quotes.  A line end right after tripled quotes is
not part of the string, and any other line end in it is a line feed.  One or two quotes may stand
anywhere between tripled ones, also right before the closing three.
-/

namespace TimeTrials.Toml

/-- The character with the given code in hexadecimal. -/
def codePoint? (digits : List Char) : Option Char := do
  let values ← digits.mapM (Number.Whole.digit? 16)
  let code := values.foldl (fun n d => 16 * n + d) 0
  if code.isValidChar then some (Char.ofNat code) else none

/-- The character that a one-letter escape stands for. -/
def letterEscape? : Char → Option Char
  | 'b' => some '\x08'
  | 't' => some '\t'
  | 'n' => some '\n'
  | 'f' => some '\x0c'
  | 'r' => some '\r'
  | '"' => some '"'
  | '\\' => some '\\'
  | _ => none

/-- Reads an escape, its backslash gone. -/
def escape? : Scan Char
  | 'u' :: rest => (codePoint? (rest.take 4)).bind fun c =>
    if (rest.take 4).length = 4 then some (c, rest.drop 4) else none
  | 'U' :: rest => (codePoint? (rest.take 8)).bind fun c =>
    if (rest.take 8).length = 8 then some (c, rest.drop 8) else none
  | c :: rest => (letterEscape? c).map (·, rest)
  | [] => none

/-- Puts a character in front of what was scanned. -/
def pushChar (c : Char) (scanned : Option (List Char × List Char)) :
    Option (List Char × List Char) :=
  scanned.map fun (text, rest) => (c :: text, rest)

/-- The rest of a basic string on one line.  The fuel bounds the number of characters. -/
def basicLine : Nat → Scan (List Char)
  | 0, _ => none
  | _, [] => none
  | fuel + 1, c :: rest =>
    if c = '"' then some ([], rest)
    else if c = '\\' then (escape? rest).bind fun (e, rest) => pushChar e (basicLine fuel rest)
    else if isTextChar c then pushChar c (basicLine fuel rest)
    else none

/-- The rest of a literal string on one line. -/
def literalLine : Scan (List Char)
  | [] => none
  | c :: rest =>
    if c = '\'' then some ([], rest)
    else if isTextChar c then pushChar c (literalLine rest)
    else none

/-- Closes a string over several lines: up to two more quotes after the closing three belong to it. -/
def closeQuotes (quote : Char) (rest : List Char) : List Char × List Char :=
  let extra := (rest.take 2).takeWhile (· == quote)
  (extra, rest.drop extra.length)

/-- Skips blanks and line ends after a backslash at the end of a line. -/
def skipBlankLines (text : List Char) : List Char :=
  text.dropWhile fun c => isSpace c || c == '\n' || c == '\r'

/-- Whether what follows a backslash is the end of its line. -/
def endsLine (text : List Char) : Bool := (lineEnd? (skipSpace text)).isSome

/-- Whether carriage returns in a run of blanks all belong to line ends. -/
def wellEnded : List Char → Bool
  | '\r' :: '\n' :: rest => wellEnded rest
  | '\r' :: _ => false
  | _ :: rest => wellEnded rest
  | [] => true

/-- The rest of a basic string over several lines. -/
def basicLines : Nat → Scan (List Char)
  | 0, _ => none
  | fuel + 1, text =>
    match text with
    | '"' :: '"' :: '"' :: rest => some (closeQuotes '"' rest)
    | '\\' :: rest =>
      if endsLine rest then
        let after := skipBlankLines rest
        if wellEnded (rest.take (rest.length - after.length)) then basicLines fuel after else none
      else (escape? rest).bind fun (e, rest) => pushChar e (basicLines fuel rest)
    | c :: rest =>
      match lineEnd? text with
      | some rest => pushChar '\n' (basicLines fuel rest)
      | none => if isTextChar c then pushChar c (basicLines fuel rest) else none
    | [] => none

/-- The rest of a literal string over several lines. -/
def literalLines : Nat → Scan (List Char)
  | 0, _ => none
  | fuel + 1, text =>
    match text with
    | '\'' :: '\'' :: '\'' :: rest => some (closeQuotes '\'' rest)
    | c :: rest =>
      match lineEnd? text with
      | some rest => pushChar '\n' (literalLines fuel rest)
      | none => if isTextChar c then pushChar c (literalLines fuel rest) else none
    | [] => none

/-- A line end right after tripled quotes is skipped. -/
def skipFirstLineEnd (text : List Char) : List Char := (lineEnd? text).getD text

/-- Reads a string on one line; keys are written this way too. -/
def lineString? : Scan String
  | '"' :: rest => (basicLine (rest.length + 1) rest).map fun (s, rest) => (String.ofList s, rest)
  | '\'' :: rest => (literalLine rest).map fun (s, rest) => (String.ofList s, rest)
  | _ => none

/-- Reads a string in any of the four forms. -/
def string? (text : List Char) : Option (String × List Char) :=
  match text with
  | '"' :: '"' :: '"' :: rest =>
    (basicLines (rest.length + 1) (skipFirstLineEnd rest)).map
      fun (s, rest) => (String.ofList s, rest)
  | '\'' :: '\'' :: '\'' :: rest =>
    (literalLines (rest.length + 1) (skipFirstLineEnd rest)).map
      fun (s, rest) => (String.ofList s, rest)
  | _ => lineString? text

end TimeTrials.Toml
