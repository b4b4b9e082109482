/-!
# Words of a shell script

A word is made of parts: text as it stands, and expansions that are worked out when the word is used.
Expansions keep their source text, so that reading a script does not depend on running it.  Where a
part stands outside quotes, what it expands to is divided at blanks; text between quotes is not.
-/

namespace TimeTrials.Host.Shell

/-- What is made of a parameter.  Where another word is involved, `orEmpty` says that an empty value
counts as none. -/
inductive Use where
  | value
  /-- How many characters the value has. -/
  | length
  /-- A word in place of a value that is missing. -/
  | fallback (orEmpty : Bool) (word : String)
  /-- The same, and the parameter has that value from then on. -/
  | assignment (orEmpty : Bool) (word : String)
  /-- A word in place of a value that is there. -/
  | replacement (orEmpty : Bool) (word : String)
  /-- The value without its beginning, or its end, that is of a pattern. -/
  | cut (atEnd longest : Bool) (pattern : String)
  deriving DecidableEq

/-- A part of a word. -/
inductive Part where
  | text (text : String) (quoted : Bool)
  | parameter (name : String) (use : Use) (quoted : Bool)
  /-- The value of an arithmetic expression. -/
  | arithmetic (source : String) (quoted : Bool)
  /-- What a script prints. -/
  | output (source : String) (quoted : Bool)
  deriving DecidableEq

/-- A word. -/
abbrev Word := List Part

/-- Whether a character can start a name. -/
def isNameStart (c : Char) : Bool := c.isAlpha || c == '_'

/-- Whether a character can go on in a name. -/
def isNameChar (c : Char) : Bool := c.isAlphanum || c == '_'

/-- Whether a character is a parameter of its own. -/
def isSpecialParameter (c : Char) : Bool :=
  c.isDigit || c == '#' || c == '@' || c == '*' || c == '?' || c == '$' || c == '!' || c == '-'

/-- Splits off what stands before the bracket that closes `depth` open ones.  The fuel is the length of
the text. -/
def untilClosing (opening closing : Char) : Nat → List Char → Option (List Char × List Char)
  | _, [] => none
  | depth, c :: rest =>
    if c = closing then
      match depth with
      | 0 => some ([], rest)
      | depth + 1 => (untilClosing opening closing depth rest).map fun (a, b) => (c :: a, b)
    else
      (untilClosing opening closing (if c = opening then depth + 1 else depth) rest).map
        fun (a, b) => (c :: a, b)

/-- The name that stands first in braces. -/
def bracedName (inside : List Char) : List Char :=
  if inside.head?.any Char.isDigit then inside.takeWhile Char.isDigit
  else if inside.head?.any isNameStart then inside.takeWhile isNameChar
  else inside.take 1

/-- What is made of the parameter in braces, by what follows its name. -/
def bracedUse : List Char → Use
  | ':' :: '-' :: word => .fallback true (String.ofList word)
  | '-' :: word => .fallback false (String.ofList word)
  | ':' :: '=' :: word => .assignment true (String.ofList word)
  | '=' :: word => .assignment false (String.ofList word)
  | ':' :: '+' :: word => .replacement true (String.ofList word)
  | '+' :: word => .replacement false (String.ofList word)
  | '#' :: '#' :: word => .cut false true (String.ofList word)
  | '#' :: word => .cut false false (String.ofList word)
  | '%' :: '%' :: word => .cut true true (String.ofList word)
  | '%' :: word => .cut true false (String.ofList word)
  | _ => .value

/-- The parameter in braces. -/
def braced (inside : List Char) (quoted : Bool) : Part :=
  match inside with
  | '#' :: c :: rest => .parameter (String.ofList (c :: rest)) .length quoted
  | inside =>
    let name := bracedName inside
    .parameter (String.ofList name) (bracedUse (inside.drop name.length)) quoted

/-- Reads an expansion, its dollar sign gone.  A dollar sign before anything else stands for itself. -/
def expansion (quoted : Bool) (text : List Char) : Option (Part × List Char) :=
  match text with
  | '(' :: '(' :: rest => do
    let (inside, rest) ← untilClosing '(' ')' 1 rest
    return (.arithmetic (String.ofList inside.dropLast) quoted, rest)
  | '(' :: rest => do
    let (inside, rest) ← untilClosing '(' ')' 0 rest
    return (.output (String.ofList inside) quoted, rest)
  | '\x7b' :: rest => do
    let (inside, rest) ← untilClosing '\x7b' '\x7d' 0 rest
    return (braced inside quoted, rest)
  | c :: rest =>
    if isNameStart c then
      some (.parameter (String.ofList (text.takeWhile isNameChar)) .value quoted,
        text.dropWhile isNameChar)
    else if isSpecialParameter c then some (.parameter (String.singleton c) .value quoted, rest)
    else some (.text "$" quoted, text)
  | [] => some (.text "$" quoted, [])

/-- The script between backquotes, the first of them gone, and what follows the second.  A backslash
takes their meaning from backquotes, dollar signs and backslashes inside. -/
def backquoted : List Char → Option (List Char × List Char)
  | [] => none
  | '\x60' :: rest => some ([], rest)
  | '\\' :: c :: rest =>
    let kept := if c = '\x60' ∨ c = '$' ∨ c = '\\' then [c] else ['\\', c]
    (backquoted rest).map fun (inside, after) => (kept ++ inside, after)
  | c :: rest => (backquoted rest).map fun (inside, after) => (c :: inside, after)

/-- Adds a character to a word, joining it to text before it. -/
def pushText (c : Char) (quoted : Bool) : Word → Word
  | .text s q :: rest =>
    if q = quoted then .text (String.singleton c ++ s) q :: rest
    else .text (String.singleton c) quoted :: .text s q :: rest
  | word => .text (String.singleton c) quoted :: word

/-- The parts between double quotes, and what follows the closing one. -/
def doubleQuoted : Nat → List Char → Option (Word × List Char)
  | 0, _ => none
  | fuel + 1, text =>
    match text with
    | [] => none
    | '"' :: rest => some ([.text "" true], rest)
    | '\\' :: c :: rest => do
      let (word, after) ← doubleQuoted fuel rest
      if c = '\n' then return (word, after)
      else if c = '"' ∨ c = '\\' ∨ c = '$' ∨ c = '\x60' then return (pushText c true word, after)
      else return (pushText '\\' true (pushText c true word), after)
    | '$' :: rest => do
      let (part, rest) ← expansion true rest
      let (word, after) ← doubleQuoted fuel rest
      return (part :: word, after)
    | '\x60' :: rest => do
      let (inside, rest) ← backquoted rest
      let (word, after) ← doubleQuoted fuel rest
      return (.output (String.ofList inside) true :: word, after)
    | c :: rest => do
      let (word, after) ← doubleQuoted fuel rest
      return (pushText c true word, after)

/-- Whether a character ends a word. -/
def endsWord (c : Char) : Bool :=
  c == ' ' || c == '\t' || c == '\n' || c == ';' || c == '&' || c == '|' || c == '<' || c == '>'
    || c == '(' || c == ')'

/-- Reads a word, and what follows it. -/
def word : Nat → List Char → Option (Word × List Char)
  | 0, _ => none
  | fuel + 1, text =>
    match text with
    | [] => some ([], [])
    | '\'' :: rest => do
      let inside := rest.takeWhile (· != '\'')
      if inside.length = rest.length then none
      else
        let (parts, after) ← word fuel (rest.drop (inside.length + 1))
        return (.text (String.ofList inside) true :: parts, after)
    | '"' :: rest => do
      let (quoted, rest) ← doubleQuoted fuel rest
      let (parts, after) ← word fuel rest
      return (quoted ++ parts, after)
    | '\\' :: c :: rest => do
      let (parts, after) ← word fuel rest
      if c = '\n' then return (parts, after) else return (pushText c true parts, after)
    | '$' :: rest => do
      let (part, rest) ← expansion false rest
      let (parts, after) ← word fuel rest
      return (part :: parts, after)
    | '\x60' :: rest => do
      let (inside, rest) ← backquoted rest
      let (parts, after) ← word fuel rest
      return (.output (String.ofList inside) false :: parts, after)
    | c :: rest =>
      if endsWord c then some ([], text)
      else do
        let (parts, after) ← word fuel rest
        return (pushText c false parts, after)

/-- The word in a whole text, with the rules for double quotes. -/
def quotedWord (text : String) : Word :=
  ((doubleQuoted (text.length + 2) (text.toList ++ ['"'])).map (·.1)).getD [.text text true]

end TimeTrials.Host.Shell
