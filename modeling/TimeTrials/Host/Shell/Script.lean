import TimeTrials.Host.Shell.Word

/-!
# Shell scripts

A script is divided into tokens, which are words and operators, and the tokens are put together to a
command.  Covered are simple commands with assignments and redirections, sequences, `&&`, `||`, `!`,
pipelines, `if`, `while`, `until`, `for`, `case`, braces, parentheses and functions.
-/

namespace TimeTrials.Host.Shell

/-! ## Tokens -/

/-- A token of a script. -/
inductive Token where
  | word (word : Word) (line : Nat)
  | operator (text : String)
  /-- A redirection: the stream it is for, if that is given, and its operator. -/
  | redirect (stream : Option Nat) (operator : String)
  | newline
  deriving DecidableEq

/-- The operators, longest first. -/
def operators : List String := ["&&", "||", ";;", ";", "&", "|", "(", ")"]

/-- The redirection operators, longest first. -/
def redirectOperators : List String := [">>", ">&", "<&", ">", "<"]

/-- The first of some operators that a text starts with, and what follows it. -/
def leading (candidates : List String) (text : List Char) : Option (String × List Char) :=
  (candidates.find? fun op => op.toList.isPrefixOf text).map fun op => (op, text.drop op.length)

/-- Divides a script into tokens, `line` being where it stands. -/
def tokens : Nat → Nat → List Char → Option (List Token)
  | 0, _, _ => none
  | fuel + 1, line, text =>
    match text with
    | [] => some []
    | '\n' :: rest => (tokens fuel (line + 1) rest).map (.newline :: ·)
    | '\\' :: '\n' :: rest => tokens fuel (line + 1) rest
    | '#' :: rest => tokens fuel line (rest.dropWhile (· != '\n'))
    | c :: rest =>
      if c = ' ' ∨ c = '\t' then tokens fuel line rest
      else
        let digits := text.takeWhile Char.isDigit
        match leading redirectOperators (text.drop digits.length), leading operators text with
        | some (op, after), none =>
          let stream := if digits.isEmpty then none else (String.ofList digits).toNat?
          (tokens fuel line after).map (.redirect stream op :: ·)
        | _, some (op, after) => (tokens fuel line after).map (.operator op :: ·)
        | none, none => do
          let (parts, after) ← word (text.length + 1) text
          let passed := (text.take (text.length - after.length)).count '\n'
          let following ← tokens fuel (line + passed) after
          return .word parts line :: following

/-! ## Commands -/

/-- A redirection with its target. -/
structure Redirect where
  stream : Option Nat
  operator : String
  target : Word
  deriving DecidableEq

/-- A command of a script. -/
inductive Command where
  | simple (line : Nat) (assignments : List (String × Word)) (words : List Word)
      (redirects : List Redirect)
  | nothing
  /-- One after the other. -/
  | sequence (first second : Command)
  /-- The second if the first succeeds. -/
  | both (first second : Command)
  /-- The second if the first fails. -/
  | either (first second : Command)
  | negation (inner : Command)
  | pipeline (first second : Command)
  | conditional (test body otherwise : Command)
  /-- Repeats the body as long as the test ends as `wanted`. -/
  | loop (wanted : Bool) (test body : Command)
  /-- Repeats the body for every field of some words; without words, for every argument. -/
  | iteration (name : String) (words : Option (List Word)) (body : Command)
  | choice (subject : Word) (branches : List (List Word × Command))
  | group (inner : Command) (redirects : List Redirect)
  /-- A command whose changes to variables do not last. -/
  | subshell (inner : Command) (redirects : List Redirect)
  /-- Gives a command a name. -/
  | definition (name : String) (body : Command)

/-- The text of a word that is nothing but unquoted text. -/
def plain? : Word → Option String
  | [.text s false] => some s
  | _ => none

/-- A word that is an assignment: the name, and the word assigned. -/
def assignment? : Word → Option (String × Word)
  | .text s false :: rest =>
    let name := s.toList.takeWhile isNameChar
    match s.toList.drop name.length with
    | '=' :: value =>
      if name.head?.any isNameStart then
        some (String.ofList name,
          if value.isEmpty then rest else .text (String.ofList value) false :: rest)
      else none
    | _ => none
  | _ => none

/-- The words that end a list of commands. -/
def closers : List String := ["then", "else", "elif", "fi", "do", "done", "esac", "\x7d"]

/-- Whether a list of commands ends here. -/
def atEnd : List Token → Bool
  | [] => true
  | .operator op :: _ => op == ")" || op == ";;"
  | .word w _ :: _ => (plain? w).any closers.contains
  | _ => false

/-- Skips line ends. -/
def skipNewlines : List Token → List Token
  | .newline :: rest => skipNewlines rest
  | ts => ts

/-- Skips line ends and semicolons. -/
def skipSeparators : List Token → List Token
  | .newline :: rest => skipSeparators rest
  | .operator ";" :: rest => skipSeparators rest
  | .operator "&" :: rest => skipSeparators rest
  | ts => ts

/-- Takes a keyword off the front. -/
def keyword? (name : String) : List Token → Option (List Token)
  | .word w _ :: rest => if plain? w = some name then some rest else none
  | _ => none

/-- Takes redirections off the front. -/
def redirects : List Token → List Redirect × List Token
  | .redirect stream op :: .word w _ :: rest =>
    let (more, after) := redirects rest
    (⟨stream, op, w⟩ :: more, after)
  | ts => ([], ts)

/-- Takes words off the front. -/
def words : List Token → List Word × List Token
  | .word w _ :: rest =>
    let (more, after) := words rest
    (w :: more, after)
  | ts => ([], ts)

/-- The rest of a simple command: its words and redirections. -/
def simpleRest : List Token → List Word × List Redirect × List Token
  | .word w _ :: rest =>
    let (ws, rs, after) := simpleRest rest
    (w :: ws, rs, after)
  | .redirect stream op :: .word w _ :: rest =>
    let (ws, rs, after) := simpleRest rest
    (ws, ⟨stream, op, w⟩ :: rs, after)
  | ts => ([], [], ts)

/-- The assignments in front of a simple command's words. -/
def leadingAssignments : List Word → List (String × Word) × List Word
  | [] => ([], [])
  | w :: rest =>
    match assignment? w with
    | some a =>
      let (more, ws) := leadingAssignments rest
      (a :: more, ws)
    | none => ([], w :: rest)

/-- The line of the first word. -/
def lineOf : List Token → Nat
  | .word _ line :: _ => line
  | _ :: rest => lineOf rest
  | [] => 1

/-- A simple command. -/
def simple? (ts : List Token) : Option (Command × List Token) :=
  let (ws, rs, after) := simpleRest ts
  if ws.isEmpty && rs.isEmpty then none
  else
    let (assignments, ws) := leadingAssignments ws
    some (.simple (lineOf ts) assignments ws rs, after)

/-- The patterns of a branch up to its parenthesis. -/
def patterns : List Token → Option (List Word × List Token)
  | .word w _ :: .operator "|" :: rest => (patterns rest).map fun (ws, after) => (w :: ws, after)
  | .word w _ :: .operator ")" :: rest => some ([w], rest)
  | _ => none

mutual

/-- A list of commands, up to what ends it. -/
def commands : Nat → List Token → Option (Command × List Token)
  | 0, _ => none
  | fuel + 1, ts => do
    let start := skipSeparators ts
    if atEnd start then return (.nothing, start)
    else
      let (first, rest) ← chain fuel start
      let (second, after) ← commands fuel rest
      return (.sequence first second, after)

/-- Pipelines joined by `&&` and `||`. -/
def chain : Nat → List Token → Option (Command × List Token)
  | 0, _ => none
  | fuel + 1, ts => do
    let (first, rest) ← pipeline fuel ts
    chainRest fuel first rest

/-- The rest of a chain after its first part. -/
def chainRest : Nat → Command → List Token → Option (Command × List Token)
  | 0, _, _ => none
  | fuel + 1, first, ts =>
    match ts with
    | .operator "&&" :: rest => do
      let (second, after) ← pipeline fuel (skipNewlines rest)
      chainRest fuel (.both first second) after
    | .operator "||" :: rest => do
      let (second, after) ← pipeline fuel (skipNewlines rest)
      chainRest fuel (.either first second) after
    | _ => some (first, ts)

/-- Commands joined by `|`, with a `!` in front perhaps. -/
def pipeline : Nat → List Token → Option (Command × List Token)
  | 0, _ => none
  | fuel + 1, ts =>
    match keyword? "!" ts with
    | some rest => (pipeline fuel rest).map fun (c, after) => (.negation c, after)
    | none => do
      let (first, rest) ← command fuel ts
      match rest with
      | .operator "|" :: rest =>
        let (second, after) ← pipeline fuel (skipNewlines rest)
        return (.pipeline first second, after)
      | _ => return (first, rest)

/-- One command. -/
def command : Nat → List Token → Option (Command × List Token)
  | 0, _ => none
  | fuel + 1, ts =>
    match ts with
    | .operator "(" :: rest => do
      let (inner, rest) ← commands fuel rest
      match rest with
      | .operator ")" :: rest =>
        let (rs, after) := redirects rest
        return (.subshell inner rs, after)
      | _ => none
    | .word w _ :: .operator "(" :: .operator ")" :: rest => do
      let name ← plain? w
      let (body, after) ← command fuel (skipNewlines rest)
      return (.definition name body, after)
    | .word w _ :: rest =>
      match plain? w with
      | some "if" => conditional fuel rest
      | some "while" => looping fuel true rest
      | some "until" => looping fuel false rest
      | some "for" => iterating fuel rest
      | some "case" => choosing fuel rest
      | some "\x7b" => do
        let (inner, rest) ← commands fuel rest
        let (rs, after) := redirects (← keyword? "\x7d" rest)
        return (.group inner rs, after)
      | _ => simple? ts
    | _ => simple? ts

/-- The rest of an `if`. -/
def conditional : Nat → List Token → Option (Command × List Token)
  | 0, _ => none
  | fuel + 1, ts => do
    let (test, rest) ← commands fuel ts
    let (body, rest) ← commands fuel (← keyword? "then" rest)
    match keyword? "elif" rest, keyword? "else" rest with
    | some rest, _ =>
      let (otherwise, after) ← conditional fuel rest
      return (.conditional test body otherwise, after)
    | none, some rest =>
      let (otherwise, rest) ← commands fuel rest
      let (rs, after) := redirects (← keyword? "fi" rest)
      return (.group (.conditional test body otherwise) rs, after)
    | none, none =>
      let (rs, after) := redirects (← keyword? "fi" rest)
      return (.group (.conditional test body .nothing) rs, after)

/-- The rest of a `while` or `until`. -/
def looping : Nat → Bool → List Token → Option (Command × List Token)
  | 0, _, _ => none
  | fuel + 1, wanted, ts => do
    let (test, rest) ← commands fuel ts
    let (body, rest) ← commands fuel (← keyword? "do" rest)
    let (rs, after) := redirects (← keyword? "done" rest)
    return (.group (.loop wanted test body) rs, after)

/-- The rest of a `for`. -/
def iterating : Nat → List Token → Option (Command × List Token)
  | 0, _ => none
  | fuel + 1, ts => do
    match ts with
    | .word w _ :: rest =>
      let name ← plain? w
      let (fields, rest) :=
        match keyword? "in" (skipNewlines rest) with
        | some rest =>
          let (ws, rest) := words rest
          (some ws, rest)
        | none => (none, rest)
      let (body, rest) ← commands fuel (← keyword? "do" (skipSeparators rest))
      let (rs, after) := redirects (← keyword? "done" rest)
      return (.group (.iteration name fields body) rs, after)
    | _ => none

/-- The rest of a `case`. -/
def choosing : Nat → List Token → Option (Command × List Token)
  | 0, _ => none
  | fuel + 1, ts => do
    match ts with
    | .word subject _ :: rest =>
      let (branches, after) ← branches fuel (← keyword? "in" (skipNewlines rest))
      return (.choice subject branches, after)
    | _ => none

/-- The branches of a `case`, and its `esac`. -/
def branches : Nat → List Token → Option (List (List Word × Command) × List Token)
  | 0, _ => none
  | fuel + 1, ts => do
    let start := skipNewlines ts
    match keyword? "esac" start with
    | some after => return ([], after)
    | none =>
      let start := match start with
        | .operator "(" :: rest => rest
        | start => start
      let (ps, rest) ← patterns start
      let (body, rest) ← commands fuel rest
      let rest := match rest with
        | .operator ";;" :: rest => rest
        | rest => rest
      let (more, after) ← branches fuel rest
      return ((ps, body) :: more, after)

end

/-- Reads a whole script. -/
def script? (text : String) : Option Command := do
  let chars := text.toList
  let ts ← tokens (chars.length + 1) 1 chars
  let (c, rest) ← commands (8 * ts.length + 8) ts
  if rest.isEmpty then some c else none

end TimeTrials.Host.Shell
