import TimeTrials.Host.Shell.Word
import TimeTrials.Number.Literal

/-!
# Arithmetic of scripts

An expression is made of whole numbers of 64 bits, variables, operators and parentheses.  Operators are
listed by level, loosest first, and those of one level are taken from left to right.  There is no value
if the text is no expression or a divisor is zero.
-/

namespace TimeTrials.Host.Shell.Arithmetic

/-- A token of an expression. -/
inductive Token where
  | number (n : Int)
  | name (name : String)
  | operator (text : String)
  deriving DecidableEq

/-- The number of 64 bits, with sign, that a whole number comes to. -/
def wrap (n : Int) : Int := n.bmod 18446744073709551616

/-- The largest number. -/
def largest : Int := 9223372036854775807

/-- Reads a number: decimal, octal after `0`, hexadecimal after `0x`.  What is too large is cut to the
largest number. -/
def number? (digits : List Char) : Option Int :=
  let read (base : Nat) (digits : List Char) : Option Int :=
    match Number.Whole.parseBase base digits with
    | .ok n => some (min (n : Int) largest)
    | .error .tooLarge => some largest
    | .error _ => none
  match digits with
  | '0' :: 'x' :: rest => read 16 rest
  | '0' :: c :: rest => read 8 (c :: rest)
  | digits => read 10 digits

/-- The operators, longest first. -/
def operators : List String :=
  ["&&", "||", "==", "!=", "<=", ">=", "<<", ">>", "+=", "-=", "*=", "/=", "%=", "<", ">", "+", "-",
    "*", "/", "%", "&", "|", "^", "!", "~", "(", ")", "?", ":", "="]

/-- Divides an expression into tokens. -/
def tokens : Nat → List Char → Option (List Token)
  | 0, _ => none
  | fuel + 1, text =>
    match text with
    | [] => some []
    | c :: rest =>
      if c = ' ' ∨ c = '\t' ∨ c = '\n' then tokens fuel rest
      else if c.isDigit then do
        let n ← number? (text.takeWhile Char.isAlphanum)
        let following ← tokens fuel (text.dropWhile Char.isAlphanum)
        return .number n :: following
      else if isNameStart c then do
        let following ← tokens fuel (text.dropWhile isNameChar)
        return .name (String.ofList (text.takeWhile isNameChar)) :: following
      else do
        let op ← operators.find? fun op => op.toList.isPrefixOf text
        let following ← tokens fuel (text.drop op.length)
        return .operator op :: following

/-- What a comparison gives. -/
def truth (b : Bool) : Option Int := some (if b then 1 else 0)

/-- An operation on the 64 bits of two numbers. -/
def bitwise (apply : Nat → Nat → Nat) (a b : Int) : Int :=
  wrap (apply (a % 18446744073709551616).toNat (b % 18446744073709551616).toNat)

/-- An operator with its meaning. -/
abbrev Operation := String × (Int → Int → Option Int)

/-- The operators of each level, loosest first. -/
def levels : List (List Operation) :=
  [[("||", fun a b => truth (a != 0 || b != 0))],
    [("&&", fun a b => truth (a != 0 && b != 0))],
    [("|", fun a b => some (bitwise Nat.lor a b))],
    [("^", fun a b => some (bitwise Nat.xor a b))],
    [("&", fun a b => some (bitwise Nat.land a b))],
    [("==", fun a b => truth (a == b)), ("!=", fun a b => truth (a != b))],
    [("<=", fun a b => truth (a ≤ b)), (">=", fun a b => truth (b ≤ a)),
      ("<", fun a b => truth (a < b)), (">", fun a b => truth (b < a))],
    [("<<", fun a b => some (wrap (a * Nat.pow 2 (b.toNat % 64)))),
      (">>", fun a b => some (a / Nat.pow 2 (b.toNat % 64)))],
    [("+", fun a b => some (wrap (a + b))), ("-", fun a b => some (wrap (a - b)))],
    [("*", fun a b => some (wrap (a * b))),
      ("/", fun a b => if b = 0 then none else some (wrap (a.tdiv b))),
      ("%", fun a b => if b = 0 then none else some (a.tmod b))]]

mutual

/-- The value of an expression whose operators are those of some levels, and the tokens after it. -/
def value (lookup : String → Option Int) :
    Nat → List (List Operation) → List Token → Option (Int × List Token)
  | 0, _, _ => none
  | fuel + 1, [], ts =>
    match ts with
    | .number n :: rest => some (n, rest)
    | .name name :: rest => (lookup name).map (·, rest)
    | .operator "(" :: rest => do
      let (n, rest) ← value lookup fuel levels rest
      match rest with
      | .operator ")" :: rest => return (n, rest)
      | _ => none
    | .operator "-" :: rest => do
      let (n, rest) ← value lookup fuel [] rest
      return (wrap (-n), rest)
    | .operator "+" :: rest => value lookup fuel [] rest
    | .operator "!" :: rest => do
      let (n, rest) ← value lookup fuel [] rest
      return (if n = 0 then 1 else 0, rest)
    | .operator "~" :: rest => do
      let (n, rest) ← value lookup fuel [] rest
      return (-n - 1, rest)
    | _ => none
  | fuel + 1, level :: tighter, ts => do
    let (first, rest) ← value lookup fuel tighter ts
    continued lookup fuel level tighter first rest

/-- The value of an expression after its first operand. -/
def continued (lookup : String → Option Int) :
    Nat → List Operation → List (List Operation) → Int → List Token → Option (Int × List Token)
  | 0, _, _, _, _ => none
  | fuel + 1, level, tighter, first, ts =>
    match ts with
    | .operator op :: rest =>
      match level.lookup op with
      | some apply => do
        let (second, rest) ← value lookup fuel tighter rest
        continued lookup fuel level tighter (← apply first second) rest
      | none => some (first, ts)
    | _ => some (first, ts)

end

/-- The operators that change a variable, each with what it makes of the old and the new value. -/
def assignments : List Operation :=
  [("=", fun _ b => some b), ("+=", fun a b => some (wrap (a + b))),
    ("-=", fun a b => some (wrap (a - b))), ("*=", fun a b => some (wrap (a * b))),
    ("/=", fun a b => if b = 0 then none else some (wrap (a.tdiv b))),
    ("%=", fun a b => if b = 0 then none else some (a.tmod b))]

/-- The value of a whole expression: a choice between two, or one without a choice. -/
def choice (lookup : String → Option Int) : Nat → List Token → Option Int
  | 0, _ => none
  | fuel + 1, ts => do
    let limit := 16 * ts.length + 16
    let (n, rest) ← value lookup limit levels ts
    match rest with
    | [] => return n
    | .operator "?" :: rest =>
      let (first, rest) ← value lookup limit levels rest
      match rest with
      | .operator ":" :: rest =>
        let second ← choice lookup fuel rest
        return if n = 0 then second else first
      | _ => none
    | _ => none

/-- The value of an expression, and the variable that has it from then on, if there is one. -/
def evaluate? (lookup : String → Option Int) (source : String) : Option (Int × Option String) := do
  let text := source.toList
  let ts ← tokens (text.length + 1) text
  match ts with
  | .name name :: .operator op :: rest =>
    match assignments.lookup op with
    | some apply =>
      let n ← choice lookup (rest.length + 1) rest
      return (← apply ((lookup name).getD 0) n, some name)
    | none => return (← choice lookup (ts.length + 1) ts, none)
  | _ => return (← choice lookup (ts.length + 1) ts, none)

end TimeTrials.Host.Shell.Arithmetic
