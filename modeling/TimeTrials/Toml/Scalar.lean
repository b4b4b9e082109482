import TimeTrials.Number.Literal
import TimeTrials.Toml.Value

/-!
# TOML numbers, booleans, dates and times

A bare scalar is one token of letters, digits and a few signs.  The token is taken whole and then
recognised: no two of the grammars below share a token, so the order of trying them does not matter.
Only a date may go on after a space, with the time of day.

Underscores may stand between digits.  Integers have 64 bits with a sign, and may be written in base
two, eight or sixteen without one.  A decimal whose value is beyond the largest number is refused; one
below the least is not.
-/

namespace TimeTrials.Toml

open Number (Binary64 Decimal Literal)

/-! ## Digits -/

/-- Digits of a base with single underscores between them; the underscores are dropped. -/
def groupedDigits? (isDigit : Char → Bool) : List Char → Option (List Char)
  | [] => none
  | [c] => if isDigit c then some [c] else none
  | c :: '_' :: rest =>
    if isDigit c then (groupedDigits? isDigit rest).map (c :: ·) else none
  | c :: rest => if isDigit c then (groupedDigits? isDigit rest).map (c :: ·) else none

/-- Decimal digits without a zero in front, unless the zero is all there is. -/
def plainDigits? (text : List Char) : Option (List Char) := do
  let digits ← groupedDigits? Char.isDigit text
  match digits with
  | '0' :: _ :: _ => none
  | _ => some digits

/-! ## Integers -/

/-- The value of digits in a base. -/
def valueIn (base : Nat) (digits : List Char) : Nat :=
  digits.foldl (fun n c => base * n + (Number.Whole.digit? base c).getD 0) 0

/-- An integer, if it fits 64 bits with a sign. -/
def fitting? (n : Int) : Option Int :=
  if -9223372036854775808 ≤ n ∧ n ≤ 9223372036854775807 then some n else none

/-- An unsigned integer in a base that is not ten. -/
def basedInteger? (base : Nat) (text : List Char) : Option Int := do
  let digits ← groupedDigits? (fun c => (Number.Whole.digit? base c).isSome) text
  fitting? (valueIn base digits)

/-- An integer. -/
def integer? : List Char → Option Int
  | '0' :: 'x' :: rest => basedInteger? 16 rest
  | '0' :: 'o' :: rest => basedInteger? 8 rest
  | '0' :: 'b' :: rest => basedInteger? 2 rest
  | text => do
    let (negative, rest) := Literal.sign text
    let value : Int := valueIn 10 (← plainDigits? rest)
    fitting? (if negative then -value else value)

/-! ## Floats -/

/-- The named floats, with or without a sign. -/
def namedFloat? (text : List Char) : Option Binary64 :=
  let (negative, rest) := Literal.sign text
  match rest with
  | ['i', 'n', 'f'] => some (.infinite negative)
  | ['n', 'a', 'n'] => some .nan
  | _ => none

/-- Whether a character marks an exponent. -/
def isExponentMark (c : Char) : Bool := c == 'e' || c == 'E'

/-- The exponent after its mark. -/
def exponent? (text : List Char) : Option Int := do
  let (negative, rest) := Literal.sign text
  let value : Int := Literal.valueOf (← groupedDigits? Char.isDigit rest)
  return if negative then -value else value

/-- A float in digits: a fraction, an exponent or both after the whole part. -/
def decimalFloat? (text : List Char) : Option Binary64 := do
  let (negative, unsigned) := Literal.sign text
  let mantissa := unsigned.takeWhile fun c => !isExponentMark c
  let (whole, places) := (mantissa.takeWhile (· != '.'), mantissa.dropWhile (· != '.'))
  let whole ← plainDigits? whole
  let places ←
    match places with
    | [] => some []
    | _ :: digits => groupedDigits? Char.isDigit digits
  let exponent ←
    match unsigned.drop mantissa.length with
    | [] => if places.isEmpty then none else some 0
    | _ :: digits => exponent? digits
  let value : Decimal := ⟨Literal.valueOf (whole ++ places), exponent - places.length⟩
  let number := Binary64.signed negative value.toMagnitude
  if number = .infinite false then none else some number

/-! ## Dates and times -/

/-- A field of exactly so many digits. -/
def field? (digits : List Char) (least most : Nat) : Option Nat :=
  if digits.all Char.isDigit then
    let value := Literal.valueOf digits
    if least ≤ value ∧ value ≤ most then some value else none
  else none

/-- How many days a month has. -/
def daysIn (year month : Nat) : Nat :=
  if month = 2 then
    if year % 4 = 0 ∧ (year % 100 ≠ 0 ∨ year % 400 = 0) then 29 else 28
  else if month ∈ [4, 6, 9, 11] then 30 else 31

/-- A date, and what follows it. -/
def date? : Scan Unit
  | y1 :: y2 :: y3 :: y4 :: '-' :: m1 :: m2 :: '-' :: d1 :: d2 :: rest => do
    let year ← field? [y1, y2, y3, y4] 0 9999
    let month ← field? [m1, m2] 1 12
    let _ ← field? [d1, d2] 1 (daysIn year month)
    return ((), rest)
  | _ => none

/-- A time of day, and what follows it. -/
def time? : Scan Unit
  | h1 :: h2 :: ':' :: m1 :: m2 :: ':' :: s1 :: s2 :: rest => do
    let _ ← field? [h1, h2] 0 23
    let _ ← field? [m1, m2] 0 59
    let _ ← field? [s1, s2] 0 60
    match rest with
    | '.' :: fraction =>
      let digits := fraction.takeWhile Char.isDigit
      if digits.isEmpty then none else return ((), fraction.dropWhile Char.isDigit)
    | _ => return ((), rest)
  | _ => none

/-- Whether a text is an offset from universal time, or nothing. -/
def isOffset : List Char → Bool
  | [] => true
  | ['Z'] => true
  | ['z'] => true
  | [sign, h1, h2, ':', m1, m2] =>
    (sign == '+' || sign == '-') && (field? [h1, h2] 0 23).isSome && (field? [m1, m2] 0 59).isSome
  | _ => false

/-- Whether a token is a date, a time, or a date with a time. -/
def isMoment (text : List Char) : Bool :=
  match date? text with
  | some (_, []) => true
  | some (_, mark :: rest) =>
    (mark == 'T' || mark == 't' || mark == ' ') &&
      (match time? rest with
        | some (_, offset) => isOffset offset
        | none => false)
  | none =>
    match time? text with
    | some (_, rest) => rest.isEmpty
    | none => false

/-! ## Tokens -/

/-- Whether a character can belong to a bare scalar. -/
def isScalarChar (c : Char) : Bool :=
  c.isAlphanum || c == '_' || c == '+' || c == '-' || c == '.' || c == ':'

/-- The value of a whole token. -/
def scalar? (token : List Char) : Option Value :=
  match token with
  | ['t', 'r', 'u', 'e'] => some (.boolean true)
  | ['f', 'a', 'l', 's', 'e'] => some (.boolean false)
  | _ =>
    if isMoment token then some .moment
    else ((integer? token).map .integer).or
      (((namedFloat? token).or (decimalFloat? token)).map .float)

/-- The token of a bare scalar.  After a date, a space and a digit it goes on. -/
def scalarToken (text : List Char) : List Char × List Char :=
  let token := text.takeWhile isScalarChar
  let rest := text.dropWhile isScalarChar
  match date? token, rest with
  | some (_, []), ' ' :: c :: rest' =>
    if c.isDigit then
      (token ++ ' ' :: (c :: rest').takeWhile isScalarChar, (c :: rest').dropWhile isScalarChar)
    else (token, rest)
  | _, _ => (token, rest)

/-- Reads a bare scalar. -/
def bareScalar? (text : List Char) : Option (Value × List Char) :=
  let (token, rest) := scalarToken text
  (scalar? token).map (·, rest)

end TimeTrials.Toml
