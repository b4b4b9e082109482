import TimeTrials.Number.Decimal

/-!
# Number literals

Two grammars of literals are read: decimal numbers with an optional fraction and exponent, which
become binary64 numbers, and whole numbers that fit 64 bits.

A decimal literal is an optional sign, then digits with at most one point among or around them, then
possibly an exponent; or, in any case, `inf`, `infinity` or `nan`.  There is no room for blanks,
group separators or other bases.  The literal is read exactly first (`Literal`), and rounded once
(`Literal.toBinary64`), so what it denotes and what it is stored as can be compared.

A whole number is read from the left, and the first character that cannot be taken decides the fault:
one that is no digit, or one whose digit takes the value past 64 bits.
-/

namespace TimeTrials.Number

/-- Why a text is no decimal literal. -/
inductive LiteralFault where
  | empty
  | invalid
  deriving DecidableEq, Repr

/-- The wording of a literal's fault. -/
def LiteralFault.message : LiteralFault → String
  | .empty => "cannot parse float from empty string"
  | .invalid => "invalid float literal"

/-- What a decimal literal denotes, before rounding. -/
inductive Literal where
  | nan
  | infinite (negative : Bool)
  | decimal (negative : Bool) (value : Decimal)
  deriving DecidableEq

namespace Literal

/-- The value of a run of digits. -/
def valueOf (digits : List Char) : Nat :=
  digits.foldl (fun n c => 10 * n + (c.toNat - '0'.toNat)) 0

/-- An optional sign, and whether it is a minus. -/
def sign : List Char → Bool × List Char
  | '-' :: rest => (true, rest)
  | '+' :: rest => (false, rest)
  | rest => (false, rest)

/-- The exponent part that ends a literal: nothing, or `e`, a sign and at least one digit. -/
def exponent? : List Char → Option Int
  | [] => some 0
  | mark :: rest =>
    if mark = 'e' || mark = 'E' then
      let (negative, digits) := sign rest
      if digits.isEmpty || !digits.all Char.isDigit then none
      else
        let value : Int := valueOf digits
        some (if negative then -value else value)
    else none

/-- The digits after a point, if there is one. -/
def fraction : List Char → List Char × List Char
  | '.' :: rest => (rest.takeWhile Char.isDigit, rest.dropWhile Char.isDigit)
  | rest => ([], rest)

/-- Digits, point, digits, exponent, with a digit on at least one side of the point. -/
def unsigned? (text : List Char) : Option Decimal :=
  let whole := text.takeWhile Char.isDigit
  let (places, rest) := fraction (text.dropWhile Char.isDigit)
  if whole.isEmpty && places.isEmpty then none
  else (exponent? rest).map fun exponent => ⟨valueOf (whole ++ places), exponent - places.length⟩

/-- The named literals, in any case. -/
def named? (negative : Bool) (text : List Char) : Option Literal :=
  match text.map Char.toLower with
  | ['n', 'a', 'n'] => some .nan
  | ['i', 'n', 'f'] => some (.infinite negative)
  | ['i', 'n', 'f', 'i', 'n', 'i', 't', 'y'] => some (.infinite negative)
  | _ => none

/-- Reads a decimal literal. -/
def parse (text : String) : Except LiteralFault Literal :=
  match text.toList with
  | [] => .error .empty
  | chars =>
    let (negative, rest) := sign chars
    match named? negative rest, unsigned? rest with
    | some literal, _ => .ok literal
    | none, some value => .ok (.decimal negative value)
    | none, none => .error .invalid

/-- The binary64 number nearest to what the literal denotes. -/
def toBinary64 : Literal → Binary64
  | .nan => .nan
  | .infinite negative => .infinite negative
  | .decimal negative value => .signed negative value.toMagnitude

end Literal

/-- Reads a decimal literal as the nearest binary64 number. -/
def Binary64.parse (text : String) : Except LiteralFault Binary64 :=
  (Literal.parse text).map Literal.toBinary64

/-- Why a text is no whole number of 64 bits. -/
inductive WholeFault where
  | empty
  | badDigit
  | tooLarge
  deriving DecidableEq, Repr

/-- The wording of a whole number's fault. -/
def WholeFault.message : WholeFault → String
  | .empty => "cannot parse integer from empty string"
  | .badDigit => "invalid digit found in string"
  | .tooLarge => "number too large to fit in target type"

namespace Whole

/-- The number of values of 64 bits. -/
def limit : Nat := Nat.pow 2 64

/-- The value of a digit in the given base. -/
def digit? (base : Nat) (c : Char) : Option Nat :=
  let value? :=
    if c.isDigit then some (c.toNat - '0'.toNat)
    else if 'a' ≤ c && c ≤ 'f' then some (c.toNat - 'a'.toNat + 10)
    else if 'A' ≤ c && c ≤ 'F' then some (c.toNat - 'A'.toNat + 10)
    else none
  value?.filter (· < base)

/-- Reads digits onto the value read so far. -/
def readDigits (base : Nat) : Nat → List Char → Except WholeFault Nat
  | value, [] => .ok value
  | value, c :: rest =>
    match digit? base c with
    | none => .error .badDigit
    | some d =>
      let value' := base * value + d
      if value' < limit then readDigits base value' rest else .error .tooLarge

/-- Reads a whole number in the given base, with an optional plus sign. -/
def parseBase (base : Nat) : List Char → Except WholeFault Nat
  | [] => .error .empty
  | ['+'] => .error .badDigit
  | '+' :: digits => readDigits base 0 digits
  | digits => readDigits base 0 digits

/-- Reads a decimal whole number. -/
def parse (text : String) : Except WholeFault Nat := parseBase 10 text.toList

/-- Reads a whole number that is hexadecimal after `0x` and decimal otherwise. -/
def parseEither (text : String) : Except WholeFault Nat :=
  match text.toList with
  | '0' :: 'x' :: digits => parseBase 16 digits
  | digits => parseBase 10 digits

end Whole
end TimeTrials.Number
