import TimeTrials.Number.Decimal

/-!
# Writing numbers

One decimal can be written in several ways; a `Style` is the set of choices that a place of output
makes.  The styles in use are collected here: rows of a dataset, log values, plain text in messages,
and refused settings.  All write the shortest digits; they differ in where positional writing ends
and in whether a whole number keeps a zero after its point.  Tables and charts write a fixed number
of places instead (`fixed`).
-/

namespace TimeTrials.Number

/-- How a number with shortest digits is written. -/
structure Style where
  /-- Numbers whose leading digit has a smaller power of ten are written with an exponent. -/
  lowest : Option Int
  /-- Numbers whose leading digit has at least this power of ten are written with an exponent. -/
  highest : Option Int
  /-- Whether a whole number is written with `.0`. -/
  keepsPoint : Bool

namespace Style

/-- Times in a dataset: positional from `10⁻⁵` up to `10¹⁶`. -/
def dataset : Style := ⟨some (-5), some 16, true⟩

/-- Times in a log line: positional from `10⁻⁴` up to `10¹⁶`. -/
def log : Style := ⟨some (-4), some 16, true⟩

/-- Numbers in a message: always positional, and whole numbers without a point. -/
def message : Style := ⟨none, none, false⟩

/-- A refused number of the settings: always positional, with a point. -/
def refused : Style := ⟨none, none, true⟩

/-- Whether a leading digit at this power of ten is written positionally. -/
def isPositional (style : Style) (power : Int) : Bool :=
  style.lowest.all (· ≤ power) && style.highest.all (power < ·)

end Style

/-- A run of zeros. -/
def zeros (n : Nat) : List Char := List.replicate n '0'

/-- Digits around a point, with zeros filled in where the exponent asks for them. -/
def positional (keepsPoint : Bool) (digits : List Char) (exponent : Int) : List Char :=
  if 0 ≤ exponent then
    digits ++ zeros exponent.toNat ++ if keepsPoint then ['.', '0'] else []
  else
    let places := (-exponent).toNat
    if places < digits.length then
      digits.take (digits.length - places) ++ '.' :: digits.drop (digits.length - places)
    else '0' :: '.' :: zeros (places - digits.length) ++ digits

/-- The text of an integer. -/
def integerText (n : Int) : List Char :=
  if n < 0 then '-' :: digitsOf n.natAbs else digitsOf n.natAbs

/-- One digit, a point if more follow, and the power of ten of the first. -/
def scientific (digits : List Char) (power : Int) : List Char :=
  match digits with
  | [] => []
  | [d] => d :: 'e' :: integerText power
  | d :: rest => d :: '.' :: rest ++ 'e' :: integerText power

/-- A decimal in the given style. -/
def Decimal.write (style : Style) (d : Decimal) : List Char :=
  let digits := digitsOf d.digits
  let power := digits.length - 1 + d.exponent
  if style.isPositional power then positional style.keepsPoint digits d.exponent
  else scientific digits power

/-- A minus sign, if asked for, before the text. -/
def signedText (negative : Bool) (text : List Char) : List Char :=
  if negative then '-' :: text else text

/-- The shortest text of a number in the given style. -/
def Binary64.write (style : Style) : Binary64 → String
  | .nan => "NaN"
  | .signed negative m =>
    String.ofList <| signedText negative <|
      if m.isInfinite then ['i', 'n', 'f'] else m.shortest.write style

/-- A magnitude with a fixed number of places, the last one rounded half to even. -/
def Magnitude.fixed (places : Nat) (m : Magnitude) : List Char :=
  let scaled := roundHalfEven m.scaledDigits (Nat.pow 10 (unitPlaces - places))
  let digits := digitsOf (scaled % Nat.pow 10 places)
  digitsOf (scaled / Nat.pow 10 places) ++ '.' :: zeros (places - digits.length) ++ digits

/-- The text of a number with a fixed number of places, at least one.  The sign stays even where
only zeros are left of the number. -/
def Binary64.fixed (places : Nat) : Binary64 → String
  | .nan => "NaN"
  | .signed negative m =>
    String.ofList <| signedText negative <|
      if m.isInfinite then ['i', 'n', 'f'] else m.fixed places

end TimeTrials.Number
