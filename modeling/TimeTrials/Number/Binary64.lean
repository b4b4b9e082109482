/-!
# Binary64 numbers as exact integers

A time is a binary64 number: 53 significant bits, and an exponent that bottoms out at `2⁻¹⁰⁷⁴`.
Every statement made about a time in this library is a statement about its exact value, such as
which of two bars is longer, which digits read back, or whether a sum has overflowed.  So the type
is built from that value, not from a machine word.

## Ranks and units

Two views carry the whole arithmetic.

The *rank* of a non-negative number is its position when all of them are listed in increasing
order: `0` has rank `0`, the least positive number has rank `1`, and infinity comes last, at
`infinityRank`.  Comparing numbers is comparing ranks.

The *units* of a finite rank are its exact value in multiples of `2⁻¹⁰⁷⁴`.  Every finite number is a
whole number of units, so the exact result of an operation is a quotient of two natural numbers, and
`nearestRank` takes that quotient to the nearest rank, a tie to the even one.  Each operation below
is that recipe and nothing else: exact value first, one rounding last.

The carry of a significand into the next binade needs no case of its own.  Within a binade a step of
one rank is a step of one unit in the last place, and the first rank of a binade follows the last
rank of the one before, so rounding up past the end of a binade lands on the right rank by addition.
-/

namespace TimeTrials.Number

/-- The rank of infinity.  There are 2047 runs of `2 ^ 52` finite ranks before it: the subnormal
numbers and 2046 binades. -/
def infinityRank : Nat := 2047 * Nat.pow 2 52

/-- The binade of a rank, counted so that the subnormal numbers and the least normal ones, which
have the same spacing of one unit, are both binade `0`. -/
def binade (rank : Nat) : Nat := rank / Nat.pow 2 52 - 1

/-- The exact value of a finite rank in units of `2⁻¹⁰⁷⁴`: significand times spacing. -/
def unitsOfRank (rank : Nat) : Nat := (rank - binade rank * Nat.pow 2 52) * Nat.pow 2 (binade rank)

/-- How many units make the number one. -/
def one : Nat := Nat.pow 2 1074

/-- The whole number nearest to `num / den`; a tie goes to the even neighbour. -/
def roundHalfEven (num den : Nat) : Nat :=
  let floor := num / den
  let twice := 2 * (num % den)
  if twice < den then floor
  else if den < twice then floor + 1
  else floor + floor % 2

/-- The rank nearest to `num / den` units.  The binade is read off the whole part; rounding within
it may carry into the next one, which the sum takes care of.  From half a step above the largest
finite number onwards the result is infinity. -/
def nearestRank (num den : Nat) : Nat :=
  let step := (num / den).log2 - 52
  min infinityRank (step * Nat.pow 2 52 + roundHalfEven num (den * Nat.pow 2 step))

/-- The absolute value of a number that is not a NaN. -/
structure Magnitude where
  /-- The position among the non-negative numbers. -/
  rank : Nat
  /-- Nothing comes after infinity. -/
  rank_le : rank ≤ infinityRank
  deriving DecidableEq

namespace Magnitude

/-- The magnitude of both zeros. -/
def zero : Magnitude := ⟨0, Nat.zero_le _⟩

/-- The magnitude beyond every finite one. -/
def infinity : Magnitude := ⟨infinityRank, Nat.le_refl _⟩

/-- The magnitude nearest to `num / den` units. -/
def nearest (num den : Nat) : Magnitude :=
  ⟨nearestRank num den, Nat.min_le_left _ _⟩

@[simp] theorem rank_nearest (num den : Nat) : (nearest num den).rank = nearestRank num den := rfl

/-- The exact value in units; meaningful for a finite magnitude. -/
def units (m : Magnitude) : Nat := unitsOfRank m.rank

/-- Whether the magnitude is infinite. -/
def isInfinite (m : Magnitude) : Bool := m.rank == infinityRank

end Magnitude

/-- A binary64 number: a sign and a magnitude, or not a number at all. -/
inductive Binary64 where
  | nan
  | signed (negative : Bool) (magnitude : Magnitude)
  deriving DecidableEq

namespace Binary64

instance : Inhabited Binary64 := ⟨.signed false .zero⟩

/-- Positive zero. -/
def zero : Binary64 := .signed false .zero

/-- Negative zero, from which sums start: it is the number that changes no other under addition. -/
def negativeZero : Binary64 := .signed true .zero

/-- Infinity of the given sign. -/
def infinite (negative : Bool) : Binary64 := .signed negative .infinity

/-- The number of the given sign nearest to `num / den` units. -/
def nearest (negative : Bool) (num den : Nat) : Binary64 := .signed negative (.nearest num den)

/-- The number nearest to a natural number. -/
def ofNat (n : Nat) : Binary64 := nearest false (n * one) 1

/-- Whether the number is neither infinite nor a NaN. -/
def isFinite : Binary64 → Bool
  | .nan => false
  | .signed _ m => !m.isInfinite

/-- The position on the line from minus infinity to infinity, on which both zeros stand at `0`. -/
def position : Binary64 → Option Int
  | .nan => none
  | .signed negative m => some (if negative then -(m.rank : Int) else m.rank)

/-- Strictly less; a NaN is less than nothing and nothing is less than it. -/
def lt (x y : Binary64) : Bool :=
  match x.position, y.position with
  | some a, some b => a < b
  | _, _ => false

/-- Less or equal; false whenever a NaN takes part. -/
def le (x y : Binary64) : Bool :=
  match x.position, y.position with
  | some a, some b => a ≤ b
  | _, _ => false

/-- The larger of two numbers; a NaN gives way to the other one. -/
def max : Binary64 → Binary64 → Binary64
  | .nan, y => y
  | x, .nan => x
  | x, y => if x.lt y then y else x

/-- The number with its sign turned. -/
def neg : Binary64 → Binary64
  | .nan => .nan
  | .signed negative m => .signed (!negative) m

/-- The sum of two finite numbers.  Opposite numbers add up to positive zero. -/
def addFinite (negative : Bool) (a : Nat) (negative' : Bool) (b : Nat) : Binary64 :=
  if negative == negative' then nearest negative (a + b) 1
  else if b < a then nearest negative (a - b) 1
  else if a < b then nearest negative' (b - a) 1
  else zero

/-- The sum, rounded to nearest. -/
def add : Binary64 → Binary64 → Binary64
  | .signed s a, .signed t b =>
    if a.isInfinite then
      if b.isInfinite && s != t then .nan else .signed s a
    else if b.isInfinite then .signed t b
    else addFinite s a.units t b.units
  | _, _ => .nan

/-- The difference, rounded to nearest. -/
def sub (x y : Binary64) : Binary64 := x.add y.neg

/-- The product, rounded to nearest. -/
def mul : Binary64 → Binary64 → Binary64
  | .signed s a, .signed t b =>
    if a.isInfinite || b.isInfinite then
      if a.rank == 0 || b.rank == 0 then .nan else infinite (s != t)
    else nearest (s != t) (a.units * b.units) one
  | _, _ => .nan

/-- The quotient, rounded to nearest.  A non-zero number over zero is infinite. -/
def div : Binary64 → Binary64 → Binary64
  | .signed s a, .signed t b =>
    if a.isInfinite then
      if b.isInfinite then .nan else infinite (s != t)
    else if b.isInfinite then .signed (s != t) .zero
    else if b.rank == 0 then
      if a.rank == 0 then .nan else infinite (s != t)
    else nearest (s != t) (a.units * one) b.units
  | _, _ => .nan

/-- The square root, rounded to nearest.  The whole part of the root has hundreds of bits more than a
significand, so a half unit stands in for whatever it leaves over. -/
def sqrt : Binary64 → Binary64
  | .nan => .nan
  | .signed negative m =>
    if m.rank == 0 then .signed negative m
    else if negative then .nan
    else if m.isInfinite then .signed false m
    else
      let square := m.units * one
      let root := square.sqrt
      nearest false (2 * root + if root * root = square then 0 else 1) 2

/-- The whole number nearest to the value, a half rounded up, and no larger than `last`.  Negative
numbers and NaN give `0`, infinity gives `last`. -/
def roundTo (last : Nat) : Binary64 → Nat
  | .nan => 0
  | .signed true _ => 0
  | .signed false m =>
    if m.isInfinite then last else min last ((m.units + one / 2) / one)

/-- The interchange encoding: sign in the top bit, rank below it.  Every NaN is the quiet one. -/
def bits : Binary64 → Nat
  | .nan => 0x7ff8000000000000
  | .signed negative m => (if negative then Nat.pow 2 63 else 0) + m.rank

end Binary64
end TimeTrials.Number
