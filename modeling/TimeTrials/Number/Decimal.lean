import TimeTrials.Number.Binary64

/-!
# Exact decimals and the fewest digits that read back

`2⁻¹⁰⁷⁴` is `5¹⁰⁷⁴ / 10¹⁰⁷⁴`, so a finite number has a finite decimal expansion with at most 1074
places.  `scaledDigits` is that expansion with the point moved to its end.  Fixed-place text rounds
it; shortest text looks for its shortest prefix that still reads back.

The prefix of a given length comes in two versions, cut off and rounded up: these are the number's
two neighbours on the grid of decimals with that many digits.  If any decimal of that length reads
back as the number, one of its neighbours does, so it is enough to try these.  When both read back,
the nearer is taken.
-/

namespace TimeTrials.Number

/-- A decimal `digits * 10 ^ exponent`. -/
structure Decimal where
  digits : Nat
  exponent : Int
  deriving DecidableEq

/-- How many decimal places a unit has. -/
def unitPlaces : Nat := 1074

/-- The decimal digits of a natural number, most significant first. -/
def digitsOf (n : Nat) : List Char := Nat.toDigits 10 n

/-- How many decimal digits a natural number has. -/
def digitCount (n : Nat) : Nat := (digitsOf n).length

/-- The magnitude nearest to a decimal.  A decimal whose leading digit is far outside the range of
finite numbers is settled without raising ten to its exponent: above `10 ^ 400` everything is
infinite, below `10 ^ -400` everything is zero. -/
def Decimal.toMagnitude (d : Decimal) : Magnitude :=
  let leading : Int := digitCount d.digits + d.exponent
  if d.digits = 0 || leading < -400 then .zero
  else if 400 < leading then .infinity
  else if 0 ≤ d.exponent then .nearest (d.digits * Nat.pow 10 d.exponent.toNat * one) 1
  else .nearest (d.digits * one) (Nat.pow 10 (-d.exponent).toNat)

/-- Takes zeros off the end of the digits, `fuel` at most. -/
def Decimal.trimZeros : Nat → Decimal → Decimal
  | 0, d => d
  | fuel + 1, d =>
    if d.digits % 10 = 0 then trimZeros fuel ⟨d.digits / 10, d.exponent + 1⟩ else d

/-- Without zeros at the end of the digits, and with exponent `0` for zero. -/
def Decimal.trim (d : Decimal) : Decimal :=
  if d.digits = 0 then ⟨0, 0⟩ else d.trimZeros (digitCount d.digits)

namespace Magnitude

/-- The exact value times `10 ^ 1074`. -/
def scaledDigits (m : Magnitude) : Nat := m.units * Nat.pow 5 unitPlaces

/-- The exact value as a decimal. -/
def exact (m : Magnitude) : Decimal := ⟨m.scaledDigits, -unitPlaces⟩

/-- The neighbours of `m` on the grid of decimals that leaves off the last `dropped` digits of its
exact value, as far as they read back as `m`; the nearer one comes first. -/
def neighbours (m : Magnitude) (dropped : Nat) : List Decimal :=
  let scaled := m.scaledDigits
  let grid := Nat.pow 10 dropped
  let below : Decimal := ⟨scaled / grid, dropped - unitPlaces⟩
  let above : Decimal := ⟨scaled / grid + 1, dropped - unitPlaces⟩
  let nearerFirst := if 2 * (scaled % grid) < grid then [below, above] else [above, below]
  nearerFirst.filter fun d => decide (d.toMagnitude = m)

/-- The decimal with the fewest digits that reads back as `m`, and of those the nearest.  Seventeen
digits always suffice; the exact expansion closes the search. -/
def shortest (m : Magnitude) : Decimal :=
  if m.rank = 0 then ⟨0, 0⟩
  else
    let size := digitCount m.scaledDigits
    let found := (List.range' 1 17).findSome? fun length => (m.neighbours (size - length)).head?
    (found.getD m.exact).trim

end Magnitude
end TimeTrials.Number
