import InlineCil.Binary

/-!
# Shortest decimals

The decimal with the fewest digits that still reads back as a given
floating-point word. A word stands for every real nearer to it than to its
neighbours, the ends of that interval included when its significand is even. For
one digit, two digits and so on, the two grid points around the exact value are
tested against the interval; the first grid with a hit wins, and of two hits the
nearer.

All of it is exact arithmetic in `Nat`. The exact value and the ends of the
interval are numerators over one denominator, in units of a quarter of the last
significand bit, so that even the halved interval below a power of two has whole
ends. Changing the grid multiplies either the numerators or the denominator by a
power of ten.

Seventeen digits suffice for the words of 64 bits. The search has a bound a
little above that, after which the value would be cut to the last grid.
-/

namespace InlineCil.Decimal

/-- A decimal magnitude `digits * 10 ^ exponent`. -/
structure Magnitude where
  digits : Nat
  exponent : Int
  deriving DecidableEq, Repr

/-- The value of a word and the ends of its rounding interval, as numerators over
one denominator. -/
structure Interval where
  low : Nat
  value : Nat
  high : Nat
  denominator : Nat
  closed : Bool
  deriving Repr

/-- The rounding interval of `significand * 2 ^ exponent`. Below the first
significand of an exponent the neighbour is only half as far away, unless the
exponent is the least. -/
def Interval.ofWord (f : BinaryFormat) (significand : Nat) (exponent : Int) : Interval :=
  let below :=
    if significand = f.fractionCount ∧ f.leastExponent < exponent then 1 else 2
  let power := exponent - 2
  let up := 1 <<< power.toNat
  { low := (4 * significand - below) * up
    value := 4 * significand * up
    high := (4 * significand + 2) * up
    denominator := 1 <<< (-power).toNat
    closed := significand % 2 = 0 }

namespace Interval

/-- Scale numerators and denominator so that one unit stands for `10 ^ exponent`. -/
def scaled (i : Interval) (exponent : Int) : Interval :=
  let up := Nat.pow 10 (-exponent).toNat
  { i with
    low := i.low * up
    value := i.value * up
    high := i.high * up
    denominator := i.denominator * Nat.pow 10 exponent.toNat }

/-- A whole number of units lies in the interval. -/
def contains (i : Interval) (count : Nat) : Bool :=
  let point := count * i.denominator
  if i.closed then i.low ≤ point && point ≤ i.high else i.low < point && point < i.high

/-- The number of decimal digits before the point; zero or less for a value below
one. The value is first scaled up until its whole part is positive. -/
def magnitudeOrder (i : Interval) : Int :=
  let shift := i.denominator.log2 + 1
  ((Nat.toDigits 10 (i.value * Nat.pow 10 shift / i.denominator)).length : Int) - (shift : Int)

/-- The whole number of units inside the interval that is nearest to the value,
the upper one of two equally near, if there is one. -/
def nearest? (i : Interval) : Option Nat :=
  let below := i.value / i.denominator
  let fromBelow := i.value - below * i.denominator
  match i.contains below, i.contains (below + 1) with
  | true, true => if 2 * fromBelow < i.denominator then some below else some (below + 1)
  | true, false => some below
  | false, true => some (below + 1)
  | false, false => none

/-- Try grids of growing fineness; after the last one the value is cut to its
grid. -/
def search (i : Interval) (order : Int) : (digits tries : Nat) → Magnitude
  | digits, 0 => ⟨(i.scaled (order - digits)).value / (i.scaled (order - digits)).denominator,
      order - digits⟩
  | digits, tries + 1 =>
      match (i.scaled (order - digits)).nearest? with
      | some count => ⟨count, order - digits⟩
      | none => search i order (digits + 1) tries

end Interval

/-- The fewest digits that always suffice are found before twenty of them. -/
def shortest (f : BinaryFormat) (significand : Nat) (exponent : Int) : Magnitude :=
  let interval := Interval.ofWord f significand exponent
  interval.search interval.magnitudeOrder 1 19

end InlineCil.Decimal
