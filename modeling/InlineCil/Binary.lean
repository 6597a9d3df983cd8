/-!
# Binary floating-point words

The two interchange formats of floating-point constants, as raw words. A word
decodes to an exact number: a sign, a significand and a power of two, an
infinity, or no number at all. Arithmetic on these exact numbers is done in `Nat`
and `Int`; `BinaryFormat.encode` is the only place where a value is rounded, to
the nearest word and to the even one of two equally near.

Constants are kept as words and not as numbers since there are more words than
numbers: zero has two signs, and words that stand for no number differ in their
payload. Copying a constant keeps its word, and only the conversions between the
two formats and from whole numbers go through the number. A rounded magnitude may
carry into the exponent field, and past the greatest finite word it is the word
of infinity; both happen by the order of the words, with no case of their own.
-/

namespace InlineCil

/-- What a floating-point word stands for. A finite number is
    `significand * 2 ^ exponent` with its sign kept apart, so zero has two signs. -/
inductive BinaryNumber where
  | finite (negative : Bool) (significand : Nat) (exponent : Int)
  | infinite (negative : Bool)
  | nan
  deriving DecidableEq, Repr

/-- An interchange format: the bits of a significand, its leading one included,
and the bits of the exponent field. -/
structure BinaryFormat where
  precision : Nat
  exponentBits : Nat
  deriving DecidableEq, Repr

namespace BinaryFormat

/-- The format with words of 32 bits. -/
def single : BinaryFormat := ⟨24, 8⟩

/-- The format with words of 64 bits. -/
def double : BinaryFormat := ⟨53, 11⟩

/-- The number of fraction words that share one exponent field. -/
def fractionCount (f : BinaryFormat) : Nat := 1 <<< (f.precision - 1)

/-- The exponent of the last significand bit of the smallest finite numbers. -/
def leastExponent (f : BinaryFormat) : Int :=
  3 - (1 <<< (f.exponentBits - 1) : Nat) - (f.precision : Int)

/-- The word of positive infinity; every smaller word is a finite magnitude. -/
def infinityWord (f : BinaryFormat) : Nat := ((1 <<< f.exponentBits) - 1) * f.fractionCount

/-- The word of the sign bit alone. -/
def signWord (f : BinaryFormat) : Nat := f.fractionCount <<< f.exponentBits

/-- Decode a word. An exponent field of zero has no leading one. -/
def decode (f : BinaryFormat) (word : Nat) : BinaryNumber :=
  let negative := decide (f.signWord ≤ word)
  let magnitude := word % f.signWord
  let field := magnitude / f.fractionCount
  let fraction := magnitude % f.fractionCount
  if magnitude < f.infinityWord then
    if field = 0 then .finite negative fraction f.leastExponent
    else .finite negative (f.fractionCount + fraction) (f.leastExponent + (field - 1 : Nat))
  else if magnitude = f.infinityWord then .infinite negative
  else .nan

/-- Divide and round to the nearest whole number, to the even one of two equally
near. -/
def roundedQuotient (numerator denominator : Nat) : Nat :=
  let quotient := numerator / denominator
  let twice := 2 * (numerator % denominator)
  if twice < denominator ∨ (twice = denominator ∧ quotient % 2 = 0) then quotient
  else quotient + 1

/-- The magnitude word nearest to `significand * 2 ^ exponent`. The result's last
bit stands for the power that leaves `precision` bits, or for the least exponent
of the format; a carry out of the significand moves into the exponent field by
itself. -/
def magnitudeWord (f : BinaryFormat) (significand : Nat) (exponent : Int) : Nat :=
  if significand = 0 then 0
  else
    let last := max f.leastExponent
      (exponent + (significand.log2 + 1 : Nat) - (f.precision : Int))
    let scaled :=
      if last ≤ exponent then significand <<< (exponent - last).toNat
      else roundedQuotient significand (1 <<< (last - exponent).toNat)
    min f.infinityWord ((last - f.leastExponent).toNat * f.fractionCount + scaled)

/-- Encode a number in the format, rounding it to the nearest word. -/
def encode (f : BinaryFormat) : BinaryNumber → Nat
  | .finite negative significand exponent =>
      (if negative then f.signWord else 0) + f.magnitudeWord significand exponent
  | .infinite negative => (if negative then f.signWord else 0) + f.infinityWord
  | .nan => f.infinityWord + f.fractionCount / 2

end BinaryFormat

namespace BinaryNumber

/-- A whole number, exactly. -/
def ofInt (value : Int) : BinaryNumber := .finite (decide (value < 0)) value.natAbs 0

/-- One above the greatest signed word of 128 bits. -/
def wordBound : Int := (1 <<< 127 : Nat)

/-- The whole part of a number, cut toward zero and held within the range of
signed words of 128 bits. An infinity is at the end of that range and no number
is zero. -/
def truncated : BinaryNumber → Int
  | .finite negative significand exponent =>
      let whole :=
        if 0 ≤ exponent then significand <<< exponent.toNat
        else significand >>> (-exponent).toNat
      if negative then max (-wordBound) (-(whole : Int)) else min (wordBound - 1) (whole : Int)
  | .infinite negative => if negative then -wordBound else wordBound - 1
  | .nan => 0

/-- Finite numbers, neither infinite nor missing. -/
def isFinite : BinaryNumber → Bool
  | .finite .. => true
  | _ => false

end BinaryNumber

/-- A floating-point constant of 32 bits, as its word. -/
structure Binary32 where
  bits : UInt32
  deriving DecidableEq, Repr

/-- A floating-point constant of 64 bits, as its word. -/
structure Binary64 where
  bits : UInt64
  deriving DecidableEq, Repr

namespace Binary32

/-- The number a word stands for. -/
def number (x : Binary32) : BinaryNumber := BinaryFormat.single.decode x.bits.toNat

/-- The word nearest to a number. -/
def ofNumber (n : BinaryNumber) : Binary32 := ⟨(BinaryFormat.single.encode n).toUInt32⟩

end Binary32

namespace Binary64

/-- The number a word stands for. -/
def number (x : Binary64) : BinaryNumber := BinaryFormat.double.decode x.bits.toNat

/-- The word nearest to a number. -/
def ofNumber (n : BinaryNumber) : Binary64 := ⟨(BinaryFormat.double.encode n).toUInt64⟩

/-- The word nearest to a whole number. -/
def ofInt (value : Int) : Binary64 := ofNumber (.ofInt value)

/-- The nearest word of 32 bits. -/
def toBinary32 (x : Binary64) : Binary32 := .ofNumber x.number

/-- The same number in 64 bits. -/
def ofBinary32 (x : Binary32) : Binary64 := ofNumber x.number

end Binary64

end InlineCil
