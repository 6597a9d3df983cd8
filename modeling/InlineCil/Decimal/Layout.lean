import InlineCil.Decimal.Shortest

/-!
# Layouts of decimals

How a floating-point constant is written once its digits are known. A `Layout`
holds the decisions of one notation; `Layout.plain` is the notation of
instructions and messages, `Layout.exact` that of values shown with their
structure.

The two differ in when there is an exponent and in how a whole number is marked.
The plain notation never has an exponent, so a very large or very small constant
is written with all its zeros; whole numbers look like integers there. The exact
notation tells a floating-point number from an integer at a glance, by a point or
by an exponent.

Zeros at the end of the digits are dropped first. What remains is placed around
the point by the power of ten of the leading digit, with zeros filled in on
either side where digits are lacking.
-/

namespace InlineCil.Decimal

/-- The decisions of a notation. `positional` bounds the powers of ten of the
leading digit that are written without an exponent, `none` meaning all of them. -/
structure Layout where
  positional : Option (Int × Int)
  wholeMark : String
  deriving Repr

/-- Digits are always written out to the point, and whole numbers carry no mark. -/
def Layout.plain : Layout := ⟨none, ""⟩

/-- Whole numbers end in ".0"; below 10^-4 and from 10^16 on there is an
exponent. -/
def Layout.exact : Layout := ⟨some (-4, 16), ".0"⟩

/-- Decimal digits without the zeros at their end. -/
def significantDigits (digits : Nat) : List Char :=
  ((Nat.toDigits 10 digits).reverse.dropWhile (· == '0')).reverse

namespace Layout

/-- Digits with the point written in place; `lead` is the power of the first
digit. -/
def positionalText (l : Layout) (digits : List Char) (lead : Int) : String :=
  if lead < 0 then
    "0." ++ String.ofList (List.replicate (-lead - 1).toNat '0' ++ digits)
  else
    let whole := (lead + 1).toNat
    if digits.length ≤ whole then
      String.ofList (digits ++ List.replicate (whole - digits.length) '0') ++ l.wholeMark
    else
      String.ofList (digits.take whole) ++ "." ++ String.ofList (digits.drop whole)

/-- One digit, a point if more follow, the others, and the power of the first
digit. -/
def exponentText (digits : List Char) (lead : Int) : String :=
  let fraction := digits.drop 1
  String.ofList (digits.take 1) ++
    (if fraction.isEmpty then "" else "." ++ String.ofList fraction) ++ "e" ++ toString lead

/-- Write a positive magnitude. -/
def magnitudeText (l : Layout) (m : Magnitude) : String :=
  let digits := significantDigits m.digits
  let lead := m.exponent + (Nat.toDigits 10 m.digits).length - 1
  match l.positional with
  | none => l.positionalText digits lead
  | some (least, bound) =>
      if least ≤ lead ∧ lead < bound then l.positionalText digits lead
      else exponentText digits lead

/-- Write a number of a format with its shortest digits. -/
def text (l : Layout) (f : BinaryFormat) : BinaryNumber → String
  | .nan => "NaN"
  | .infinite negative => if negative then "-inf" else "inf"
  | .finite negative significand exponent =>
      (if negative then "-" else "") ++
        if significand = 0 then "0" ++ l.wholeMark
        else l.magnitudeText (shortest f significand exponent)

end Layout

end InlineCil.Decimal

namespace InlineCil

/-- A constant of 32 bits in plain notation, with the digits of its own
precision. -/
def Binary32.text (x : Binary32) : String :=
  Decimal.Layout.plain.text .single x.number

/-- A constant of 64 bits in plain notation. -/
def Binary64.text (x : Binary64) : String :=
  Decimal.Layout.plain.text .double x.number

/-- A constant of 64 bits as it is shown inside a structure. -/
def Binary64.exactText (x : Binary64) : String :=
  Decimal.Layout.exact.text .double x.number

end InlineCil
