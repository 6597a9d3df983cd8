import InlineCil.Decimal.Layout
import InlineCil.Opcode

/-!
# Constants and conversions

Numeric constants as the evaluation stack holds them, and what the conversion
opcodes do to them. A conversion first reads its input as a whole number, signed
or not; a checked one then fails outside the range of its target, and an
unchecked one keeps the low bits.

All conversion opcodes are one definition with three parameters: the target,
whether the range is checked, and whether the opcode is one of the forms that
read their input as unsigned. Unchecked conversions to an unsigned type read
their input as unsigned too, so that widening them adds zeros and not the sign.

A floating-point input is cut toward zero before it is narrowed, within 128 bits,
so that an infinity becomes an end of that range. A checked conversion refuses it
before that.
-/

namespace InlineCil

/-- A numeric constant on the evaluation stack. -/
inductive Constant where
  | int32 (value : Int32)
  | int64 (value : Int64)
  | float (value : Binary64)
  deriving DecidableEq, Repr

/-- The written form; 64-bit integers carry a mark. -/
def Constant.text : Constant → String
  | .int32 value => toString value.toInt
  | .int64 value => toString value.toInt ++ "L"
  | .float value => value.text

/-- What a conversion produces: an integer of some bits, or a floating-point
number. -/
inductive Conversion.Target where
  | integer (bits : Nat) (signed : Bool)
  | float32
  | float64
  deriving DecidableEq, Repr

/-- A conversion opcode: its target, whether it checks for overflow, and whether
it is one of the forms that read their input as unsigned. -/
structure Conversion where
  target : Conversion.Target
  checked : Bool
  unsignedForm : Bool
  deriving DecidableEq, Repr

/-- The conversion that an opcode performs. Native integers have 64 bits. -/
def Opcode.conversion? : Opcode → Option Conversion
  | .convI1 => some ⟨.integer 8 true, false, false⟩
  | .convI2 => some ⟨.integer 16 true, false, false⟩
  | .convI4 => some ⟨.integer 32 true, false, false⟩
  | .convI8 | .convI => some ⟨.integer 64 true, false, false⟩
  | .convU1 => some ⟨.integer 8 false, false, false⟩
  | .convU2 => some ⟨.integer 16 false, false, false⟩
  | .convU4 => some ⟨.integer 32 false, false, false⟩
  | .convU8 | .convU => some ⟨.integer 64 false, false, false⟩
  | .convR4 => some ⟨.float32, false, false⟩
  | .convR8 => some ⟨.float64, false, false⟩
  | .convRUn => some ⟨.float64, false, true⟩
  | .convOvfI1 => some ⟨.integer 8 true, true, false⟩
  | .convOvfU1 => some ⟨.integer 8 false, true, false⟩
  | .convOvfI2 => some ⟨.integer 16 true, true, false⟩
  | .convOvfU2 => some ⟨.integer 16 false, true, false⟩
  | .convOvfI4 => some ⟨.integer 32 true, true, false⟩
  | .convOvfU4 => some ⟨.integer 32 false, true, false⟩
  | .convOvfI8 | .convOvfI => some ⟨.integer 64 true, true, false⟩
  | .convOvfU8 | .convOvfU => some ⟨.integer 64 false, true, false⟩
  | .convOvfI1Un => some ⟨.integer 8 true, true, true⟩
  | .convOvfU1Un => some ⟨.integer 8 false, true, true⟩
  | .convOvfI2Un => some ⟨.integer 16 true, true, true⟩
  | .convOvfU2Un => some ⟨.integer 16 false, true, true⟩
  | .convOvfI4Un => some ⟨.integer 32 true, true, true⟩
  | .convOvfU4Un => some ⟨.integer 32 false, true, true⟩
  | .convOvfI8Un | .convOvfIUn => some ⟨.integer 64 true, true, true⟩
  | .convOvfU8Un | .convOvfUUn => some ⟨.integer 64 false, true, true⟩
  | _ => none

namespace Conversion

/-- The integer input is read as unsigned: by the unsigned forms, and by unchecked
    conversions to an unsigned type. -/
def readsUnsigned (c : Conversion) : Bool :=
  c.unsignedForm || (!c.checked && match c.target with
    | .integer _ signed => !signed
    | _ => false)

/-- The number of values of an integer type. -/
def valueCount (bits : Nat) : Nat := 1 <<< bits

/-- A whole number lies in the range of an integer type. -/
def inRange (bits : Nat) (signed : Bool) (value : Int) : Bool :=
  if signed then -(valueCount (bits - 1) : Int) ≤ value && value < valueCount (bits - 1)
  else 0 ≤ value && value < valueCount bits

/-- The low bits of a whole number, extended again by sign or by zeros. The
result is a 64-bit constant for targets above 32 bits. -/
def narrowed (bits : Nat) (signed : Bool) (value : Int) : Constant :=
  let low := if signed then value.bmod (valueCount bits) else value.emod (valueCount bits)
  if bits ≤ 32 then .int32 (Int32.ofInt low) else .int64 (Int64.ofInt low)

/-- Convert a whole number to an integer type, unless a check fails. -/
def ofWhole (c : Conversion) (bits : Nat) (signed : Bool) (value : Int) : Option Constant :=
  if c.checked && !inRange bits signed value then none else some (narrowed bits signed value)

/-- Convert an integer constant once it has been read as a whole number. -/
def ofInteger (c : Conversion) (value : Int) : Option Constant :=
  match c.target with
  | .integer bits signed => c.ofWhole bits signed value
  | .float32 => some (.float (.ofBinary32 (.ofNumber (.ofInt value))))
  | .float64 => some (.float (.ofInt value))

/-- Apply a conversion; a checked one that overflows has no result. A
floating-point input is cut toward zero, and a checked conversion refuses
infinities and what is no number. -/
def apply (c : Conversion) : Constant → Option Constant
  | .int32 value =>
      c.ofInteger (if c.readsUnsigned then (value.toUInt32.toNat : Int) else value.toInt)
  | .int64 value =>
      c.ofInteger (if c.readsUnsigned then (value.toUInt64.toNat : Int) else value.toInt)
  | .float value =>
      match c.target with
      | .float32 => some (.float (.ofBinary32 value.toBinary32))
      | .float64 => some (.float value)
      | .integer bits signed =>
          if c.checked && !value.number.isFinite then none
          else c.ofWhole bits signed value.number.truncated

end Conversion

end InlineCil
