import InlineCil.Body
import InlineCil.Text.Padded

/-!
# Listings

Byte offsets of the instructions of a body, and the listing that shows them. A
branch in a listing names the offset of its target, or its place if the target is
not linked.

Offsets count the encoded bytes of the instructions before, with the operand
sizes of their opcodes; the table of a switch counts one word for each of its
targets. A short branch is counted as short whatever the distance to its target,
so the offsets are those of the code as it is written and not of code whose
branches were widened to reach.

Positions count instructions instead of bytes. They order places within one body
and are what debug points are sorted by.
-/

namespace InlineCil.Body

/-- The lines with their byte offsets, counted from a given one. -/
def offsetsFrom (offset : Nat) : List Line → List (Nat × Line)
  | [] => []
  | line :: rest => (offset, line) :: offsetsFrom (offset + line.instruction.size) rest

/-- The linked lines with their byte offsets. -/
def offsets (b : Body) : List (Nat × Line) := offsetsFrom 0 b.code.linked

/-- The positions of the linked places in program order. -/
def positions (b : Body) : List (Place × Nat) := b.code.places.zipIdx

/-- The position of a linked place. -/
def position? (b : Body) (place : Place) : Option Nat := b.code.places.idxOf? place

/-- The label of an offset. -/
def offsetLabel (offset : Nat) : String := "IL_" ++ Text.hexPadded 4 offset

/-- How a listing names a place. -/
def placeLabel (offsets : List (Nat × Line)) (place : Place) : String :=
  match offsets.find? (·.2.isAt place) with
  | some (offset, _) => offsetLabel offset
  | none => place.text

/-- One line for each instruction, with its offset. -/
def listing (b : Body) : String :=
  let offsets := b.offsets
  String.join (offsets.map fun (offset, line) =>
    offsetLabel offset ++ ": " ++ line.instruction.opcode.mnemonic ++
      line.instruction.operand.textWith (placeLabel offsets) ++ "\n")

end InlineCil.Body
