import InlineCil.Body

/-!
# Basic blocks

A block is a run of instructions that control enters only at its first and leaves
only after its last one. A block starts at the first instruction, at every branch
target, at every border of an exception clause and after every instruction that
ends a block. Blocks are those of the body they were computed from; places linked
later belong to none.

Markers take their arguments from their own block only, since an argument in
another block might be skipped on the way to the call. The blocks are computed
once, before anything is rewritten, and stay in use while the code around the
places changes: a removed branch does not join two blocks, and a label that a
marker adds does not cut one in two.

Numbers count from zero in program order, so the number of blocks is the number
of the last one and one more.
-/

namespace InlineCil

/-- The number of the block of each place, in program order, and the number of
blocks. -/
structure Blocks where
  membership : List (Place × Nat) := []
  count : Nat := 0
  deriving Repr

namespace Blocks

/-- The places that branches go to and the borders of clauses. -/
def namedPlaces (b : Body) : List Place :=
  b.code.linked.flatMap (·.instruction.targets) ++ b.clauses.flatMap Clause.borders

/-- Number the blocks from `count` on. `starting` says that the next instruction
starts a block by its position, `current` is the block of the instruction before
it. -/
def number (named : List Place) : List Line → (starting : Bool) → (count : Nat) → Blocks
  | [], _, count => ⟨[], count⟩
  | line :: rest, starting, count =>
      let count := if starting || named.contains line.place then count + 1 else count
      let blocks := number named rest line.instruction.opcode.flow.endsBlock count
      { blocks with membership := (line.place, count - 1) :: blocks.membership }

/-- The blocks of a body. -/
def ofBody (b : Body) : Blocks := number (namedPlaces b) b.code.linked true 0

/-- The block of a place. -/
def block? (blocks : Blocks) (place : Place) : Option Nat :=
  (blocks.membership.find? (·.1 = place)).map Prod.snd

/-- Two places belong to one block. -/
def sameBlock (blocks : Blocks) (a b : Place) : Bool :=
  match blocks.block? a, blocks.block? b with
  | some m, some n => m = n
  | _, _ => false

end Blocks

end InlineCil
