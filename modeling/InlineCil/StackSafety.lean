import InlineCil.Body

/-!
# Stack safety

A pushing marker leaves its argument on the evaluation stack, for the
instructions after it. That is sound only while straight-line code has put the
value there: where control merges, or a handler is entered, the compiler may have
moved what was on the stack. One pass over the body follows the depth of the
stack and a watermark, the depth below which nothing is known. A push is unsafe
if its argument is below the watermark.

States arrive at a place by falling through from the line before and by branches
from lines before that; a branch backward brings its state too late for the one
pass, but its target counts it as a predecessor. Handlers have a state on entry
that no branch changes. Where two or more ways lead to a place, the watermark
rises to the depth.

The walk goes over the lines once, with the states that have arrived so far, and
notes the state before each line.
-/

namespace InlineCil

/-- What is known about the stack before an instruction. A fixed state is that of
a handler on entry, which nothing else changes. -/
structure StackState where
  depth : Nat := 0
  watermark : Nat := 0
  fixed : Bool := false
  deriving DecidableEq, Repr

namespace StackState

/-- Two states that reach one place. The later depth counts, and the higher
watermark. -/
def merge (earlier later : StackState) : StackState :=
  if earlier.fixed then earlier
  else if later.fixed then later
  else ⟨later.depth, max earlier.watermark later.watermark, false⟩

/-- The state before an instruction from the one that falls through to it and the
one that arrives by a branch. -/
def entering : (falling arriving : Option StackState) → StackState
  | some falling, some arriving => falling.merge arriving
  | some falling, none => falling
  | none, some arriving => arriving
  | none, none => {}

/-- Where control merges, nothing on the stack is known any more. -/
def atJoin (s : StackState) (predecessors : Nat) : StackState :=
  if !s.fixed && 2 ≤ predecessors then { s with watermark := max s.watermark s.depth } else s

/-- The value on top of the stack is not known to be where it was put. -/
def topUnknown (s : StackState) : Bool := s.depth = 0 || s.depth - 1 < s.watermark

/-- The state after an instruction. -/
def after (s : StackState) (effect : StackEffect) : StackState :=
  if effect.clears then {}
  else
    let depth := s.depth - effect.pops
    ⟨depth + effect.pushes, min s.watermark depth, false⟩

end StackState

namespace StackSafety

/-- The states that arrive at places by branches and handler entries. -/
abbrev Arrivals := List (Place × StackState)

/-- Set the state that arrives at a place, whatever arrived before. -/
def enter (arrivals : Arrivals) (place : Place) (state : StackState) : Arrivals :=
  (place, state) :: arrivals.filter (·.1 != place)

/-- A branch brings a state to a place. -/
def arrive (state : StackState) (arrivals : Arrivals) (place : Place) : Arrivals :=
  enter arrivals place <|
    match arrivals.lookup place with
    | some existing => existing.merge state
    | none => state

/-- The states on entry to the handler of a clause and to its filter. -/
def enterClause (arrivals : Arrivals) (clause : Clause) : Arrivals :=
  let caught : StackState := ⟨1, 1, true⟩
  let arrivals := enter arrivals clause.handlerStart
    (if clause.receivesException then caught else ⟨0, 0, true⟩)
  match clause.filterStart with
  | some filter => enter arrivals filter caught
  | none => arrivals

/-- Walk over the lines and note the state before each. `falling` is the state
after the line before, if control goes on from there. -/
def walk (branches : List Place) (returnsValue : Bool) :
    List Line → (falling : Option StackState) → (fallsThrough : Bool) → Arrivals →
      List (Line × StackState)
  | [], _, _, _ => []
  | line :: rest, falling, fallsThrough, arrivals =>
      let predecessors := fallsThrough.toNat + branches.count line.place
      let state := (StackState.entering falling (arrivals.lookup line.place)).atJoin predecessors
      let next := state.after (line.instruction.stackEffect returnsValue)
      let ends := line.instruction.opcode.flow.endsFlow
      (line, state) :: walk branches returnsValue rest (if ends then none else some next)
        (!ends) (line.instruction.targets.foldl (arrive next) arrivals)

/-- The stack before each line. -/
def states (b : Body) (returnsValue : Bool) : List (Line × StackState) :=
  walk (b.code.linked.flatMap (·.instruction.targets)) returnsValue b.code.linked
    (some {}) false (b.clauses.foldl enterClause [])

/-- The pushes whose argument is not reliably on the stack. -/
def unsafePushes (b : Body) (returnsValue : Bool) (isPush : Instruction → Bool) : List Place :=
  ((states b returnsValue).filter fun (line, state) =>
    isPush line.instruction && state.topUnknown).map (·.1.place)

end StackSafety

end InlineCil
