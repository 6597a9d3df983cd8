import InlineCil.Clause
import InlineCil.Code
import InlineCil.DebugPoint
import InlineCil.Fault

/-!
# Method bodies

A body is code with its exception clauses, local variables and debug points.
Changing the code moves the references to it: when an instruction leaves,
branches and region starts go to the one after it, or to the one before it at the
end of the body, and region ends go to the one after it or to the end of the
body. Debug points stay where they are.

The two directions differ on purpose. A branch has to go somewhere, so at the end
of the body it falls back to what precedes; a region end at the end of the body
needs no place at all. When only one instruction is left and something names it,
neither rule has an answer, and removing it is refused.

Every change either succeeds and returns the changed body or is refused with a
fault that names the offending place. Nothing here looks at what instructions
mean.
-/

namespace InlineCil

/-- A local variable; most have no name. -/
structure Local where
  name : Option String := none
  type : TypeSig
  deriving Repr

/-- The variable keeps what it points to from moving. -/
def Local.isPinned (l : Local) : Bool := l.type.isPinned

/-- A method body. Debug points are kept in the order they were added. -/
structure Body where
  code : Code := {}
  clauses : List Clause := []
  locals : List Local := []
  initLocals : Bool := true
  points : List DebugPoint := []

namespace Body

/-- The instruction at a linked place. -/
def instruction (b : Body) (place : Place) : Except Fault Instruction :=
  match b.code.instruction? place with
  | some instruction => .ok instruction
  | none => .error (.dangling place)

/-- Move branches and region starts from a place to `start`, region ends to
`stop`. -/
def retarget (b : Body) (old start : Place) (stop : Option Place) : Body :=
  { b with
    code := b.code.retarget old start
    clauses := b.clauses.map (Clause.retarget old start stop) }

/-- A linked branch or an exception clause refers to the place. -/
def refersTo (b : Body) (place : Place) : Bool :=
  b.code.isTarget place || b.clauses.any (·.names place)

/-- The first branch target of a line that is not linked. -/
def danglingTarget? (b : Body) (line : Line) : Option Fault :=
  (line.instruction.targets.find? (!b.code.contains ·)).map
    (.danglingTarget line.place line.instruction)

/-- The first border of a clause that is not linked. -/
def danglingBorder? (b : Body) (clause : Clause) : Option Fault :=
  (clause.borders.find? (!b.code.contains ·)).map .danglingBorder

/-- Every branch and every clause refers to linked places; if not, the first that
does not. -/
def validate (b : Body) : Except Fault Unit :=
  match (b.code.linked.findSome? b.danglingTarget?).or
      (b.clauses.findSome? b.danglingBorder?) with
  | some fault => .error fault
  | none => .ok ()

/-- Hand out a place for a detached instruction. -/
def create (b : Body) (instruction : Instruction) : Place × Body :=
  (⟨b.code.next⟩, { b with code := b.code.create instruction })

/-- Append an instruction. -/
def push (b : Body) (instruction : Instruction) : Place × Body :=
  let (place, b) := b.create instruction
  (place, { b with code := b.code.linkLast place })

/-- Append instructions in order. -/
def pushAll (b : Body) (instructions : List Instruction) : Body :=
  instructions.foldl (fun b instruction => (b.push instruction).2) b

/-- Link a detached instruction before another one. -/
def linkBefore (b : Body) (anchor place : Place) : Except Fault Body :=
  if !b.code.contains anchor then .error (.dangling anchor)
  else if (b.code.detachedInstruction? place).isNone then .error (.alreadyLinked place)
  else .ok { b with code := b.code.linkBefore anchor place }

/-- Insert a new instruction before another one. A refused insertion has still
handed out the place. -/
def insertBefore (b : Body) (anchor : Place) (instruction : Instruction) :
    Except Fault Place × Body :=
  let (place, b) := b.create instruction
  match b.linkBefore anchor place with
  | .ok b => (.ok place, b)
  | .error fault => (.error fault, b)

/-- Insert a new instruction after another one. -/
def insertAfter (b : Body) (anchor : Place) (instruction : Instruction) :
    Except Fault Place × Body :=
  let (place, b) := b.create instruction
  if !b.code.contains anchor then (.error (.dangling anchor), b)
  else match b.code.after? anchor with
    | some next => (.ok place, { b with code := b.code.linkBefore next place })
    | none => (.ok place, { b with code := b.code.linkLast place })

/-- Overwrite an instruction and return the old one. -/
def replace (b : Body) (place : Place) (instruction : Instruction) :
    Except Fault (Instruction × Body) :=
  match b.code.instruction? place with
  | some old => .ok (old, { b with code := b.code.overwrite place instruction })
  | none => .error (.dangling place)

/-- Put a detached instruction into the position of another one, which is
detached; all references follow. Returns the old instruction, its own references
moved too. -/
def replaceWith (b : Body) (old new : Place) : Except Fault (Instruction × Body) := do
  let linked ← b.linkBefore old new
  let moved := linked.retarget old new (some new)
  let instruction ← moved.instruction old
  return (instruction, { moved with code := moved.code.unlink old })

/-- Detach an instruction and move the references to it. The only instruction of
a body does not leave while something refers to it. Returns the instruction, its
own references moved too. -/
def remove (b : Body) (place : Place) : Except Fault (Instruction × Body) :=
  if !b.code.contains place then .error (.dangling place)
  else
    let next := b.code.after? place
    match next.or (b.code.before? place) with
    | none =>
        if b.refersTo place then .error (.lastReferenced place)
        else do
          let instruction ← b.instruction place
          return (instruction, { b with code := b.code.unlink place })
    | some fallback => do
        let moved := b.retarget place fallback next
        let instruction ← moved.instruction place
        return (instruction, { moved with code := moved.code.unlink place })

/-- Detach all instructions and drop all clauses and debug points. -/
def clear (b : Body) : Body :=
  { b with code := b.code.unlinkAll, clauses := [], points := [] }

/-- Drop the debug points whose place is not linked. -/
def prunePoints (b : Body) : Body :=
  { b with points := b.points.filter (b.code.contains ·.place) }

end Body

end InlineCil
