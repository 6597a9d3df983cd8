import InlineCil.Edit

/-!
# Arenas

A body as it lies in memory: one slot for each place handed out, at the index of
the place. The slots of linked instructions hold the places before and after
them, so that lines come and go without moving others. The arena keeps both ends
of the chain and counts the linked slots; every change has to keep all of these
in step.

Three layers of functions follow. The first only looks: a place is found by its
index, and the lines are read off by walking from slot to slot, at most as often
as there are slots, so that walking ends whatever the links say. The second ties
slots together and takes them apart again, with no check of its own. The third is
what callers use; it checks the places it is given before it touches anything,
and a refused change leaves the arena as it was, up to the place that an
insertion has handed out.

Nothing here mentions lists of lines. That the arena does what `Body` does is
proved where the two are related.
-/

namespace InlineCil

/-- Where an instruction is kept. Only linked slots have neighbours. -/
structure Slot where
  instruction : Instruction
  before? : Option Place := none
  after? : Option Place := none
  linked : Bool := false
  deriving Repr

/-- The slot taken out of the chain. -/
def Slot.released (slot : Slot) : Slot := { instruction := slot.instruction }

/-- A body as slots: the ends of the chain, the number of linked slots, and the
clauses and debug points beside them. -/
structure Arena where
  slots : Array Slot := #[]
  first? : Option Place := none
  last? : Option Place := none
  size : Nat := 0
  clauses : List Clause := []
  points : List DebugPoint := []

namespace Arena

/-- The slot of a place, linked or not. -/
def slot? (a : Arena) (place : Place) : Option Slot := a.slots[place.index]?

/-- The slot of a linked place. -/
def linkedSlot? (a : Arena) (place : Place) : Option Slot := (a.slot? place).filter Slot.linked

/-- The place is linked. -/
def contains (a : Arena) (place : Place) : Bool := (a.linkedSlot? place).isSome

/-- The place after a linked place. -/
def after? (a : Arena) (place : Place) : Option Place := (a.linkedSlot? place).bind Slot.after?

/-- The place before a linked place. -/
def before? (a : Arena) (place : Place) : Option Place :=
  (a.linkedSlot? place).bind Slot.before?

/-- The instruction at a detached place. -/
def detachedInstruction? (a : Arena) (place : Place) : Option Instruction :=
  ((a.slot? place).filter (!·.linked)).map Slot.instruction

/-- Walk from slot to slot, for a number of steps at most. A link to a place
without a slot ends the walk as the end of the chain does. -/
def walk (a : Arena) (next? : Slot → Option Place) : Nat → Option Place → List Line
  | 0, _ => []
  | _, none => []
  | steps + 1, some place =>
      match a.slot? place with
      | some slot => ⟨place, slot.instruction⟩ :: a.walk next? steps (next? slot)
      | none => []

/-- The lines from the first on. A chain is no longer than there are slots. -/
def lines (a : Arena) : List Line := a.walk Slot.after? a.slots.size a.first?

/-- The lines from the last backward. -/
def backward (a : Arena) : List Line := a.walk Slot.before? a.slots.size a.last?

/-- A linked branch or an exception clause refers to the place. -/
def refersTo (a : Arena) (place : Place) : Bool :=
  a.lines.any (·.instruction.targets.contains place) || a.clauses.any (·.names place)

/-- Change the slot of a place. -/
def change (a : Arena) (place : Place) (f : Slot → Slot) : Arena :=
  { a with slots := a.slots.modify place.index f }

/-- Say what follows a place, or what comes first. -/
def setAfter (a : Arena) (left right : Option Place) : Arena :=
  match left with
  | some place => a.change place fun slot => { slot with after? := right }
  | none => { a with first? := right }

/-- Say what precedes a place, or what comes last. -/
def setBefore (a : Arena) (right left : Option Place) : Arena :=
  match right with
  | some place => a.change place fun slot => { slot with before? := left }
  | none => { a with last? := left }

/-- Say what is next to the two sides of a gap: `next` after its left side,
`previous` before its right side. -/
def tie (a : Arena) (left right next previous : Option Place) : Arena :=
  (a.setAfter left next).setBefore right previous

/-- Link a detached slot between two neighbours. -/
def link (a : Arena) (left : Option Place) (place : Place) (right : Option Place) : Arena :=
  let a := a.change place fun slot =>
    { slot with before? := left, after? := right, linked := true }
  { a.tie left right (some place) (some place) with size := a.size + 1 }

/-- Take a linked slot out of the chain. -/
def unlink (a : Arena) (place : Place) : Except Fault Instruction × Arena :=
  match a.linkedSlot? place with
  | none => (.error (.dangling place), a)
  | some slot =>
      let a := (a.tie slot.before? slot.after? slot.after? slot.before?).change place Slot.released
      (.ok slot.instruction, { a with size := a.size - 1 })

/-- The largest index that a place can have. -/
def lastIndex : Nat := 4294967295

/-- Hand out a place for a detached instruction. Indices beyond the last possible
one all become that one, where handing out stops being faithful. -/
def create (a : Arena) (instruction : Instruction) : Place × Arena :=
  (⟨min a.slots.size lastIndex⟩, { a with slots := a.slots.push { instruction := instruction } })

/-- Append an instruction. -/
def push (a : Arena) (instruction : Instruction) : Place × Arena :=
  let (place, a) := a.create instruction
  (place, a.link a.last? place none)

/-- Link a detached instruction before another one. -/
def linkBefore (a : Arena) (anchor place : Place) : Except Fault Unit × Arena :=
  if !a.contains anchor then (.error (.dangling anchor), a)
  else if (a.detachedInstruction? place).isNone then (.error (.alreadyLinked place), a)
  else (.ok (), a.link (a.before? anchor) place (some anchor))

/-- Insert a new instruction before another one. -/
def insertBefore (a : Arena) (anchor : Place) (instruction : Instruction) :
    Except Fault Place × Arena :=
  let (place, a) := a.create instruction
  let (linked, a) := a.linkBefore anchor place
  (linked.map fun _ => place, a)

/-- Insert a new instruction after another one. -/
def insertAfter (a : Arena) (anchor : Place) (instruction : Instruction) :
    Except Fault Place × Arena :=
  let (place, a) := a.create instruction
  match a.after? anchor with
  | some next =>
      let (linked, a) := a.linkBefore next place
      (linked.map fun _ => place, a)
  | none =>
      if !a.contains anchor then (.error (.dangling anchor), a)
      else (.ok place, a.link a.last? place none)

/-- Overwrite an instruction and return the old one. -/
def replace (a : Arena) (place : Place) (instruction : Instruction) :
    Except Fault Instruction × Arena :=
  match a.linkedSlot? place with
  | some slot =>
      (.ok slot.instruction, a.change place fun slot => { slot with instruction := instruction })
  | none => (.error (.dangling place), a)

/-- Move branches and region starts from a place to `start`, region ends to
`stop`. With no new start, branches and region starts stay. -/
def retarget (a : Arena) (old : Place) (start stop : Option Place) : Arena :=
  { a with
    slots := a.slots.map fun slot =>
      if slot.linked then
        { slot with instruction := slot.instruction.retarget old (start.getD old) }
      else slot
    clauses := a.clauses.map (Clause.retarget old (start.getD old) stop) }

/-- Put a detached instruction into the position of another one, which is
detached; all references follow. -/
def replaceWith (a : Arena) (old new : Place) : Except Fault Instruction × Arena :=
  match a.linkBefore old new with
  | (.error fault, a) => (.error fault, a)
  | (.ok (), a) => (a.retarget old (some new) (some new)).unlink old

/-- Detach an instruction and move the references to it. -/
def remove (a : Arena) (place : Place) : Except Fault Instruction × Arena :=
  if !a.contains place then (.error (.dangling place), a)
  else
    let next := a.after? place
    let fallback := next.or (a.before? place)
    if fallback.isNone && a.refersTo place then (.error (.lastReferenced place), a)
    else (a.retarget place fallback next).unlink place

/-- Detach all instructions and drop all clauses and debug points. -/
def clear (a : Arena) : Arena where
  slots := a.slots.map Slot.released
  first? := none
  last? := none
  size := 0
  clauses := []
  points := []

/-- Do an edit. -/
def apply (a : Arena) : Edit → Except Fault Answer × Arena
  | .push instruction => let (place, a) := a.push instruction; (.ok (.handed place), a)
  | .create instruction => let (place, a) := a.create instruction; (.ok (.handed place), a)
  | .insertBefore anchor instruction =>
      let (answer, a) := a.insertBefore anchor instruction; (answer.map .handed, a)
  | .insertAfter anchor instruction =>
      let (answer, a) := a.insertAfter anchor instruction; (answer.map .handed, a)
  | .linkBefore anchor place =>
      let (answer, a) := a.linkBefore anchor place; (answer.map fun _ => .done, a)
  | .replace place instruction =>
      let (answer, a) := a.replace place instruction; (answer.map .taken, a)
  | .replaceWith old new => let (answer, a) := a.replaceWith old new; (answer.map .taken, a)
  | .remove place => let (answer, a) := a.remove place; (answer.map .taken, a)
  | .clear => (.ok .done, a.clear)

/-- Do edits in order. -/
def run : Arena → List Edit → List (Except Fault Answer) × Arena := Edit.runWith apply

end Arena

end InlineCil
