import InlineCil.Instruction

/-!
# Code

The instructions of a body. The linked ones form a list in program order, each
with the place it keeps for life; detached ones have a place but no position,
such as a branch target that is still to be linked.

Each place that was ever handed out belongs to exactly one line, linked or
detached: the type carries this as a permutation of the places handed out so far,
so places are never handed out twice and the linked list has no duplicates. Every
operation gives the new permutation together with the new lists, and no later
proof has to argue for it again.

A line is looked for by its place, from the front. Looking around a place, at the
lines before and after it, splits the list there; for a place that is not linked
everything is before it and nothing after. Whether a place is linked at all is
asked first wherever that would matter.
-/

namespace InlineCil

/-- An instruction at its place. -/
structure Line where
  place : Place
  instruction : Instruction
  deriving Repr

/-- The line is at the place. -/
def Line.isAt (place : Place) (line : Line) : Bool := line.place = place

/-- Every place handed out so far, in the order of handing out. -/
def handedOut (count : Nat) : List Place := (List.range count).map Place.mk

/-- No place has been handed out where there are no lines. -/
theorem perm_handedOut_zero : (([] ++ [] : List Line).map Line.place).Perm (handedOut 0) := .nil

/-- Linked lines in program order and detached lines. `next` is the index of the
next place to be handed out. -/
structure Code where
  linked : List Line := []
  detached : List Line := []
  next : Nat := 0
  accounted : ((linked ++ detached).map Line.place).Perm (handedOut next) := by
    exact perm_handedOut_zero

namespace Code

/-- The places of the linked lines in program order. -/
def places (c : Code) : List Place := c.linked.map Line.place

/-- The line at a linked place. -/
def line? (c : Code) (place : Place) : Option Line := c.linked.find? (·.isAt place)

/-- The instruction at a linked place. -/
def instruction? (c : Code) (place : Place) : Option Instruction :=
  (c.line? place).map Line.instruction

/-- The place is linked. -/
def contains (c : Code) (place : Place) : Bool := c.linked.any (·.isAt place)

/-- The instruction at a detached place. -/
def detachedInstruction? (c : Code) (place : Place) : Option Instruction :=
  (c.detached.find? (·.isAt place)).map Line.instruction

/-- The linked lines before a place; all of them if the place is not linked. -/
def linesBefore (c : Code) (place : Place) : List Line :=
  c.linked.takeWhile (!·.isAt place)

/-- The linked lines from a place on; none if the place is not linked. -/
def linesFrom (c : Code) (place : Place) : List Line :=
  c.linked.dropWhile (!·.isAt place)

/-- The linked lines after a place. -/
def linesAfter (c : Code) (place : Place) : List Line := (c.linesFrom place).tail

/-- The line after a linked place. -/
def following? (c : Code) (place : Place) : Option Line := (c.linesAfter place).head?

/-- The first linked place. -/
def first? (c : Code) : Option Place := c.linked.head?.map Line.place

/-- The last linked place. -/
def last? (c : Code) : Option Place := c.linked.getLast?.map Line.place

/-- The place after a linked place. -/
def after? (c : Code) (place : Place) : Option Place := (c.following? place).map Line.place

/-- The place before a linked place. -/
def before? (c : Code) (place : Place) : Option Place :=
  if c.contains place then (c.linesBefore place).getLast?.map Line.place else none

/-- The two halves of a list around a condition, put side by side, hold what it
held. -/
theorem filter_append_filter_not_perm (p : α → Bool) (l : List α) :
    (l.filter p ++ l.filter (!p ·)).Perm l := by
  induction l with
  | nil => simp
  | cons a l ih =>
    cases h : p a with
    | true => simpa [h] using ih
    | false => simpa [h] using List.perm_middle.trans (ih.cons a)

/-- Hand out a place for a detached instruction. -/
def create (c : Code) (instruction : Instruction) : Code where
  linked := c.linked
  detached := c.detached ++ [⟨⟨c.next⟩, instruction⟩]
  next := c.next + 1
  accounted := by
    have accounted := c.accounted
    rw [← List.append_assoc, List.map_append]
    simpa [handedOut, List.range_succ] using accounted.append_right [Place.mk c.next]

/-- Link a detached line before another place, or at the end if that place is not
    linked. -/
def linkBefore (c : Code) (anchor place : Place) : Code where
  linked :=
    c.linesBefore anchor ++ c.detached.filter (·.isAt place) ++ c.linesFrom anchor
  detached := c.detached.filter (!·.isAt place)
  next := c.next
  accounted := by
    refine List.Perm.trans (List.Perm.map _ ?_) c.accounted
    have split : c.linesBefore anchor ++ c.linesFrom anchor = c.linked :=
      List.takeWhile_append_dropWhile
    have moved := filter_append_filter_not_perm (Line.isAt place) c.detached
    have shifted : (c.linesBefore anchor ++ c.detached.filter (·.isAt place) ++
        c.linesFrom anchor).Perm (c.linked ++ c.detached.filter (·.isAt place)) := by
      rw [← split, List.append_assoc, List.append_assoc]
      exact List.perm_append_comm.append_left _
    refine (shifted.append_right _).trans ?_
    rw [List.append_assoc]
    exact moved.append_left _

/-- Link a detached line at the end. -/
def linkLast (c : Code) (place : Place) : Code where
  linked := c.linked ++ c.detached.filter (·.isAt place)
  detached := c.detached.filter (!·.isAt place)
  next := c.next
  accounted := by
    refine List.Perm.trans (List.Perm.map _ ?_) c.accounted
    rw [List.append_assoc]
    exact (filter_append_filter_not_perm
      (Line.isAt place) c.detached).append_left _

/-- Detach a linked line. -/
def unlink (c : Code) (place : Place) : Code where
  linked := c.linked.filter (!·.isAt place)
  detached := c.linked.filter (·.isAt place) ++ c.detached
  next := c.next
  accounted := by
    refine List.Perm.trans (List.Perm.map _ ?_) c.accounted
    rw [← List.append_assoc]
    exact (List.perm_append_comm.trans (filter_append_filter_not_perm
      (Line.isAt place) c.linked)).append_right _

/-- Detach every line. -/
def unlinkAll (c : Code) : Code where
  linked := []
  detached := c.linked ++ c.detached
  next := c.next
  accounted := c.accounted

/-- Change the linked instructions, each at its place. -/
def mapLinked (change : Line → Instruction) (c : Code) : Code where
  linked := c.linked.map fun line => ⟨line.place, change line⟩
  detached := c.detached
  next := c.next
  accounted := by simpa [Function.comp_def] using c.accounted

/-- Overwrite the instruction at a linked place. -/
def overwrite (c : Code) (place : Place) (instruction : Instruction) : Code :=
  c.mapLinked fun line => if line.isAt place then instruction else line.instruction

/-- Send the branches of all linked instructions from one place to another. -/
def retarget (c : Code) (old new : Place) : Code :=
  c.mapLinked fun line => line.instruction.retarget old new

/-- Some linked instruction may branch to the place. -/
def isTarget (c : Code) (place : Place) : Bool :=
  c.linked.any (·.instruction.targets.contains place)

end Code

end InlineCil
