import InlineCil.Instruction

/-!
# Exception clauses

A clause names the borders of its regions by place: the protected code, the
filter of a filter clause, and the handler. The end of a region is the first
place after it, and is absent when the region reaches to the end of the body.

Starts and ends are retargeted differently when code moves. A start that loses
its instruction needs another one, while an end may become absent;
`Clause.retarget` therefore takes a new start and an optional new end. Which of
the two a border is decides what becomes of it, and not the region that it
belongs to.

The kind of a clause is kept as its flags. A clause whose flags have no known
meaning is of no kind and passed on unchanged; its handler is entered with an
empty stack.
-/

namespace InlineCil

/-- An exception clause. Flags of no known meaning are kept. -/
structure Clause where
  flags : UInt16
  tryStart : Place
  tryEnd : Option Place
  filterStart : Option Place
  handlerStart : Place
  handlerEnd : Option Place
  catchType : Option TypeSig
  deriving Repr

namespace Clause

/-- A clause that catches exceptions of a type. -/
def isCatch (c : Clause) : Bool := c.flags = 0

/-- A clause whose filter decides whether it handles an exception. -/
def isFilter (c : Clause) : Bool := c.flags &&& 1 != 0

/-- A clause that runs whenever control leaves the protected code, or does so by an
    exception. -/
def isFinallyOrFault (c : Clause) : Bool := c.flags &&& 6 != 0

/-- The handler is entered with the exception on the stack. -/
def receivesException (c : Clause) : Bool := c.isCatch || c.isFilter

/-- All borders, in the order of the regions. -/
def borders (c : Clause) : List Place :=
  c.tryStart :: (c.tryEnd.toList ++ c.filterStart.toList ++ c.handlerStart :: c.handlerEnd.toList)

/-- Some border is at the place. -/
def names (c : Clause) (place : Place) : Bool := c.borders.contains place

/-- Move the borders at a place: those that start a region to `start`, those that
end one to `stop`. -/
def retarget (old start : Place) (stop : Option Place) (c : Clause) : Clause :=
  let moveStart := fun place => if place = old then start else place
  let moveEnd := fun place => if place = some old then stop else place
  { c with
    tryStart := moveStart c.tryStart
    tryEnd := moveEnd c.tryEnd
    filterStart := c.filterStart.map moveStart
    handlerStart := moveStart c.handlerStart
    handlerEnd := moveEnd c.handlerEnd }

end Clause

end InlineCil
