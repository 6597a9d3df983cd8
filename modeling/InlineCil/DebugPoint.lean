import InlineCil.Instruction

/-!
# Debug points

A debug point maps the instruction at a place to a range of a source document. A
hidden point marks code that no source line stands for. Its range has a line
number of its own that no real line has, so hidden points need no flag.

Points do not move with the code by themselves. A pass that takes instructions
out says where the points on them go: a point can be moved to another place,
which keeps its range, or the range of a point can be widened to cover that of
another one. Widening changes nothing across documents or where one of the two
points is hidden, since there is no range that would cover both.

Positions are compared in reading order, by line and then by column.
-/

namespace InlineCil

/-- A line and a column of a document. -/
structure SourcePosition where
  line : Nat
  column : Nat
  deriving DecidableEq, Repr

/-- One position is before another in reading order. -/
def SourcePosition.before (a b : SourcePosition) : Bool :=
  a.line < b.line || (a.line = b.line && a.column < b.column)

/-- A debug point at a place. -/
structure DebugPoint where
  place : Place
  document : String
  start : SourcePosition
  stop : SourcePosition
  deriving DecidableEq, Repr

namespace DebugPoint

/-- The line number that hidden points carry. -/
def hiddenLine : Nat := 0xFEEFEE

/-- A hidden point. -/
def hidden (place : Place) (document : String) : DebugPoint :=
  ⟨place, document, ⟨hiddenLine, 0⟩, ⟨hiddenLine, 0⟩⟩

/-- The point stands for no source line. -/
def isHidden (p : DebugPoint) : Bool := p.start.line = hiddenLine

/-- The same range at another place. -/
def movedTo (p : DebugPoint) (place : Place) : DebugPoint := { p with place }

/-- Widen the range so that it covers the range of another point. Nothing changes
when one of the two is hidden or they are in different documents. -/
def extended (p other : DebugPoint) : DebugPoint :=
  if other.isHidden || p.isHidden || other.document != p.document then p
  else
    { p with
      start := if other.start.before p.start then other.start else p.start
      stop := if p.stop.before other.stop then other.stop else p.stop }

/-- The document with the range in brackets. -/
def text (p : DebugPoint) : String :=
  if p.isHidden then p.document ++ " (hidden)"
  else
    p.document ++ "(" ++ String.intercalate ","
      ([p.start.line, p.start.column, p.stop.line, p.stop.column].map toString) ++ ")"

end DebugPoint

end InlineCil
