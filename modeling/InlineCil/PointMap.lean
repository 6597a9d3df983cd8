import InlineCil.Body.Listing
import InlineCil.Diagnostic

/-!
# Debug points across a rewrite

A rewritten site is a marker call with the instructions taken for it. The debug
points on a site are collapsed onto the instruction that is left in its position,
so that stepping through the code still comes to the author's line. Diagnostics
are located by the points of the body as it was before.

Of several points on a site the visible one that starts first is kept. It is
dropped where there is no instruction to put it on, and where the instruction
after the site has a point of its own; and where the instruction before modifies
that one, the two are one for a debugger, so a point on the first is widened
instead of a second one put between them.

In the end points off the code are dropped, the others are brought into program
order, and each place keeps one. `SourceLocator` is the reverse direction: the
nearest visible range at or before a place.
-/

namespace InlineCil

namespace PointMap

/-- The point of a site that stands for it: the visible one that starts first, or
else the first one. -/
def earliest? (points : List DebugPoint) : Option DebugPoint :=
  match points.filter (!·.isHidden) with
  | [] => points.head?
  | visible :: rest =>
      some (rest.foldl (fun best p => if p.start.before best.start then p else best) visible)

/-- Widen the first point at a place. -/
def widen (place : Place) (other : DebugPoint) : List DebugPoint → List DebugPoint
  | [] => []
  | p :: rest =>
      if p.place = place then p.extended other :: rest else p :: widen place other rest

/-- The place before a target, if an instruction is there that modifies the
target and has a point. -/
def prefixWithPoint? (b : Body) (target : Place) : Option Place :=
  (b.code.before? target).filter fun place =>
    ((b.code.instruction? place).any (·.opcode.modifiesNext)) &&
      b.points.any (·.place = place)

/-- Collapse the points of a site onto a target. They are dropped if there is no
target or if a target off the site has a point of its own. If the instruction
before the target modifies it and has a point, that one is widened instead. -/
def collapse (b : Body) (site : List Place) (target : Option Place) : Body :=
  let onSite := b.points.filter fun p => site.contains p.place
  let b := { b with points := b.points.filter fun p => !site.contains p.place }
  match target, earliest? onSite with
  | some target, some point =>
      if !site.contains target && b.points.any (·.place = target) then b
      else match prefixWithPoint? b target with
        | some place => { b with points := widen place point b.points }
        | none => { b with points := b.points ++ [point.movedTo target] }
  | _, _ => b

/-- Keep the first of neighbouring points at one place. -/
def withoutRepeats : List DebugPoint → List DebugPoint
  | [] => []
  | p :: rest =>
      match withoutRepeats rest with
      | [] => [p]
      | q :: rest => if p.place = q.place then p :: rest else p :: q :: rest

/-- Drop the points off the code and bring the others into program order, one to
a place; of several the first is kept. -/
def finish (b : Body) : Body :=
  let b := b.prunePoints
  let positioned := b.points.map fun p => (b.position? p.place, p)
  let sorted := positioned.mergeSort fun a b => a.1.getD 0 ≤ b.1.getD 0
  { b with points := withoutRepeats (sorted.map Prod.snd) }

end PointMap

/-- The places of a body in program order and its visible points by position. -/
structure SourceLocator where
  places : List Place
  points : List (Nat × SourceLocation)
  deriving Repr

namespace SourceLocator

/-- The locator of a body. -/
def ofBody (b : Body) : SourceLocator where
  places := b.code.places
  points :=
    let visible := (b.points.filter (!·.isHidden)).filterMap fun p =>
      (b.position? p.place).map fun position => (position, SourceLocation.ofPoint p)
    visible.mergeSort fun a b => a.1 ≤ b.1

/-- The nearest visible location at or before a place. -/
def locate (l : SourceLocator) (place : Place) : Option SourceLocation := do
  let position ← l.places.idxOf? place
  let (_, location) ← (l.points.takeWhile fun (start, _) => start ≤ position).getLast?
  return location

end SourceLocator

end InlineCil
