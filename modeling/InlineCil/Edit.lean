import InlineCil.Body

/-!
# Edits

The changes that a body offers to its callers, as data: a caller's work on a body
is a list of edits, each answered before the next one. A refused edit is answered
by a fault and does not end the list, since a caller may go on after a refusal.

An answer tells what the caller learns, and no more: the place that was handed
out, or the instruction that was at the place taken. Places are the only link
between an answer and later edits. What an edit leaves behind is told by the next
answers, so two representations of a body that answer every list of edits alike
cannot be told apart.

`Edit.runWith` is the loop, once for every representation; it is given the
function that does a single edit. `Body.apply` is that function for bodies as
lists of lines.
-/

namespace InlineCil

/-- A change of a body. -/
inductive Edit where
  | push (instruction : Instruction)
  | create (instruction : Instruction)
  | insertBefore (anchor : Place) (instruction : Instruction)
  | insertAfter (anchor : Place) (instruction : Instruction)
  | linkBefore (anchor place : Place)
  | replace (place : Place) (instruction : Instruction)
  | replaceWith (old new : Place)
  | remove (place : Place)
  | clear
  deriving Repr

/-- What an edit gives back: the place it handed out, or the instruction that was
at the place it took. -/
inductive Answer where
  | handed (place : Place)
  | taken (instruction : Instruction)
  | done
  deriving Repr

/-- The place that an answer hands out. -/
def Answer.place? : Except Fault Answer → Option Place
  | .ok (.handed place) => some place
  | _ => none

/-- Do the edits in order, each on what the one before it left; the answers come
in the same order. -/
def Edit.runWith (apply : σ → Edit → Except Fault Answer × σ) :
    σ → List Edit → List (Except Fault Answer) × σ
  | state, [] => ([], state)
  | state, edit :: edits =>
      let (answer, state) := apply state edit
      let (answers, state) := Edit.runWith apply state edits
      (answer :: answers, state)

namespace Body

/-- The answer to an edit that takes an instruction; when refused, the body is as
it was. -/
def taking (b : Body) : Except Fault (Instruction × Body) → Except Fault Answer × Body
  | .ok (instruction, left) => (.ok (.taken instruction), left)
  | .error fault => (.error fault, b)

/-- Do an edit. -/
def apply (b : Body) : Edit → Except Fault Answer × Body
  | .push instruction => let (place, b) := b.push instruction; (.ok (.handed place), b)
  | .create instruction => let (place, b) := b.create instruction; (.ok (.handed place), b)
  | .insertBefore anchor instruction =>
      let (answer, b) := b.insertBefore anchor instruction; (answer.map .handed, b)
  | .insertAfter anchor instruction =>
      let (answer, b) := b.insertAfter anchor instruction; (answer.map .handed, b)
  | .linkBefore anchor place =>
      match b.linkBefore anchor place with
      | .ok b => (.ok .done, b)
      | .error fault => (.error fault, b)
  | .replace place instruction => b.taking (b.replace place instruction)
  | .replaceWith old new => b.taking (b.replaceWith old new)
  | .remove place => b.taking (b.remove place)
  | .clear => (.ok .done, b.clear)

/-- Do edits in order. -/
def run : Body → List Edit → List (Except Fault Answer) × Body := Edit.runWith apply

end Body

end InlineCil
