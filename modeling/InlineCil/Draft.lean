import InlineCil.Assembly

/-!
# Drafts

A body that is assembled in place. Every instruction goes into the body at once;
where it needs labels, an operand of the right shape with a place that means
nothing holds its place. Finishing goes over the notes on such instructions and
writes the places into their operands, by the shape that it finds there, and
turns the labels of the clauses into places after that.

Finishing has two ways of not giving a body. A label that is undefined, or that
stands at the end where an instruction is needed, is a failure that is reported.
A note with fewer targets than its operand needs would have no result at all,
which is the outer option; that this never happens, whatever calls were made, is
a theorem and not a check.

`Assembly` is the same construction as a list of lines with labels, translated in
one go. It makes the order of the checks plain: all lines are settled before the
first clause.
-/

namespace InlineCil

open Assembly (Call Reply)

/-- A body under construction with the places of its instructions in order. A
label stands for the number of instructions before it, a note names the labels of
an instruction, and `pending` is the debug point of the next instruction. -/
structure Draft where
  body : Body := {}
  emitted : List Place := []
  labels : List (String × Nat) := []
  notes : List (Place × List String) := []
  clauses : List LabelledClause := []
  pending : Option SourceRange := none

namespace Draft

/-- Append an instruction. It takes the debug point that is waiting. -/
def append (d : Draft) (instruction : Instruction) : Place × Draft :=
  let (place, body) := d.body.push instruction
  let points := match d.pending with
    | some range => body.points ++ [⟨place, range.document, range.start, range.stop⟩]
    | none => body.points
  (place, { d with body := { body with points }, emitted := d.emitted ++ [place], pending := none })

/-- Append an instruction whose operand fits its opcode. -/
def emit (d : Draft) (opcode : Opcode) (operand : Operand) : Except Failure (Place × Draft) := do
  let instruction ← Instruction.checked opcode operand
  return d.append instruction

/-- Append an instruction and note its labels. -/
def appendNoted (d : Draft) (instruction : Instruction) (labels : List String) : Place × Draft :=
  let (place, d) := d.append instruction
  (place, { d with notes := d.notes ++ [(place, labels)] })

/-- The place that stands in an operand until its labels are known. -/
def blank : Place := ⟨0⟩

/-- Append a branch to a label. -/
def branch (d : Draft) (opcode : Opcode) (label : String) : Except Failure (Place × Draft) :=
  if opcode.kind.isTarget then .ok (d.appendNoted ⟨opcode, .target blank⟩ [label])
  else .error (.ofCause (.notBranch opcode))

/-- Append a switch over labels. -/
def switch (d : Draft) (labels : List String) : Place × Draft :=
  d.appendNoted ⟨.switch, .switch (List.replicate labels.length blank)⟩ labels

/-- Define a label for the next instruction. -/
def define (d : Draft) (label : String) : Except Failure Draft :=
  if (d.labels.lookup label).isSome then .error (.ofCause (.labelRepeated label))
  else .ok { d with labels := d.labels ++ [(label, d.emitted.length)] }

/-- Add a local variable and return its index, held within 16 bits. -/
def declare (d : Draft) (added : Local) : Nat × Draft :=
  let locals := d.body.locals ++ [added]
  (min (locals.length - 1) 65535, { d with body := { d.body with locals } })

/-- Put a debug point on the next instruction. -/
def mark (d : Draft) (range : SourceRange) : Draft := { d with pending := some range }

/-- Add an exception clause. -/
def guarded (d : Draft) (clause : LabelledClause) : Draft :=
  { d with clauses := d.clauses ++ [clause] }

/-- Make a call. -/
def apply (d : Draft) : Call → Except Failure Reply × Draft
  | .emit opcode operand => Assembly.placing d (d.emit opcode operand)
  | .branch opcode label => Assembly.placing d (d.branch opcode label)
  | .switch labels => Assembly.placing d (.ok (d.switch labels))
  | .define label => Assembly.settling d (d.define label)
  | .declare added => let (index, d) := d.declare added; (.ok (.slot index), d)
  | .mark range => Assembly.settling d (.ok (d.mark range))
  | .guarded clause => Assembly.settling d (.ok (d.guarded clause))

/-- Make calls in order. -/
def run : Draft → List Call → List (Except Failure Reply) × Draft := Call.runWith apply

/-- The place that a label stands for; none when it stands at the end of the
body. -/
def border (d : Draft) (label : String) : Except Failure (Option Place) :=
  match d.labels.lookup label with
  | none => .error (.ofCause (.labelUndefined label))
  | some position => .ok d.emitted[position]?

/-- The instruction that a label stands for. -/
def target (d : Draft) (label : String) : Except Failure Place := do
  match ← d.border label with
  | some place => return place
  | none => throw (.ofCause (.labelAtEnd label))

/-- Replace the labels of a clause. -/
def clause (d : Draft) (c : LabelledClause) : Except Failure Clause := do
  let tryStart ← d.target c.tryStart
  let tryEnd ← d.border c.tryEnd
  let filterStart ← c.filterStart.mapM d.target
  let handlerStart ← d.target c.handlerStart
  let handlerEnd ← d.border c.handlerEnd
  return { c with tryStart, tryEnd, filterStart, handlerStart, handlerEnd }

/-- Put targets into an operand: a table takes all of them and any other operand
the first, which has to be there. -/
def aimed (targets : List Place) : Operand → Option Operand
  | .switch _ => some (.switch targets)
  | _ => targets.head?.map .target

/-- Write the targets of a note into the body. Nothing comes of it at all if a
target that has to be there is not. -/
def settle (d : Draft) (b : Body) (note : Place × List String) : ExceptT Failure Option Body := do
  let targets ← liftExcept (note.2.mapM d.target)
  let found ← liftExcept ((b.instruction note.1).mapError Failure.ofFault)
  let operand ← ExceptT.lift (aimed targets found.operand)
  return { b with code := b.code.overwrite note.1 { found with operand } }

/-- Add a clause to the body. -/
def close (d : Draft) (b : Body) (c : LabelledClause) : ExceptT Failure Option Body := do
  let clause ← liftExcept (d.clause c)
  return { b with clauses := b.clauses ++ [clause] }

/-- The body, once every label is known and no branch goes to its end. -/
def finish (d : Draft) : ExceptT Failure Option Body := do
  let body ← d.notes.foldlM d.settle d.body
  d.clauses.foldlM d.close body

end Draft

end InlineCil
