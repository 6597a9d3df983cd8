import InlineCil.Body
import InlineCil.Failure

/-!
# Assembling bodies

Bodies written with labels. Instructions are added one after the other; branches,
switch tables and the regions of exception clauses name labels, which may be
defined later. Finishing replaces every label by the place of the instruction
that follows it.

A label at the end of the body stands for no instruction. Such a label may end a
region, since an absent border means the end of the body, but nothing can branch
to it, and no region can start there. A label that is never defined is refused
wherever it is named.

Here a body under construction is a list of lines that still have their labels,
and finishing translates the list in one go. `Draft` builds the same body in
place. Both take the same calls, which are data, so that they can be compared
call by call: the callers' side of that comparison, the calls and their replies,
stands at the end.
-/

namespace InlineCil

/-- An operand in which branch targets are labels. -/
inductive LabelledOperand where
  | plain (operand : Operand)
  | branch (label : String)
  | table (labels : List String)
  deriving Repr

/-- A range of a document, without a place. -/
structure SourceRange where
  document : String
  start : SourcePosition
  stop : SourcePosition
  deriving DecidableEq, Repr

/-- An instruction with labels, and the debug point that starts at it. -/
structure LabelledLine where
  opcode : Opcode
  operand : LabelledOperand
  range : Option SourceRange := none
  deriving Repr

/-- An exception clause whose borders are labels. -/
structure LabelledClause where
  flags : UInt16
  tryStart : String
  tryEnd : String
  filterStart : Option String := none
  handlerStart : String
  handlerEnd : String
  catchType : Option TypeSig := none
  deriving Repr

/-- A body under construction. A label stands for the number of lines before it, and
    `pending` is the debug point of the next line. -/
structure Assembly where
  lines : List LabelledLine := []
  labels : List (String × Nat) := []
  clauses : List LabelledClause := []
  locals : List Local := []
  pending : Option SourceRange := none
  deriving Repr

namespace Assembly

/-- Add a line. Lines get their places in the order in which they are added. -/
def add (a : Assembly) (opcode : Opcode) (operand : LabelledOperand) : Place × Assembly :=
  (⟨a.lines.length⟩,
    { a with lines := a.lines ++ [⟨opcode, operand, a.pending⟩], pending := none })

/-- Add an instruction whose operand fits its opcode. -/
def emit (a : Assembly) (opcode : Opcode) (operand : Operand := .none) :
    Except Failure (Place × Assembly) := do
  let instruction ← Instruction.checked opcode operand
  return a.add instruction.opcode (.plain instruction.operand)

/-- Add a branch to a label. -/
def branch (a : Assembly) (opcode : Opcode) (label : String) :
    Except Failure (Place × Assembly) :=
  if opcode.kind.isTarget then .ok (a.add opcode (.branch label))
  else .error (.ofCause (.notBranch opcode))

/-- Add a switch over labels. -/
def switch (a : Assembly) (labels : List String) : Place × Assembly :=
  a.add .switch (.table labels)

/-- Define a label for the next line. -/
def define (a : Assembly) (label : String) : Except Failure Assembly :=
  if (a.labels.lookup label).isSome then .error (.ofCause (.labelRepeated label))
  else .ok { a with labels := a.labels ++ [(label, a.lines.length)] }

/-- Add a local variable and return its index, held within 16 bits. -/
def declare (a : Assembly) (added : Local) : Nat × Assembly :=
  (min a.locals.length 65535, { a with locals := a.locals ++ [added] })

/-- Put a debug point on the next line. -/
def mark (a : Assembly) (range : SourceRange) : Assembly := { a with pending := some range }

/-- Add an exception clause. -/
def guarded (a : Assembly) (clause : LabelledClause) : Assembly :=
  { a with clauses := a.clauses ++ [clause] }

/-- The place that a label stands for; none when it stands at the end of the
body. -/
def border (a : Assembly) (label : String) : Except Failure (Option Place) :=
  match a.labels.lookup label with
  | none => .error (.ofCause (.labelUndefined label))
  | some position => .ok (if position < a.lines.length then some ⟨position⟩ else none)

/-- The instruction that a label stands for. -/
def target (a : Assembly) (label : String) : Except Failure Place := do
  match ← a.border label with
  | some place => return place
  | none => throw (.ofCause (.labelAtEnd label))

/-- Replace the labels of an operand. -/
def operand (a : Assembly) : LabelledOperand → Except Failure Operand
  | .plain operand => return operand
  | .branch label => return .target (← a.target label)
  | .table labels => return .switch (← labels.mapM a.target)

/-- Replace the labels of a line. -/
def instruction (a : Assembly) (line : LabelledLine) : Except Failure Instruction :=
  return ⟨line.opcode, ← a.operand line.operand⟩

/-- Replace the labels of a clause. -/
def clause (a : Assembly) (c : LabelledClause) : Except Failure Clause := do
  let tryStart ← a.target c.tryStart
  let tryEnd ← a.border c.tryEnd
  let filterStart ← c.filterStart.mapM a.target
  let handlerStart ← a.target c.handlerStart
  let handlerEnd ← a.border c.handlerEnd
  return { c with tryStart, tryEnd, filterStart, handlerStart, handlerEnd }

/-- The debug points of the lines that have one. -/
def points (a : Assembly) : List DebugPoint :=
  a.lines.zipIdx.filterMap fun (line, index) =>
    line.range.map fun range => ⟨⟨index⟩, range.document, range.start, range.stop⟩

/-- The body, once every label is known and no branch goes to its end. -/
def finish (a : Assembly) : Except Failure Body := do
  let instructions ← a.lines.mapM a.instruction
  let clauses ← a.clauses.mapM a.clause
  let body : Body := { clauses, locals := a.locals, points := a.points }
  return body.pushAll instructions

/-- A call on a body under construction, as data. -/
inductive Call where
  | emit (opcode : Opcode) (operand : Operand)
  | branch (opcode : Opcode) (label : String)
  | switch (labels : List String)
  | define (label : String)
  | declare (added : Local)
  | mark (range : SourceRange)
  | guarded (clause : LabelledClause)
  deriving Repr

/-- What a call gives back: the place of an instruction or the index of a local
variable. -/
inductive Reply where
  | placed (place : Place)
  | slot (index : Nat)
  | done
  deriving Repr

/-- The place that a reply hands out. -/
def Reply.place? : Except Failure Reply → Option Place
  | .ok (.placed place) => some place
  | _ => none

/-- The reply to a call that adds an instruction; when refused, all is as it was. -/
def placing (state : σ) : Except Failure (Place × σ) → Except Failure Reply × σ
  | .ok (place, state) => (.ok (.placed place), state)
  | .error failure => (.error failure, state)

/-- The reply to a call that gives nothing back. -/
def settling (state : σ) : Except Failure σ → Except Failure Reply × σ
  | .ok state => (.ok .done, state)
  | .error failure => (.error failure, state)

/-- Make the calls in order, each on what the one before it left. -/
def Call.runWith (apply : σ → Call → Except Failure Reply × σ) :
    σ → List Call → List (Except Failure Reply) × σ
  | state, [] => ([], state)
  | state, call :: calls =>
      let (reply, state) := apply state call
      let (replies, state) := Call.runWith apply state calls
      (reply :: replies, state)

/-- Make a call. -/
def apply (a : Assembly) : Call → Except Failure Reply × Assembly
  | .emit opcode operand => placing a (a.emit opcode operand)
  | .branch opcode label => placing a (a.branch opcode label)
  | .switch labels => placing a (.ok (a.switch labels))
  | .define label => settling a (a.define label)
  | .declare added => let (index, a) := a.declare added; (.ok (.slot index), a)
  | .mark range => settling a (.ok (a.mark range))
  | .guarded clause => settling a (.ok (a.guarded clause))

/-- Make calls in order. -/
def run : Assembly → List Call → List (Except Failure Reply) × Assembly := Call.runWith apply

end Assembly

end InlineCil
