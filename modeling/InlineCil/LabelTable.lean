import InlineCil.Failure

/-!
# Labels of a method

Labels that marker calls define and branch to. A label gets its place when it is
first mentioned, so that branches can go there before the label is marked.
Marking puts the instruction of the place in the position of the call.

The table keeps the labels in the order of their first mention, and for each the
first branch to it and the call that marks it. In the end that is all there is to
say: a label with a branch and no mark is refused at the branch, one with a mark
and no branch is warned of at the mark, and the warnings come in the order of the
table.

Warnings are also given for declared local variables that no instruction
accesses, and the type of warnings is here, with what both kinds say.
-/

namespace InlineCil

/-- What the author of a method is warned of: a label or a declared local
variable that nothing uses. -/
inductive Warning where
  | unusedLabel (name : String)
  | unusedLocal (name : Option String) (index : Nat)
  deriving DecidableEq, Repr

/-- What a warning says. -/
def Warning.message : Warning → String
  | .unusedLabel name => "Unused label: " ++ name
  | .unusedLocal (some name) _ => "Unused local " ++ name
  | .unusedLocal none index => "Unused local at index " ++ toString index

/-- A label with its place, the first branch to it and the call that marks it. -/
structure Label where
  name : String
  place : Place
  firstUse : Option Place := none
  definedAt : Option Place := none
  deriving Repr

/-- The labels in the order of their first mention. -/
structure LabelTable where
  labels : List Label := []
  deriving Repr

namespace LabelTable

/-- The label of a name. -/
def find? (t : LabelTable) (name : String) : Option Label := t.labels.find? (·.name = name)

/-- A new label at a place. -/
def add (t : LabelTable) (name : String) (place : Place) : LabelTable :=
  ⟨t.labels ++ [{ name := name, place := place }]⟩

/-- Change the label of a name. -/
def update (t : LabelTable) (name : String) (change : Label → Label) : LabelTable :=
  ⟨t.labels.map fun label => if label.name = name then change label else label⟩

/-- Record a branch to a label; the first one is kept. -/
def use (t : LabelTable) (name : String) (branch : Place) : LabelTable :=
  t.update name fun label => { label with firstUse := label.firstUse.or (some branch) }

/-- Record the call that marks a label. -/
def define (t : LabelTable) (name : String) (call : Place) : LabelTable :=
  t.update name fun label => { label with definedAt := some call }

/-- What there is to say about one label in the end. A branch to a label that is
never marked is refused, a label that is never used gets a warning. -/
def verdict (label : Label) : Except Failure (Option (Warning × Place)) :=
  match label.firstUse, label.definedAt with
  | some branch, none => .error (.causedAt (.labelUndefined label.name) branch)
  | none, some call => .ok (some (.unusedLabel label.name, call))
  | _, _ => .ok none

/-- The warnings about all labels. -/
def finish (t : LabelTable) : Except Failure (List (Warning × Place)) :=
  return (← t.labels.mapM verdict).filterMap id

end LabelTable

end InlineCil
