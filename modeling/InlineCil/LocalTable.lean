import InlineCil.LabelTable
import InlineCil.Reader

/-!
# Declared locals

Local variables that a method declares for its markers. They are appended to the
variables that the body has already, so an index in a marker is relative to the
declaration. Without a declaration an index is taken as it is, and names mean
nothing.

Declaring checks the declarations one by one before anything is added. Each needs
an index that an instruction can name, and its name, if it has one, must be new
among those declared; the names of the variables that the body has already do not
count. What a declaration adds to the body is a variable of the declared type,
pinned if it says so.

Every access through the table marks the variable as used. A declared variable
that is never accessed is warned of at the place of the declaring call.
-/

namespace InlineCil

/-- A declared variable, and whether an instruction has accessed it. -/
structure DeclaredLocal where
  name : Option String
  used : Bool := false
  deriving DecidableEq, Repr

/-- The declared variables: the number of variables before them, and the call
that declares them. -/
structure LocalTable where
  base : Nat
  slots : List DeclaredLocal
  declaredAt : Place
  deriving Repr

namespace LocalTable

/-- The number of variables that an index can name. -/
def capacity : Nat := 65536

/-- Check declarations one by one: each needs an index, and a name not used
before. -/
def check (seen : List String) (index : Nat) : List LocalDeclaration → Except Cause Unit
  | [] => .ok ()
  | declaration :: rest =>
      if capacity ≤ index then .error .tooManyLocals
      else match declaration.name with
        | none => check seen (index + 1) rest
        | some name =>
            if seen.contains name then .error (.localRepeated name)
            else check (name :: seen) (index + 1) rest

/-- The variable that a declaration adds to the body. -/
def variableOf (d : LocalDeclaration) : Local where
  name := d.name
  type := if d.pinned then .pinned d.type else d.type

/-- Declare variables after those that a body has. -/
def declare (base : Nat) (declarations : List LocalDeclaration) (call : Place) :
    Except Cause LocalTable := do
  check [] base declarations
  return ⟨base, declarations.map fun d => { name := d.name }, call⟩

/-- Note that a declared variable is accessed. -/
def markUsed (t : LocalTable) (index : Nat) : LocalTable :=
  { t with slots := t.slots.modify index fun slot => { slot with used := true } }

/-- The slot of a declared variable. -/
def slot (t : LocalTable) (index : Nat) : UInt16 := UInt16.ofNat (t.base + index)

/-- The slot of a named variable. Without a declaration there are no names. -/
def byName (t : Option LocalTable) (name : String) :
    Except Cause (UInt16 × Option LocalTable) :=
  match t.bind fun t => (t.slots.findIdx? (·.name = some name)).map fun index => (t, index) with
  | some (t, index) => .ok (t.slot index, some (t.markUsed index))
  | none => .error (.localMissing name)

/-- The slot of an index: relative to the declaration, or as it is without one. -/
def byIndex (t : Option LocalTable) (index : Int) : Except Cause (UInt16 × Option LocalTable) :=
  match t with
  | none =>
      if 0 ≤ index && index < capacity then .ok (UInt16.ofNat index.toNat, none)
      else .error (.localIndex index)
  | some t =>
      if 0 ≤ index && index < t.slots.length then
        .ok (t.slot index.toNat, some (t.markUsed index.toNat))
      else .error (.declaredLocalIndex index)

/-- A warning for each declared variable that no instruction accesses. -/
def unused (t : LocalTable) : List (Warning × Place) :=
  t.slots.zipIdx.filterMap fun (slot, index) =>
    if slot.used then none else some (.unusedLocal slot.name index, t.declaredAt)

end LocalTable

end InlineCil
