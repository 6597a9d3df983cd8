import InlineCil.Compose

/-!
# Looking up members

Members are looked for on the definition behind a signature and referred to
through the signature, so a method found on an instance keeps that instance as
its declaring type. Exactly one method or field has to match: none is "not
found", several are ambiguous. Constructors and operators go by the names that
metadata gives them, and accessors by the property or event they belong to, the
first of its name.

What is wanted is a value of `Wanted`, and `Wanted.isMetBy` is the only place
that says which methods meet it. A number of type parameters or a list of
parameter types that is not given restricts nothing. Types are compared up to the
assemblies that they are bound to.

The arguments of a lookup are checked before the definition is resolved, so a
wrong operator number is told even where the type is not found.
-/

namespace InlineCil

namespace Wanted

/-- The names of the unary operators, by number. -/
def unaryOperators : List String :=
  ["op_UnaryPlus", "op_UnaryNegation", "op_LogicalNot", "op_OnesComplement", "op_Increment",
   "op_Decrement", "op_True", "op_False"]

/-- The names of the binary operators, by number. -/
def binaryOperators : List String :=
  ["op_Addition", "op_Subtraction", "op_Multiply", "op_Division", "op_Modulus",
   "op_BitwiseAnd", "op_BitwiseOr", "op_ExclusiveOr", "op_LeftShift", "op_RightShift",
   "op_Equality", "op_Inequality", "op_LessThan", "op_GreaterThan", "op_LessThanOrEqual",
   "op_GreaterThanOrEqual"]

/-- The name of an operator of a family. -/
def operatorName (family : OperatorFamily) (number : Int) : Except Failure String :=
  let names := match family with
    | .unary => unaryOperators
    | .binary => binaryOperators
  match (if number < 0 then none else names[number.toNat]?) with
  | some name => .ok name
  | none => .error (.ofCause (.operatorNumber family number))

/-- The name of a conversion operator of a kind: implicit or explicit. -/
def conversionName (kind : Int) : Except Failure String :=
  match kind with
  | 0 => .ok "op_Implicit"
  | 1 => .ok "op_Explicit"
  | _ => .error (.ofCause (.conversionKind kind))

/-- The source and the target of a conversion. Direction zero converts to the
declaring type, direction one from it. -/
def conversionTypes (on other : TypeSig) (direction : Int) :
    Except Failure (TypeSig × TypeSig) :=
  match direction with
  | 0 => .ok (other, on)
  | 1 => .ok (on, other)
  | _ => .error (.ofCause (.conversionDirection direction))

/-- The type whose members are looked at. -/
def on : Wanted → TypeSig
  | .method on .. | .constructor on _ | .typeInitializer on | .unaryOperator on _
  | .binaryOperator on .. | .conversion on .. => on

/-- A method matches what is wanted. -/
def isMetBy (m : MethodDef) : Wanted → Bool
  | .method _ name arity parameters =>
      m.name = name &&
        (match arity with
          | none => true
          | some count => (m.genericParameters.length : Int) = count) &&
        (match parameters with
          | none => true
          | some types => TypeSig.allSame m.parameterTypes types)
  | .constructor _ parameters =>
      m.name = ".ctor" && !m.isStatic && TypeSig.allSame m.parameterTypes parameters
  | .typeInitializer _ => m.name = ".cctor" && m.isStatic
  | .unaryOperator _ name => m.name = name && m.isStatic && m.parameters.length = 1
  | .binaryOperator _ name left right =>
      m.name = name && m.isStatic && TypeSig.allSame m.parameterTypes [left, right]
  | .conversion _ name source target =>
      m.name = name && m.isStatic && TypeSig.allSame m.parameterTypes [source] &&
        m.returnType.same target

/-- The only method that matches, as a reference. -/
def single (w : Wanted) (type : TypeDef) : Except Failure MethodRef :=
  match type.methods.filter w.isMetBy with
  | [m] => .ok (m.reference w.on)
  | [] => .error (.ofCause (.methodMissing w))
  | several => .error (.ofCause (.methodAmbiguous w several.length))

end Wanted

namespace Lookup

/-- The definition whose members are looked at. -/
def definition (on : TypeSig) : Resolving TypeDef :=
  match on.root? with
  | some name => Symbols.resolve name
  | none => throw (.ofCause (.noMembers on))

/-- The only method that matches. -/
def method (w : Wanted) : Resolving MethodRef := do
  let type ← definition w.on
  liftExcept (w.single type)

/-- A unary operator by its number, which is checked first. -/
def unaryOperator (on : TypeSig) (number : Int) : Resolving MethodRef := do
  let name ← liftExcept (Wanted.operatorName .unary number)
  method (.unaryOperator on name)

/-- A binary operator by its number, which is checked first. -/
def binaryOperator (on : TypeSig) (number : Int) (left right : TypeSig) :
    Resolving MethodRef := do
  let name ← liftExcept (Wanted.operatorName .binary number)
  method (.binaryOperator on name left right)

/-- A conversion operator by kind and direction, which are checked first. -/
def conversionOperator (on : TypeSig) (kind direction : Int) (other : TypeSig) :
    Resolving MethodRef := do
  let name ← liftExcept (Wanted.conversionName kind)
  let (source, target) ← liftExcept (Wanted.conversionTypes on other direction)
  method (.conversion on name source target)

/-- An accessor of an event. -/
def eventAccessor (e : EventDef) : Accessor → Option MethodDef
  | .add => e.adder
  | .remove => e.remover
  | .raise => e.raiser
  | .get | .set => none

/-- An accessor of a property. -/
def propertyAccessor (p : PropertyDef) : Accessor → Option MethodDef
  | .get => p.getter
  | .set => p.setter
  | .add | .remove | .raise => none

/-- The accessor of the first property or event of a name. -/
def accessorOf (type : TypeDef) (on : TypeSig) (name : String) (accessor : Accessor) :
    Except Failure MethodRef := do
  let found ←
    if accessor.ofProperty then
      match type.properties.find? (·.name = name) with
      | none => throw (.ofCause (.propertyMissing name on))
      | some property => pure (propertyAccessor property accessor)
    else
      match type.events.find? (·.name = name) with
      | none => throw (.ofCause (.eventMissing name on))
      | some event => pure (eventAccessor event accessor)
  match found with
  | some m => return m.reference on
  | none => throw (.ofCause (.accessorMissing accessor name on))

/-- The accessor of a property or an event. -/
def accessor (on : TypeSig) (name : String) (accessor : Accessor) : Resolving MethodRef := do
  let type ← definition on
  liftExcept (accessorOf type on name accessor)

/-- The only field of a name, as a reference. -/
def fieldOf (type : TypeDef) (on : TypeSig) (name : String) : Except Failure FieldRef :=
  match type.fields.filter (·.name = name) with
  | [f] => .ok ⟨on, f.name, f.type, f.isStatic⟩
  | [] => .error (.ofCause (.fieldMissing name on))
  | _ => .error (.ofCause (.fieldAmbiguous name on))

/-- A field by name. -/
def field (on : TypeSig) (name : String) : Resolving FieldRef :=
  match on.root? with
  | none => throw (.ofCause (.noFields on))
  | some typeName => do
      let type ← Symbols.resolve typeName
      liftExcept (fieldOf type on name)

end Lookup

end InlineCil
