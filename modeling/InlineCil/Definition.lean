import InlineCil.Member
import InlineCil.Text.Segments

/-!
# Definitions

Modules with the types they define and the members of those types. A type is
found in its module by its written name, and is then bound to the assembly of
that module.

A written name has the namespace and the names of the types around a nested type,
with a slash or a plus sign between them. The first part names a type of the
module and every further part a type nested directly in the one before; among
types of one name the first counts. A module may also say that a type has moved
to another assembly; such a record names the outermost type, and what is nested
in it has moved along.

Definitions are what references are looked up in and never change. The reference
to a member is built from its definition and the signature through which it was
reached.
-/

namespace InlineCil

/-- A parameter of a method. -/
structure Parameter where
  name : String
  type : TypeSig
  deriving Repr

/-- A method of a type. Instance methods have an implicit first argument. -/
structure MethodDef where
  name : String
  modifiers : UInt32 := 0x80
  convention : CallingConvention := .standard
  returnType : TypeSig
  parameters : List Parameter := []
  genericParameters : List String := []
  deriving Repr

namespace MethodDef

/-- The method belongs to the type and not to its instances. -/
def isStatic (m : MethodDef) : Bool := m.modifiers &&& 0x10 != 0

/-- The method has an implicit first argument. -/
def hasThis (m : MethodDef) : Bool := !m.isStatic

/-- The method leaves a value on the stack. -/
def returnsValue (m : MethodDef) : Bool := !m.returnType.isVoid

/-- The types of the parameters in order. -/
def parameterTypes (m : MethodDef) : List TypeSig := m.parameters.map Parameter.type

/-- The number of arguments, the implicit one included. -/
def argumentCount (m : MethodDef) : Nat := m.parameters.length + m.hasThis.toNat

/-- The method as an accessor: its name is special and hides by signature. -/
def asAccessor (m : MethodDef) : MethodDef := { m with modifiers := m.modifiers ||| 0x880 }

/-- The reference to a method through a declaring type. -/
def reference (m : MethodDef) (declaringType : TypeSig) : MethodRef where
  declaringType
  name := m.name
  hasThis := m.hasThis
  convention := m.convention
  returnType := m.returnType
  parameters := m.parameterTypes
  genericArity := m.genericParameters.length

end MethodDef

/-- A field of a type. -/
structure FieldDef where
  name : String
  type : TypeSig
  isStatic : Bool := false
  deriving Repr

/-- A property with its accessors. -/
structure PropertyDef where
  name : String
  getter : Option MethodDef := none
  setter : Option MethodDef := none
  deriving Repr

/-- An event with its accessors. -/
structure EventDef where
  name : String
  adder : Option MethodDef := none
  remover : Option MethodDef := none
  raiser : Option MethodDef := none
  deriving Repr

/-- A type with its members. The namespace of a nested type is empty. -/
structure TypeDef where
  nameSpace : String := ""
  name : String
  isValueType : Bool := false
  genericParameters : List String := []
  methods : List MethodDef := []
  fields : List FieldDef := []
  properties : List PropertyDef := []
  events : List EventDef := []
  nestedTypes : List TypeDef := []
  deriving Repr

namespace TypeDef

/-- The written name of a type that is not nested. -/
def fullName (t : TypeDef) : String :=
  if t.nameSpace.isEmpty then t.name else t.nameSpace ++ "." ++ t.name

/-- Add a property; its accessors are methods of the type too, the getter first. -/
def withProperty (t : TypeDef) (name : String) (getter setter : Option MethodDef) : TypeDef :=
  let getter := getter.map MethodDef.asAccessor
  let setter := setter.map MethodDef.asAccessor
  { t with
    methods := t.methods ++ getter.toList ++ setter.toList
    properties := t.properties ++ [⟨name, getter, setter⟩] }

/-- Add an event; its accessors are methods of the type too. -/
def withEvent (t : TypeDef) (name : String) (adder remover raiser : Option MethodDef) :
    TypeDef :=
  let adder := adder.map MethodDef.asAccessor
  let remover := remover.map MethodDef.asAccessor
  let raiser := raiser.map MethodDef.asAccessor
  { t with
    methods := t.methods ++ adder.toList ++ remover.toList ++ raiser.toList
    events := t.events ++ [⟨name, adder, remover, raiser⟩] }

/-- The first directly nested type of a name. -/
def nested? (t : TypeDef) (name : String) : Option TypeDef :=
  t.nestedTypes.find? (·.name = name)

/-- The methods of a name. -/
def methodsNamed (t : TypeDef) (name : String) : List MethodDef :=
  t.methods.filter (·.name = name)

end TypeDef

/-- A type found by name: the name bound to its assembly, and the definition. -/
structure BoundType where
  name : TypeName
  definition : TypeDef
  deriving Repr

/-- Go down from a bound type along the names of nested types. -/
def BoundType.descend (t : BoundType) : List String → Option BoundType
  | [] => some t
  | inner :: rest =>
      match t.definition.nested? inner with
      | none => none
      | some definition =>
          descend ⟨t.name.nested definition.name definition.isValueType, definition⟩ rest

/-- A module. `forwards` says which assembly an exported type has moved to. -/
structure Module where
  name : String
  assembly : String
  types : List TypeDef := []
  forwards : List (String × String) := []
  optimized : Bool := false
  deriving Repr

namespace Module

/-- The separators between a type and the types nested in it. -/
def isNesting (c : Char) : Bool := c = '/' || c = '+'

/-- Record that a type has moved to another assembly; a later record replaces an
earlier one. -/
def withForward (m : Module) (type assembly : String) : Module :=
  { m with forwards := (type, assembly) :: m.forwards }

/-- A type that is not nested, as bound to this module. -/
def bind (m : Module) (definition : TypeDef) : BoundType where
  name :=
    { scope := m.assembly, nameSpace := definition.nameSpace, name := definition.name,
      isValueType := definition.isValueType }
  definition

/-- Find a type by its written name. -/
def findType (m : Module) (fullName : String) : Option BoundType :=
  match Text.segments isNesting fullName.toList with
  | [] => none
  | top :: path =>
      match m.types.find? (·.fullName = String.ofList top) with
      | none => none
      | some definition => (m.bind definition).descend (path.map String.ofList)

/-- The assembly that a type, or the type around it, has moved to. -/
def forwardedTo (m : Module) (fullName : String) : Option String :=
  m.forwards.lookup (String.ofList (Text.firstSegment isNesting fullName.toList))

end Module

end InlineCil
