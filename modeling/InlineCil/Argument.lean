import InlineCil.Instruction

/-!
# Argument values

The value that the argument of an emitting call was read as, before it becomes an
operand. Which form of value is read depends on the parameter of the marker
alone; whether an operand can be made of it depends on the opcode, and is decided
later, when both are known. A value that no operand can be made of is refused
with the value in the message.

Messages show such a value with its whole structure: constructors with their
fields, text in quotes, lists in brackets. `Outline` has the punctuation of that
form, once for all types of the model, and each type of symbol then says what its
parts are called. The texts are longer than those of assembler notation, and tell
apart symbols that assembler notation writes alike, such as two names that are
bound to different assemblies.
-/

namespace InlineCil

/-- The value read for an emitting call. -/
inductive Argument where
  | none
  | integer (value : Int)
  | float (value : Binary64)
  | string (value : String)
  | labels (names : List String)
  | type (sig : TypeSig)
  | method (method : MethodRef)
  | field (field : FieldRef)
  | signature (site : CallSite)
  deriving Repr

namespace Outline

/-- A constructor with positional parts. -/
def applied (name : String) (parts : List String) : String :=
  name ++ "(" ++ String.intercalate ", " parts ++ ")"

/-- A constructor with named parts. -/
def record (name : String) (fields : List (String × String)) : String :=
  name ++ " \x7b " ++
    String.intercalate ", " (fields.map fun (field, value) => field ++ ": " ++ value) ++ " \x7d"

/-- A list in brackets. -/
def list (items : List String) : String := "[" ++ String.intercalate ", " items ++ "]"

/-- An optional part. -/
def optional : Option String → String
  | Option.none => "None"
  | some text => applied "Some" [text]

end Outline

/-- The structure of a type name. -/
def TypeName.outline (n : TypeName) : String :=
  Outline.record "TypeName"
    [("scope", Text.quoted n.scope), ("namespace", Text.quoted n.nameSpace),
     ("enclosing", Outline.list (n.enclosing.map Text.quoted)), ("name", Text.quoted n.name),
     ("is_value_type", toString n.isValueType)]

/-- The name of a parameter owner. -/
def GenericOwner.outline : GenericOwner → String
  | .type => "Type"
  | .method => "Method"

mutual

/-- The structure of a signature. -/
def TypeSig.outline : TypeSig → String
  | .named name => Outline.applied "Named" [name.outline]
  | .genericParameter owner index =>
      Outline.record "GenericParam" [("owner", owner.outline), ("index", toString index)]
  | .pointer element => Outline.applied "Pointer" [element.outline]
  | .byRef element => Outline.applied "ByRef" [element.outline]
  | .array element rank =>
      Outline.record "Array" [("element", element.outline), ("rank", toString rank)]
  | .genericInstance definition arguments =>
      Outline.record "GenericInstance"
        [("definition", definition.outline),
         ("arguments", Outline.list (TypeSig.outlines arguments))]
  | .modified required modifier element =>
      Outline.record "Modified"
        [("required", toString required), ("modifier", modifier.outline),
         ("element", element.outline)]
  | .pinned element => Outline.applied "Pinned" [element.outline]

/-- The structures of a list of signatures. -/
def TypeSig.outlines : List TypeSig → List String
  | [] => []
  | sig :: rest => sig.outline :: TypeSig.outlines rest

end

/-- The name of a calling convention. -/
def CallingConvention.outline : CallingConvention → String
  | .standard => "Default"
  | .vararg => "VarArg"
  | .cdecl => "C"
  | .stdcall => "StdCall"
  | .thiscall => "ThisCall"
  | .fastcall => "FastCall"
  | .unmanaged => "Unmanaged"

/-- The structure of a method reference. -/
def MethodRef.outline (m : MethodRef) : String :=
  Outline.record "MethodRef"
    [("declaring_type", m.declaringType.outline), ("name", Text.quoted m.name),
     ("has_this", toString m.hasThis), ("explicit_this", toString m.explicitThis),
     ("calling_convention", m.convention.outline), ("return_type", m.returnType.outline),
     ("parameters", Outline.list (TypeSig.outlines m.parameters)),
     ("generic_arity", toString m.genericArity),
     ("generic_arguments", Outline.list (TypeSig.outlines m.genericArguments)),
     ("optional_parameters",
       Outline.optional (m.optional.map fun types => Outline.list (TypeSig.outlines types)))]

/-- The structure of a field reference. -/
def FieldRef.outline (f : FieldRef) : String :=
  Outline.record "FieldRef"
    [("declaring_type", f.declaringType.outline), ("name", Text.quoted f.name),
     ("field_type", f.fieldType.outline), ("is_static", toString f.isStatic)]

/-- The structure of a call-site signature. -/
def CallSite.outline (s : CallSite) : String :=
  Outline.record "CallSiteSig"
    [("calling_convention", s.convention.outline), ("has_this", toString s.hasThis),
     ("explicit_this", toString s.explicitThis), ("return_type", s.returnType.outline),
     ("parameters", Outline.list (TypeSig.outlines s.parameters)),
     ("optional_parameters",
       Outline.optional (s.optional.map fun types => Outline.list (TypeSig.outlines types)))]

/-- The structure of an argument value. -/
def Argument.outline : Argument → String
  | .none => "None"
  | .integer value => Outline.applied "Integer" [toString value]
  | .float value => Outline.applied "Float" [value.exactText]
  | .string value => Outline.applied "String" [Text.quoted value]
  | .labels names => Outline.applied "Labels" [Outline.list (names.map Text.quoted)]
  | .type sig => Outline.applied "Type" [sig.outline]
  | .method m => Outline.applied "Method" [m.outline]
  | .field f => Outline.applied "Field" [f.outline]
  | .signature s => Outline.applied "Signature" [s.outline]

end InlineCil
