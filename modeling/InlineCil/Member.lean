import InlineCil.TypeSig

/-!
# References to members

The operands of calls and field accesses: a method or a field bound to its
declaring type, and the signature of an indirect call. Their texts are in
assembler notation.

A reference has everything that the code needs to know of the member without its
definition: how many slots a call pops, whether it leaves a value, and whether it
mentions the marker vocabulary anywhere. An instance that is not among the
declared parameters takes a slot of its own; creating an object pops only the
declared parameters, since the instance does not exist yet.

The number of generic parameters belongs to the definition and stays when the
reference is instantiated, so that instantiating twice can be told from
instantiating what is not generic. Types passed after the declared ones are part
of the call and not of the method.
-/

namespace InlineCil

/-- Managed and unmanaged calling conventions. -/
inductive CallingConvention where
  | standard | vararg | cdecl | stdcall | thiscall | fastcall | unmanaged
  deriving DecidableEq, Repr

/-- The words before a signature with the convention; the standard one has none. -/
def CallingConvention.keyword : CallingConvention → String
  | .standard => ""
  | .vararg => "vararg "
  | .cdecl => "unmanaged cdecl "
  | .stdcall => "unmanaged stdcall "
  | .thiscall => "unmanaged thiscall "
  | .fastcall => "unmanaged fastcall "
  | .unmanaged => "unmanaged "

/-- A reference to a method. `genericArity` counts the parameters of its
definition, `genericArguments` is empty for the definition itself, and `optional`
holds the types passed after the declared ones at a call with a variable argument
list. -/
structure MethodRef where
  declaringType : TypeSig
  name : String
  hasThis : Bool := false
  explicitThis : Bool := false
  convention : CallingConvention := .standard
  returnType : TypeSig
  parameters : List TypeSig := []
  genericArity : Nat := 0
  genericArguments : List TypeSig := []
  optional : Option (List TypeSig) := none
  deriving Repr

/-- A reference to a field. -/
structure FieldRef where
  declaringType : TypeSig
  name : String
  fieldType : TypeSig
  isStatic : Bool
  deriving Repr

/-- The signature of an indirect call. -/
structure CallSite where
  convention : CallingConvention := .standard
  hasThis : Bool := false
  explicitThis : Bool := false
  returnType : TypeSig
  parameters : List TypeSig := []
  optional : Option (List TypeSig) := none
  deriving Repr

/-- Declared parameters in brackets, the optional ones after an ellipsis. -/
def parameterText (parameters : List TypeSig) (optional : Option (List TypeSig)) : String :=
  "(" ++ TypeSig.listText parameters ++
    (match optional with
      | none => ""
      | some [] => ",..."
      | some types => ",...," ++ TypeSig.listText types) ++ ")"

/-- The stack slots of an instance that is not among the declared parameters. -/
def implicitThisCount (hasThis explicitThis : Bool) : Nat :=
  if hasThis && !explicitThis then 1 else 0

namespace MethodRef

/-- The stack slots that a call of the method consumes. -/
def callPops (m : MethodRef) : Nat :=
  implicitThisCount m.hasThis m.explicitThis + m.parameters.length +
    (m.optional.getD []).length

/-- The stack slots that creating an object with the constructor consumes. -/
def newobjPops (m : MethodRef) : Nat := m.parameters.length

/-- The method leaves a value on the stack. -/
def returnsValue (m : MethodRef) : Bool := !m.returnType.isVoid

/-- Some type in the reference lives in the namespace. -/
def references (space : String) (m : MethodRef) : Bool :=
  m.declaringType.references space || m.returnType.references space ||
    TypeSig.anyReferences space (m.parameters ++ m.genericArguments ++ m.optional.getD [])

/-- The reference in assembler notation. -/
def text (m : MethodRef) : String :=
  m.convention.keyword ++ (if m.hasThis then "instance " else "") ++
    m.returnType.text ++ " " ++ m.declaringType.text ++ "::" ++ m.name ++
    (if m.genericArguments.isEmpty then ""
      else "<" ++ TypeSig.listText m.genericArguments ++ ">") ++
    parameterText m.parameters m.optional

end MethodRef

namespace FieldRef

/-- Some type in the reference lives in the namespace. -/
def references (space : String) (f : FieldRef) : Bool :=
  f.declaringType.references space || f.fieldType.references space

/-- The reference in assembler notation. -/
def text (f : FieldRef) : String :=
  f.fieldType.text ++ " " ++ f.declaringType.text ++ "::" ++ f.name

end FieldRef

namespace CallSite

/-- The stack slots that an indirect call consumes, the function pointer
included. -/
def callPops (s : CallSite) : Nat :=
  1 + implicitThisCount s.hasThis s.explicitThis + s.parameters.length +
    (s.optional.getD []).length

/-- The call leaves a value on the stack. -/
def returnsValue (s : CallSite) : Bool := !s.returnType.isVoid

/-- Some type in the signature lives in the namespace. -/
def references (space : String) (s : CallSite) : Bool :=
  s.returnType.references space ||
    TypeSig.anyReferences space (s.parameters ++ s.optional.getD [])

/-- The signature in assembler notation, with a star in place of a name. -/
def text (s : CallSite) : String :=
  s.convention.keyword ++ (if s.hasThis then "instance " else "") ++
    s.returnType.text ++ " *" ++ parameterText s.parameters s.optional

end CallSite

end InlineCil
