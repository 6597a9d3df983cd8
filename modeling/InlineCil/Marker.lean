import InlineCil.Failure

/-!
# The marker vocabulary

Calls that stand for something else than a call: primitives that act on the
stack, labels and locals; one method for each opcode to be emitted; and builders
of the references that such methods take. A called method is classified by its
declaring type, its name and the types of its parameters, so that overloads are
told apart.

In the marker namespace every method has to be known: a name or a list of
parameters that is not part of the vocabulary is a failure and not an ordinary
call. A few methods of two core types, on reflected types and the empty array,
are builders as well; their other methods are ordinary calls. Types of the
vocabulary are recognised by name with the namespace left out, so that one table
serves whatever namespace the settings name.

For an emitting method the opcode is spelled by the method name and the parameter
by its type. Whether the two go together is decided when the operand is made.
-/

namespace InlineCil

/-- A marker that acts by itself. -/
inductive Primitive where
  | push | pushInRef | pushOutRef | pop | unreachable | returnValue | returnRef
  | returnPointer | markLabel
  | declareLocals (hasInitFlag : Bool)
  deriving DecidableEq, Repr

/-- The name of the marker method. -/
def Primitive.name : Primitive → String
  | .push => "Push"
  | .pushInRef => "PushInRef"
  | .pushOutRef => "PushOutRef"
  | .pop => "Pop"
  | .unreachable => "Unreachable"
  | .returnValue => "Return"
  | .returnRef => "ReturnRef"
  | .returnPointer => "ReturnPointer"
  | .markLabel => "MarkLabel"
  | .declareLocals _ => "DeclareLocals"

/-- What the parameter of an emitting method is. -/
inductive EmitParameter where
  | none | int8 | uint8 | int16 | uint16 | int32 | uint32 | int64 | uint64 | float32 | float64
  | string | stringArray | typeReference | methodReference | fieldReference | signature
  deriving DecidableEq, Repr

namespace EmitParameter

/-- The name of a parameter kind. -/
def name : EmitParameter → String
  | .none => "None"
  | .int8 => "Int8"
  | .uint8 => "UInt8"
  | .int16 => "Int16"
  | .uint16 => "UInt16"
  | .int32 => "Int32"
  | .uint32 => "UInt32"
  | .int64 => "Int64"
  | .uint64 => "UInt64"
  | .float32 => "Float32"
  | .float64 => "Float64"
  | .string => "String"
  | .stringArray => "StringArray"
  | .typeReference => "TypeRef"
  | .methodReference => "MethodRef"
  | .fieldReference => "FieldRef"
  | .signature => "StandAloneSig"

/-- The parameter is an integer. -/
def isInteger : EmitParameter → Bool
  | .int8 | .uint8 | .int16 | .uint16 | .int32 | .uint32 | .int64 | .uint64 => true
  | _ => false

/-- The parameter of a written type. -/
def ofTypeText? : String → Option EmitParameter
  | "System.SByte" => some .int8
  | "System.Byte" => some .uint8
  | "System.Int16" => some .int16
  | "System.UInt16" => some .uint16
  | "System.Int32" => some .int32
  | "System.UInt32" => some .uint32
  | "System.Int64" => some .int64
  | "System.UInt64" => some .uint64
  | "System.Single" => some .float32
  | "System.Double" => some .float64
  | "System.String" => some .string
  | "System.String[]" => some .stringArray
  | "TypeRef" => some .typeReference
  | "MethodRef" => some .methodReference
  | "FieldRef" => some .fieldReference
  | "StandAloneMethodSig" => some .signature
  | _ => Option.none

end EmitParameter

/-- A marker that builds a reference for another one. Where there is one list of
builders on reflected types and one on type references, the former have
`Reflected` in their names. -/
inductive Builder where
  | typeOfReflected
  | typeOfName
  | typeOfParameter
  | pointer
  | byRef
  | array
  | arrayOfRank
  | genericInstance
  | modified (required : Bool)
  | genericParametersOfType
  | genericParametersOfMethod
  | genericParameter
  | typeToken
  | pointerReflected
  | byRefReflected
  | arrayReflected
  | arrayOfRankReflected
  | genericInstanceReflected
  | emptyArray
  | method (takesArity takesParameters : Bool)
  | accessor (accessor : Accessor)
  | constructor
  | typeInitializer
  | unaryOperator
  | binaryOperator
  | conversionOperator
  | genericMethod
  | optionalOfMethod
  | field
  | managedSignature
  | unmanagedSignature
  | optionalOfSignature
  | localVariable (named reflected : Bool)
  | pinnedLocal
  deriving DecidableEq, Repr

/-- A marker. -/
inductive Marker where
  | primitive (p : Primitive)
  | emit (opcode : Opcode) (parameter : EmitParameter)
  | builder (b : Builder)
  deriving DecidableEq, Repr

namespace Marker

/-- Primitives by name. A leading truth value is a parameter of its own when
locals are declared. -/
def primitive? (name : String) (parameters : List String) : Option Primitive :=
  match name with
  | "Push" => some .push
  | "PushInRef" => some .pushInRef
  | "PushOutRef" => some .pushOutRef
  | "Pop" => some .pop
  | "Unreachable" => some .unreachable
  | "Return" => some .returnValue
  | "ReturnRef" => some .returnRef
  | "ReturnPointer" => some .returnPointer
  | "MarkLabel" => some .markLabel
  | "DeclareLocals" => some (.declareLocals (parameters.head? = some "System.Boolean"))
  | _ => none

/-- Emitting methods: an opcode and at most one parameter. -/
def emit? (name : String) (parameters : List String) : Option Marker :=
  match Opcode.ofMethodName? name, parameters with
  | some opcode, [] => some (.emit opcode .none)
  | some opcode, [parameter] => (EmitParameter.ofTypeText? parameter).map (.emit opcode)
  | _, _ => none

/-- Builders of type references. -/
def typeBuilder? (name : String) (parameters : List String) : Option Builder :=
  match name, parameters with
  | ".ctor", ["System.Type"] | "op_Implicit", ["System.Type"] => some .typeOfReflected
  | ".ctor", ["System.String", "System.String"] => some .typeOfName
  | "Type", [] => some .typeOfParameter
  | "MakePointerType", [] => some .pointer
  | "MakeByRefType", [] => some .byRef
  | "MakeArrayType", [] => some .array
  | "MakeArrayType", ["System.Int32"] => some .arrayOfRank
  | "MakeGenericType", ["TypeRef[]"] => some .genericInstance
  | "WithOptionalModifier", ["TypeRef"] => some (.modified false)
  | "WithRequiredModifier", ["TypeRef"] => some (.modified true)
  | "get_TypeGenericParameters", [] => some .genericParametersOfType
  | "get_MethodGenericParameters", [] => some .genericParametersOfMethod
  | _, _ => none

/-- Builders on reflected types, by the number of parameters. -/
def reflectedBuilder? (name : String) (parameters : Nat) : Option Builder :=
  match name, parameters with
  | "GetTypeFromHandle", 1 => some .typeToken
  | "MakePointerType", 0 => some .pointerReflected
  | "MakeByRefType", 0 => some .byRefReflected
  | "MakeArrayType", 0 => some .arrayReflected
  | "MakeArrayType", 1 => some .arrayOfRankReflected
  | "MakeGenericType", 1 => some .genericInstanceReflected
  | _, _ => none

/-- The accessor that a builder of method references names. -/
def accessor? : String → Option Accessor
  | "PropertyGet" => some .get
  | "PropertySet" => some .set
  | "EventAdd" => some .add
  | "EventRemove" => some .remove
  | "EventRaise" => some .raise
  | _ => none

/-- Builders of method references by name and parameters; constructors of the
reference and its named factory are the same. -/
def namedMethodBuilder? (name : String) (parameters : List String) : Option Builder :=
  if name = ".ctor" || name = "Method" then
    match parameters with
    | ["TypeRef", "System.String"] => some (.method false false)
    | ["TypeRef", "System.String", "TypeRef[]"] => some (.method false true)
    | ["TypeRef", "System.String", "System.Int32", "TypeRef[]"] => some (.method true true)
    | _ => none
  else none

/-- Builders of method references. -/
def methodBuilder? (name : String) (parameters : List String) : Option Builder :=
  match name, parameters with
  | "Constructor", ["TypeRef", "TypeRef[]"] => some .constructor
  | "TypeInitializer", ["TypeRef"] => some .typeInitializer
  | "Operator", ["TypeRef", "UnaryOperator"] => some .unaryOperator
  | "Operator", ["TypeRef", "BinaryOperator", "TypeRef", "TypeRef"] => some .binaryOperator
  | "Operator", ["TypeRef", "ConversionOperator", "ConversionDirection", "TypeRef"] =>
      some .conversionOperator
  | "MakeGenericMethod", ["TypeRef[]"] => some .genericMethod
  | "WithOptionalParameters", ["TypeRef[]"] => some .optionalOfMethod
  | name, [_, _] => ((accessor? name).map .accessor).or (namedMethodBuilder? name parameters)
  | name, _ => namedMethodBuilder? name parameters

/-- Builders of call-site signatures. -/
def signatureBuilder? : String → Option Builder
  | "ManagedMethod" => some .managedSignature
  | "UnmanagedMethod" => some .unmanagedSignature
  | "WithOptionalParameters" => some .optionalOfSignature
  | _ => none

/-- Builders of local variables. -/
def localBuilder? (name : String) (parameters : List String) : Option Builder :=
  match name, parameters with
  | ".ctor", ["TypeRef"] => some (.localVariable false false)
  | ".ctor", ["System.Type"] => some (.localVariable false true)
  | ".ctor", ["System.String", "TypeRef"] => some (.localVariable true false)
  | ".ctor", ["System.String", "System.Type"] => some (.localVariable true true)
  | "Pinned", [] => some .pinnedLocal
  | _, _ => none

/-- A marker of the vocabulary by its type relative to the namespace, its name
and the types of its parameters. -/
def ofMember? (type name : String) (parameters : List String) : Option Marker :=
  match type with
  | "IL" => (primitive? name parameters).map .primitive
  | "IL/Emit" => emit? name parameters
  | "TypeRef" => (typeBuilder? name parameters).map .builder
  | "GenericParameters" => if name = "get_Item" then some (.builder .genericParameter) else none
  | "MethodRef" => (methodBuilder? name parameters).map .builder
  | "FieldRef" => if name = ".ctor" || name = "Field" then some (.builder .field) else none
  | "StandAloneMethodSig" => (signatureBuilder? name).map .builder
  | "LocalVar" => (localBuilder? name parameters).map .builder
  | _ => none

/-- The name of a type as the vocabulary knows it, without the namespace before
it. -/
def relativeName (space : String) (owner : TypeName) : String :=
  (Text.after? (space ++ ".") owner.fullName).getD owner.fullName

/-- A parameter type as written, the types of the vocabulary without their
namespace. -/
def parameterText (space : String) (parameter : TypeSig) : String :=
  Text.without (space ++ ".") parameter.text

/-- Classify a called method. Methods outside the vocabulary are no markers; a
method of the namespace that the vocabulary does not know is refused. -/
def classify (space : String) (m : MethodRef) : Except Failure (Option Marker) :=
  match m.declaringType.root? with
  | none => .ok none
  | some owner =>
      if owner.is "System" "Type" then
        .ok ((reflectedBuilder? m.name m.parameters.length).map .builder)
      else if owner.is "System" "Array" then
        .ok (if m.name = "Empty" && m.genericArguments.length = 1 then
          some (.builder .emptyArray) else none)
      else if !owner.inNamespace space then .ok none
      else
        match ofMember? (relativeName space owner) m.name
            (m.parameters.map (parameterText space)) with
        | some marker => .ok (some marker)
        | none => .error (.ofCause (.unsupportedMarker space m))

end Marker

/-- The marker that an instruction calls. -/
def Instruction.marker? (space : String) (i : Instruction) : Except Failure (Option Marker) :=
  match i.calledMethod? with
  | none => .ok none
  | some m => Marker.classify space m

end InlineCil
