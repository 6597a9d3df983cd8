import InlineCil.Proofs.Steps

/-!
# Argument expressions

The grammar of the arguments of marker calls: constants with the conversions
applied to them, texts, arrays, types, members, signatures and local variables.
An expression knows its instructions in program order, the arguments of a call
from left to right before the call, and the value it denotes. A call belongs to
an expression only through its classification, so the grammar names no methods.

Values are composed in the order in which they are read, the last argument first.
The order belongs to the denotation because symbols found on the way are
remembered, and because of two arguments that fail it is the last one whose
failure is reported.

The grammar is the specification of the readers and does not mention them. `code`
and `denote` are by recursion on the expression, where the readers go backward
from the call and find out what they read as they go. The reader of a kind is
`Reader.expression`, and the modules after this one show that it succeeds on
`code` with the value of `denote` and on nothing else.
-/

namespace InlineCil

/-- What an argument may be. Reflected types are composed by the host's own
reflection, and the elements of an array are its groups without the last store.

An optional argument is there only if the overload has the parameter. It is a
kind of its own so that all overloads of a builder share one constructor. -/
inductive ArgumentKind where
  | constant | integer | string
  | array (element : ArgumentKind)
  | elements (element : ArgumentKind)
  | optional (present : Bool) (content : ArgumentKind)
  | parameterOwner
  | type (reflected : Bool)
  | method | field | signature | localVariable
  deriving DecidableEq, Repr

/-- What an argument of a kind denotes. -/
abbrev ArgumentKind.Value : ArgumentKind → Type
  | .constant => Constant
  | .integer => Int
  | .string => String
  | .array element => List element.Value
  | .elements element => List (Int × element.Value)
  | .optional _ content => Option content.Value
  | .parameterOwner => GenericOwner
  | .type _ => TypeSig
  | .method => MethodRef
  | .field => FieldRef
  | .signature => CallSite
  | .localVariable => LocalDeclaration

/-- An instruction that calls a builder of the vocabulary in a namespace. -/
def Instruction.Calls (space : String) (i : Instruction) (b : Builder) : Prop :=
  i.marker? space = .ok (some (.builder b))

/-- The ways to compose a type from one other type and nothing else. -/
inductive Wrapping where
  | pointer | byRef | vector
  deriving DecidableEq, Repr

/-- The builder of a wrapping, on reflected types or on type references. -/
def Wrapping.builder : (reflected : Bool) → Wrapping → Builder
  | false, .pointer => .pointer
  | false, .byRef => .byRef
  | false, .vector => .array
  | true, .pointer => .pointerReflected
  | true, .byRef => .byRefReflected
  | true, .vector => .arrayReflected

/-- The type that a wrapping composes. -/
def Wrapping.apply (element : TypeSig) : Wrapping → Except Failure TypeSig
  | .pointer => element.pointerTo
  | .byRef => element.byRefTo
  | .vector => element.arrayOf 1

namespace Builder

/-- The builder of arrays of a rank. -/
def ofRank : (reflected : Bool) → Builder
  | false => .arrayOfRank
  | true => .arrayOfRankReflected

/-- The builder of instances of generic types. -/
def ofInstance : (reflected : Bool) → Builder
  | false => .genericInstance
  | true => .genericInstanceReflected

/-- The builder of the generic parameters of an owner. -/
def ofOwner : GenericOwner → Builder
  | .type => .genericParametersOfType
  | .method => .genericParametersOfMethod

/-- The builder of a signature, for managed or for unmanaged code. -/
def ofSignature : (managed : Bool) → Builder
  | true => .managedSignature
  | false => .unmanagedSignature

end Builder

/-- An argument expression. Each constructor holds the parts in program order and
then the instructions that compose them, with what makes these instructions
belong here. -/
inductive Expression (space : String) : ArgumentKind → Type where
  -- Constants and texts.
  | literal (load : Instruction) (value : Constant) (loads : Reader.literal? load = some value) :
      Expression space .constant
  | converted (inner : Expression space .constant) (convert : Instruction)
      (conversion : Conversion) (converts : convert.opcode.conversion? = some conversion) :
      Expression space .constant
  | whole (inner : Expression space .constant) : Expression space .integer
  | text (value : String) : Expression space .string
  -- Arrays: the empty one, one that is only created, and one filled group by group.
  | emptyArray {element : ArgumentKind} (call : Instruction)
      (calls : call.Calls space .emptyArray) : Expression space (.array element)
  | createdArray {element : ArgumentKind} (length : Expression space .integer)
      (create : Instruction) (creates : create.opcode = .newarr) :
      Expression space (.array element)
  | filledArray {element : ArgumentKind} (length : Expression space .integer)
      (elements : Expression space (.elements element)) (store : Instruction)
      (stores : store.opcode.isElementStore = true) : Expression space (.array element)
  | firstElement {element : ArgumentKind} (create duplicate : Instruction)
      (creates : create.opcode = .newarr) (duplicates : duplicate.opcode = .dup)
      (index : Expression space .integer) (value : Expression space element) :
      Expression space (.elements element)
  | nextElement {element : ArgumentKind} (earlier : Expression space (.elements element))
      (store duplicate : Instruction) (stores : store.opcode.isElementStore = true)
      (duplicates : duplicate.opcode = .dup) (index : Expression space .integer)
      (value : Expression space element) : Expression space (.elements element)
  -- Arguments that an overload may lack.
  | absent {content : ArgumentKind} : Expression space (.optional false content)
  | present {content : ArgumentKind} (inner : Expression space content) :
      Expression space (.optional true content)
  -- Types, in both forms where there are two.
  | typeToken (sig : TypeSig) (call : Instruction) (calls : call.Calls space .typeToken) :
      Expression space (.type true)
  | wrapped {reflected : Bool} (wrapping : Wrapping)
      (element : Expression space (.type reflected)) (call : Instruction)
      (calls : call.Calls space (wrapping.builder reflected)) : Expression space (.type reflected)
  | arrayOfRank {reflected : Bool} (element : Expression space (.type reflected))
      (rank : Expression space .integer) (call : Instruction)
      (calls : call.Calls space (.ofRank reflected)) : Expression space (.type reflected)
  | genericInstance {reflected : Bool} (definition : Expression space (.type reflected))
      (arguments : Expression space (.array (.type reflected))) (call : Instruction)
      (calls : call.Calls space (.ofInstance reflected)) : Expression space (.type reflected)
  | ofReflected (inner : Expression space (.type true)) (call : Instruction)
      (calls : call.Calls space .typeOfReflected) : Expression space (.type false)
  | ofName (assembly name : Expression space .string) (call : Instruction)
      (calls : call.Calls space .typeOfName) : Expression space (.type false)
  | ofTypeArgument (call : Instruction) (calls : call.Calls space .typeOfParameter) :
      Expression space (.type false)
  | modified (required : Bool) (element modifier : Expression space (.type false))
      (call : Instruction) (calls : call.Calls space (.modified required)) :
      Expression space (.type false)
  | parameterOwner (owner : GenericOwner) (call : Instruction)
      (calls : call.Calls space (.ofOwner owner)) : Expression space .parameterOwner
  | genericParameter (owner : Expression space .parameterOwner)
      (index : Expression space .integer) (call : Instruction)
      (calls : call.Calls space .genericParameter) : Expression space (.type false)
  -- Methods.
  | method {takesArity takesParameters : Bool} (on : Expression space (.type false))
      (name : Expression space .string)
      (arity : Expression space (.optional takesArity .integer))
      (parameters : Expression space (.optional takesParameters (.array (.type false))))
      (call : Instruction) (calls : call.Calls space (.method takesArity takesParameters)) :
      Expression space .method
  | accessor (role : Accessor) (on : Expression space (.type false))
      (name : Expression space .string) (call : Instruction)
      (calls : call.Calls space (.accessor role)) : Expression space .method
  | constructor (on : Expression space (.type false))
      (parameters : Expression space (.array (.type false))) (call : Instruction)
      (calls : call.Calls space .constructor) : Expression space .method
  | typeInitializer (on : Expression space (.type false)) (call : Instruction)
      (calls : call.Calls space .typeInitializer) : Expression space .method
  | unaryOperator (on : Expression space (.type false)) (number : Expression space .integer)
      (call : Instruction) (calls : call.Calls space .unaryOperator) : Expression space .method
  | binaryOperator (on : Expression space (.type false)) (number : Expression space .integer)
      (left right : Expression space (.type false)) (call : Instruction)
      (calls : call.Calls space .binaryOperator) : Expression space .method
  | conversionOperator (on : Expression space (.type false))
      (kind direction : Expression space .integer) (other : Expression space (.type false))
      (call : Instruction) (calls : call.Calls space .conversionOperator) :
      Expression space .method
  | genericMethod (definition : Expression space .method)
      (arguments : Expression space (.array (.type false))) (call : Instruction)
      (calls : call.Calls space .genericMethod) : Expression space .method
  | optionalOfMethod (declared : Expression space .method)
      (parameters : Expression space (.array (.type false))) (call : Instruction)
      (calls : call.Calls space .optionalOfMethod) : Expression space .method
  -- Fields, signatures and local variables.
  | field (on : Expression space (.type false)) (name : Expression space .string)
      (call : Instruction) (calls : call.Calls space .field) : Expression space .field
  | signature (managed : Bool) (convention : Expression space .integer)
      (returnType : Expression space (.type false))
      (parameters : Expression space (.array (.type false))) (call : Instruction)
      (calls : call.Calls space (.ofSignature managed)) : Expression space .signature
  | optionalOfSignature (declared : Expression space .signature)
      (parameters : Expression space (.array (.type false))) (call : Instruction)
      (calls : call.Calls space .optionalOfSignature) : Expression space .signature
  | localVariable {named reflected : Bool} (name : Expression space (.optional named .string))
      (type : Expression space (.type reflected)) (call : Instruction)
      (calls : call.Calls space (.localVariable named reflected)) :
      Expression space .localVariable
  | pinned (declared : Expression space .localVariable) (call : Instruction)
      (calls : call.Calls space .pinnedLocal) : Expression space .localVariable

namespace Expression

variable {space : String}

/-- The instructions of an expression in program order. -/
def code : {k : ArgumentKind} → Expression space k → List Instruction
  | _, .literal load _ _ => [load]
  | _, .converted inner convert _ _ => inner.code ++ [convert]
  | _, .whole inner => inner.code
  | _, .text value => [⟨.ldstr, .string value⟩]
  | _, .emptyArray call _ => [call]
  | _, .createdArray length create _ => length.code ++ [create]
  | _, .filledArray length elements store _ => length.code ++ elements.code ++ [store]
  | _, .firstElement create duplicate _ _ index value =>
      [create] ++ [duplicate] ++ index.code ++ value.code
  | _, .nextElement earlier store duplicate _ _ index value =>
      earlier.code ++ [store] ++ [duplicate] ++ index.code ++ value.code
  | _, .absent => []
  | _, .present inner => inner.code
  | _, .typeToken sig call _ => [⟨.ldtoken, .type sig⟩] ++ [call]
  | _, .wrapped _ element call _ => element.code ++ [call]
  | _, .arrayOfRank element rank call _ => element.code ++ rank.code ++ [call]
  | _, .genericInstance definition arguments call _ =>
      definition.code ++ arguments.code ++ [call]
  | _, .ofReflected inner call _ => inner.code ++ [call]
  | _, .ofName assembly name call _ => assembly.code ++ name.code ++ [call]
  | _, .ofTypeArgument call _ => [call]
  | _, .modified _ element modifier call _ => element.code ++ modifier.code ++ [call]
  | _, .parameterOwner _ call _ => [call]
  | _, .genericParameter owner index call _ => owner.code ++ index.code ++ [call]
  | _, .method on name arity parameters call _ =>
      on.code ++ name.code ++ arity.code ++ parameters.code ++ [call]
  | _, .accessor _ on name call _ => on.code ++ name.code ++ [call]
  | _, .constructor on parameters call _ => on.code ++ parameters.code ++ [call]
  | _, .typeInitializer on call _ => on.code ++ [call]
  | _, .unaryOperator on number call _ => on.code ++ number.code ++ [call]
  | _, .binaryOperator on number left right call _ =>
      on.code ++ number.code ++ left.code ++ right.code ++ [call]
  | _, .conversionOperator on kind direction other call _ =>
      on.code ++ kind.code ++ direction.code ++ other.code ++ [call]
  | _, .genericMethod definition arguments call _ => definition.code ++ arguments.code ++ [call]
  | _, .optionalOfMethod declared parameters call _ =>
      declared.code ++ parameters.code ++ [call]
  | _, .field on name call _ => on.code ++ name.code ++ [call]
  | _, .signature _ convention returnType parameters call _ =>
      convention.code ++ returnType.code ++ parameters.code ++ [call]
  | _, .optionalOfSignature declared parameters call _ =>
      declared.code ++ parameters.code ++ [call]
  | _, .localVariable name type call _ => name.code ++ type.code ++ [call]
  | _, .pinned declared call _ => declared.code ++ [call]

/-- A constant after a conversion, which may overflow. -/
def convert (opcode : Opcode) (conversion : Conversion) (value : Constant) :
    Except Failure Constant :=
  match conversion.apply value with
  | some result => .ok result
  | none => .error (.ofCause (.overflow value opcode))

/-- The whole number that a constant is. A floating-point number is none, even if
its value is whole. -/
def wholeOf : Constant → Except Failure Int
  | .int32 value => .ok value.toInt
  | .int64 value => .ok value.toInt
  | .float value => .error (.ofCause (.notInteger value))

/-- The elements of an array that is only created, which has to be empty. -/
def uninitialized {α : Type} (length : Int) : Except Failure (List α) :=
  match length with
  | 0 => .ok []
  | count => .error (.ofCause (.arrayUninitialized count))

/-- Elements arranged by their indices in an array of a length. -/
def arrange {α : Type} (length : Int) (elements : List (Int × α)) : Except Failure (List α) :=
  match Reader.arranged length elements with
  | .ok values => .ok values
  | .error cause => .error (.ofCause cause)

/-- The type argument that a call passes to the vocabulary. -/
def typeArgument (call : Instruction) : Except Failure TypeSig :=
  match call.method?.bind (·.genericArguments.head?) with
  | some sig => .ok sig
  | none => .error (.ofCause (.unexpected .typeArgument call))

/-- A signature of either sort from its convention. -/
def callSite (convention : Int) (returnType : TypeSig) (parameters : List TypeSig) :
    (managed : Bool) → Except Failure CallSite
  | true => CallSite.ofFlags convention returnType parameters
  | false => CallSite.ofUnmanaged convention returnType parameters

/-- A declaration pinned, which it may be once. -/
def pin (declared : LocalDeclaration) : Except Failure LocalDeclaration :=
  if declared.pinned then .error (.ofCause .pinnedTwice)
  else .ok { declared with pinned := true }

/-- The value that an expression denotes, if every conversion, composition and
lookup in it succeeds. -/
def denote : {k : ArgumentKind} → Expression space k → Resolving k.Value
  | _, .literal _ value _ => return value
  | _, .converted inner i conversion _ => do
      liftExcept (convert i.opcode conversion (← inner.denote))
  | _, .whole inner => do liftExcept (wholeOf (← inner.denote))
  | _, .text value => return value
  | _, .emptyArray _ _ => return []
  | _, .createdArray length _ _ => do liftExcept (uninitialized (← length.denote))
  | _, .filledArray length elements _ _ => do
      let found ← elements.denote
      liftExcept (arrange (← length.denote) found)
  | _, .firstElement _ _ _ _ index value => do
      let element ← value.denote
      return [(← index.denote, element)]
  | _, .nextElement earlier _ _ _ _ index value => do
      let element ← value.denote
      let position ← index.denote
      return (position, element) :: (← earlier.denote)
  | _, .absent => return none
  | _, .present inner => some <$> inner.denote
  | _, .typeToken sig _ _ => return sig
  | _, .wrapped wrapping element _ _ => do liftExcept (wrapping.apply (← element.denote))
  | _, .arrayOfRank element rank _ _ => do
      let count ← rank.denote
      liftExcept ((← element.denote).arrayOf count)
  | _, .genericInstance definition arguments _ _ => do
      let types ← arguments.denote
      (← definition.denote).instanceOf types
  | _, .ofReflected inner _ _ => inner.denote
  | _, .ofName assembly name _ _ => do
      let type ← name.denote
      TypeSig.ofName (← assembly.denote) type
  | _, .ofTypeArgument call _ => liftExcept (typeArgument call)
  | _, .modified required element modifier _ _ => do
      let outer ← modifier.denote
      return .modified required outer (← element.denote)
  | _, .parameterOwner owner _ _ => return owner
  | _, .genericParameter owner index _ _ => do
      let position ← index.denote
      liftExcept (TypeSig.ofParameterIndex (← owner.denote) position)
  | _, .method on name arity parameters _ _ => do
      let types ← parameters.denote
      let count ← arity.denote
      let text ← name.denote
      Lookup.method (.method (← on.denote) text count types)
  | _, .accessor role on name _ _ => do
      let text ← name.denote
      Lookup.accessor (← on.denote) text role
  | _, .constructor on parameters _ _ => do
      let types ← parameters.denote
      Lookup.method (.constructor (← on.denote) types)
  | _, .typeInitializer on _ _ => do Lookup.method (.typeInitializer (← on.denote))
  | _, .unaryOperator on number _ _ => do
      let operator ← number.denote
      Lookup.unaryOperator (← on.denote) operator
  | _, .binaryOperator on number left right _ _ => do
      let second ← right.denote
      let first ← left.denote
      let operator ← number.denote
      Lookup.binaryOperator (← on.denote) operator first second
  | _, .conversionOperator on kind direction other _ _ => do
      let type ← other.denote
      let way ← direction.denote
      let operator ← kind.denote
      Lookup.conversionOperator (← on.denote) operator way type
  | _, .genericMethod definition arguments _ _ => do
      let types ← arguments.denote
      liftExcept ((← definition.denote).instantiate types)
  | _, .optionalOfMethod declared parameters _ _ => do
      let types ← parameters.denote
      liftExcept ((← declared.denote).withOptional types)
  | _, .field on name _ _ => do
      let text ← name.denote
      Lookup.field (← on.denote) text
  | _, .signature managed convention returnType parameters _ _ => do
      let types ← parameters.denote
      let result ← returnType.denote
      liftExcept (callSite (← convention.denote) result types managed)
  | _, .optionalOfSignature declared parameters _ _ => do
      let types ← parameters.denote
      liftExcept ((← declared.denote).withOptional types)
  | _, .localVariable name type _ _ => do
      let sig ← type.denote
      return { name := ← name.denote, type := sig }
  | _, .pinned declared _ _ => do liftExcept (pin (← declared.denote))

end Expression

namespace Reader

/-- The reader of the expressions of a kind. The bound is that of nested readers;
`rounds` bounds the groups of the elements of an array and matters to nothing
else. -/
def expression (site : Site) : (k : ArgumentKind) → (bound rounds : Nat) → Reader k.Value
  | .constant, bound, _ => constant site bound
  | .integer, bound, _ => integer site bound
  | .string, _, _ => string site
  | .array element, bound, _ => array site (expression site element bound bound) bound
  | .elements element, bound, rounds =>
      Prod.snd <$> elements site (expression site element bound bound) bound rounds
  | .optional present content, bound, _ =>
      optional present (expression site content bound bound)
  | .parameterOwner, _, _ => parameterOwner site
  | .type true, bound, _ => reflectedType site bound
  | .type false, bound, _ => type site bound
  | .method, bound, _ => method site bound
  | .field, bound, _ => field site bound
  | .signature, bound, _ => signature site bound
  | .localVariable, bound, _ => localVariable site bound

end Reader

end InlineCil
