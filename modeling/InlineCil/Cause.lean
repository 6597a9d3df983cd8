import InlineCil.Argument
import InlineCil.Constant
import InlineCil.Text.Padded

/-!
# Causes of failure

Every way in which the code being rewritten may be refused, with its kind and its
wording. A cause says what was wrong; where it was wrong is added by whoever
reports it.

Causes are data, each with exactly the values that its message mentions, so that
two refusals are the same when their causes are. The kind is a coarser view: it
counts refusals in reports, and one decision depends on it, since an assembly
that is not found is told differently when a type was looked for in it. The
constructors stand in the order of the parts of the library that raise them, from
single instructions to what is left over after a rewrite.

The wording follows a few patterns. What was expected is named by `Expected`, a
member that was looked for by `Wanted`, and both have texts of their own here,
which the messages put together.
-/

namespace InlineCil

/-- The kinds under which failures are counted. -/
inductive Kind where
  | patternMismatch | nullNotAllowed | notFound | ambiguous | structural | stackSafety
  | unconsumedReference
  deriving DecidableEq, Repr

namespace Kind

/-- The name of a kind in reports. -/
def name : Kind → String
  | .patternMismatch => "PatternMismatch"
  | .nullNotAllowed => "NullNotAllowed"
  | .notFound => "NotFound"
  | .ambiguous => "Ambiguous"
  | .structural => "Structural"
  | .stackSafety => "StackSafety"
  | .unconsumedReference => "UnconsumedReference"

/-- Every kind. -/
def all : List Kind :=
  [.patternMismatch, .nullNotAllowed, .notFound, .ambiguous, .structural, .stackSafety,
   .unconsumedReference]

/-- The kind of a name. -/
def ofName? (text : String) : Option Kind := all.find? (·.name = text)

end Kind

/-- What an argument reader was looking for. -/
inductive Expected where
  | constant | string | array | element | type | typeToken | typeReference | typeArgument
  | genericParameters | methodReference | fieldReference | signature | localVariable
  deriving DecidableEq, Repr

/-- The words for what was looked for. -/
def Expected.text : Expected → String
  | .constant => "a constant value"
  | .string => "a string literal"
  | .array => "an array"
  | .element => "an array element initializer"
  | .type => "a type"
  | .typeToken => "ldtoken of a type"
  | .typeReference => "a type reference"
  | .typeArgument => "TypeRef.Type<T>()"
  | .genericParameters => "generic parameters"
  | .methodReference => "a method reference"
  | .fieldReference => "a field reference"
  | .signature => "a method signature"
  | .localVariable => "a local variable"

/-- The accessor methods of properties and events. -/
inductive Accessor where
  | get | set | add | remove | raise
  deriving DecidableEq, Repr

namespace Accessor

/-- The words for an accessor. -/
def text : Accessor → String
  | .get => "getter"
  | .set => "setter"
  | .add => "add accessor"
  | .remove => "remove accessor"
  | .raise => "raise accessor"

/-- Getters and setters belong to properties, the others to events. -/
def ofProperty : Accessor → Bool
  | .get | .set => true
  | .add | .remove | .raise => false

/-- The word for the member that has the accessor. -/
def memberText (a : Accessor) : String := if a.ofProperty then "Property" else "Event"

end Accessor

/-- The two families of operators. -/
inductive OperatorFamily where
  | unary | binary
  deriving DecidableEq, Repr

/-- The word for a family of operators. -/
def OperatorFamily.text : OperatorFamily → String
  | .unary => "unary"
  | .binary => "binary"

/-- A method that is looked for on a type. -/
inductive Wanted where
  | method (on : TypeSig) (name : String) (arity : Option Int)
      (parameters : Option (List TypeSig))
  | constructor (on : TypeSig) (parameters : List TypeSig)
  | typeInitializer (on : TypeSig)
  | unaryOperator (on : TypeSig) (name : String)
  | binaryOperator (on : TypeSig) (name : String) (left right : TypeSig)
  | conversion (on : TypeSig) (name : String) (source target : TypeSig)
  deriving Repr

/-- The words for a method that is looked for. -/
def Wanted.text : Wanted → String
  | .method on name arity parameters =>
      "Method " ++ on.text ++ "::" ++ name ++
        (match arity with
          | none => ""
          | some count => "\x60" ++ toString count) ++
        (match parameters with
          | none => ""
          | some types => "(" ++ TypeSig.listText types ++ ")")
  | .constructor on parameters =>
      "Constructor " ++ on.text ++ "(" ++ TypeSig.listText parameters ++ ")"
  | .typeInitializer on => "Type initializer of " ++ on.text
  | .unaryOperator on name => "Operator " ++ on.text ++ "::" ++ name
  | .binaryOperator on name left right =>
      "Operator " ++ on.text ++ "::" ++ name ++ "(" ++ left.text ++ "," ++ right.text ++ ")"
  | .conversion on name source target =>
      "Conversion operator " ++ on.text ++ "::" ++ name ++ " from " ++ source.text ++ " to " ++
        target.text

/-- Why code is refused. -/
inductive Cause where
  -- Instructions and assembling
  | operandKind (opcode : Opcode)
  | notBranch (opcode : Opcode)
  | labelRepeated (name : String)
  | labelUndefined (name : String)
  | labelAtEnd (name : String)
  -- Assemblies and types
  | assemblyUnresolved (assembly : String)
  | typeWithoutAssembly (type assembly : String)
  | typeMissing (type assembly : String)
  | forwardingTooLong (type : String)
  -- The marker vocabulary
  | unsupportedMarker (space : String) (method : MethodRef)
  -- Composing types
  | emptyTypeName
  | pointerToByRef (element : TypeSig)
  | byRefOfByRef (element : TypeSig)
  | arrayOfByRef (element : TypeSig)
  | arrayRank (rank : Int)
  | alreadyInstance (definition : TypeSig)
  | notGenericType (definition : TypeSig)
  | typeArgumentCount (definition : TypeSig) (expected got : Nat)
  | genericParameterIndex (index : Int)
  | byRefArgument (argument : TypeSig)
  -- Call-site signatures
  | conventionFlags (flags : Int)
  | conventionAny
  | explicitThisAlone
  | unmanagedConvention (value : Int)
  | notVarargSite (site : CallSite)
  | optionalSiteRepeated (site : CallSite)
  -- Members
  | noFields (type : TypeSig)
  | noMembers (type : TypeSig)
  | fieldMissing (name : String) (type : TypeSig)
  | fieldAmbiguous (name : String) (type : TypeSig)
  | propertyMissing (name : String) (type : TypeSig)
  | eventMissing (name : String) (type : TypeSig)
  | accessorMissing (accessor : Accessor) (name : String) (type : TypeSig)
  | operatorNumber (family : OperatorFamily) (value : Int)
  | conversionKind (value : Int)
  | conversionDirection (value : Int)
  | methodMissing (wanted : Wanted)
  | methodAmbiguous (wanted : Wanted) (count : Nat)
  | notGenericMethod (method : MethodRef)
  | alreadyGenericMethod (method : MethodRef)
  | methodArgumentCount (method : MethodRef) (expected got : Nat)
  | notVarargMethod (method : MethodRef)
  | optionalMethodRepeated (method : MethodRef)
  -- Reading arguments
  | argumentMissing (call : Instruction)
  | argumentElsewhere
  | nullFound (expected : Expected)
  | unexpected (expected : Expected) (found : Instruction)
  | overflow (value : Constant) (opcode : Opcode)
  | notInteger (value : Binary64)
  | arrayUninitialized (count : Int)
  | arrayLength (count : Int)
  | elementMissing (index : Nat)
  | elementIndex (index : Int)
  | elementRepeated (index : Int)
  | pinnedTwice
  -- Rewriting a site
  | unsafePush
  | popWithoutAddress
  | popOfOther (found : Instruction)
  | unreachableWithoutThrow
  | returnWithoutReturn
  | labelEmpty
  | localsRepeated
  | tooManyLocals
  | localRepeated (name : String)
  | localMissing (name : String)
  | localIndex (index : Int)
  | declaredLocalIndex (index : Int)
  | parameterMissing (name : String)
  | valueRange (value : Int) (opcode : Opcode)
  | argumentKind (opcode : Opcode) (value : Argument)
  -- Left after the rewrite
  | leftover (space : String) (instruction : Instruction)
  | leftoverLocal (space : String) (type : TypeSig)
  -- Told by the host
  | reported (kind : Kind) (message : String)
  deriving Repr

namespace Cause

/-- The kind of a cause. -/
def kind : Cause → Kind
  | operandKind _ | notBranch _ | unsupportedMarker .. | emptyTypeName
  | genericParameterIndex _ | conventionFlags _ | unmanagedConvention _ | noFields _
  | noMembers _ | operatorNumber .. | conversionKind _ | conversionDirection _
  | argumentMissing _ | unexpected .. | overflow .. | notInteger _ | popWithoutAddress
  | popOfOther _ | labelEmpty | localIndex _ | valueRange .. | argumentKind .. =>
      .patternMismatch
  | nullFound _ | arrayUninitialized _ | elementMissing _ => .nullNotAllowed
  | labelUndefined _ | assemblyUnresolved _ | typeWithoutAssembly .. | typeMissing ..
  | forwardingTooLong _ | fieldMissing .. | propertyMissing .. | eventMissing ..
  | accessorMissing .. | methodMissing _ | localMissing _ | parameterMissing _ => .notFound
  | fieldAmbiguous .. | methodAmbiguous .. => .ambiguous
  | labelRepeated _ | labelAtEnd _ | pointerToByRef _ | byRefOfByRef _ | arrayOfByRef _
  | arrayRank _ | alreadyInstance _ | notGenericType _ | typeArgumentCount ..
  | byRefArgument _ | conventionAny | explicitThisAlone | notVarargSite _
  | optionalSiteRepeated _ | notGenericMethod _ | alreadyGenericMethod _
  | methodArgumentCount .. | notVarargMethod _ | optionalMethodRepeated _
  | argumentElsewhere | arrayLength _ | elementIndex _ | elementRepeated _ | pinnedTwice
  | unreachableWithoutThrow | returnWithoutReturn | localsRepeated | tooManyLocals
  | localRepeated _ | declaredLocalIndex _ => .structural
  | unsafePush => .stackSafety
  | leftover .. | leftoverLocal .. => .unconsumedReference
  | reported kind _ => kind

/-- The words for the number of arguments of a generic definition. -/
def argumentCountText (what : String) (expected got : Nat) : String :=
  "Incorrect number of generic arguments for " ++ what ++ ": expected " ++ toString expected ++
    ", got " ++ toString got

/-- A flag value in hexadecimal, a negative one as its 64-bit word. -/
def flagText (flags : Int) : String := "0x" ++ Text.hexCapital (flags.emod 0x10000000000000000).toNat

/-- What a cause says. -/
def message : Cause → String
  | operandKind opcode =>
      "Opcode " ++ opcode.mnemonic ++ " expects an operand of kind " ++ opcode.kind.name
  | notBranch opcode => "Opcode " ++ opcode.mnemonic ++ " is not a branch"
  | labelRepeated name => "Label " ++ name ++ " is already defined"
  | labelUndefined name => "Undefined label: " ++ name
  | labelAtEnd name => "Label " ++ name ++ " is defined at the end of the body"
  | assemblyUnresolved assembly => "Could not resolve assembly: " ++ assembly
  | typeWithoutAssembly type assembly =>
      "Type " ++ type ++ " not found: assembly " ++ assembly ++ " could not be resolved"
  | typeMissing type assembly => "Type " ++ type ++ " not found in assembly " ++ assembly
  | forwardingTooLong type =>
      "Type " ++ type ++ " could not be resolved: type forwarding chain is too long"
  | unsupportedMarker space m =>
      "Unsupported method of the " ++ space ++ " vocabulary: " ++ m.text
  | emptyTypeName => "Type name cannot be empty"
  | pointerToByRef element => "Cannot point to a by-ref type: " ++ element.text
  | byRefOfByRef element => "Cannot make a by-ref of a by-ref type: " ++ element.text
  | arrayOfByRef element => "Cannot array a by-ref type: " ++ element.text
  | arrayRank rank =>
      "Invalid array rank " ++ toString rank ++ ", must be between 1 and 32"
  | alreadyInstance definition => "Type " ++ definition.text ++ " is already a generic instance"
  | notGenericType definition =>
      "Type " ++ definition.text ++ " is not a generic type definition"
  | typeArgumentCount definition expected got =>
      argumentCountText ("type " ++ definition.text) expected got
  | genericParameterIndex index => "Invalid generic parameter index: " ++ toString index
  | byRefArgument argument => "A generic argument cannot be a by-ref type: " ++ argument.text
  | conventionFlags flags => "Invalid calling convention flags: " ++ flagText flags
  | conventionAny => "Calling convention Any is not valid for a call site signature"
  | explicitThisAlone => "ExplicitThis requires HasThis"
  | unmanagedConvention value => "Invalid unmanaged calling convention: " ++ toString value
  | notVarargSite site => "Not a vararg signature: " ++ site.text
  | optionalSiteRepeated site =>
      "Optional parameters have already been supplied for signature " ++ site.text
  | noFields type => "Cannot look up fields of type " ++ type.text
  | noMembers type => "Cannot look up members of type " ++ type.text
  | fieldMissing name type => "Field " ++ name ++ " not found in type " ++ type.text
  | fieldAmbiguous name type => "Ambiguous field " ++ name ++ " in type " ++ type.text
  | propertyMissing name type => "Property " ++ name ++ " not found in type " ++ type.text
  | eventMissing name type => "Event " ++ name ++ " not found in type " ++ type.text
  | accessorMissing accessor name type =>
      accessor.memberText ++ " " ++ name ++ " of type " ++ type.text ++ " has no " ++
        accessor.text
  | operatorNumber family value =>
      "Invalid " ++ family.text ++ " operator: " ++ toString value
  | conversionKind value => "Invalid conversion operator kind: " ++ toString value
  | conversionDirection value => "Invalid conversion direction: " ++ toString value
  | methodMissing wanted => wanted.text ++ " not found"
  | methodAmbiguous wanted count =>
      wanted.text ++ " is ambiguous between " ++ toString count ++ " overloads"
  | notGenericMethod m => "Method " ++ m.text ++ " is not a generic method definition"
  | alreadyGenericMethod m => "Method " ++ m.text ++ " is already a generic method instance"
  | methodArgumentCount m expected got =>
      argumentCountText ("method " ++ m.text) expected got
  | notVarargMethod m => "Not a vararg method: " ++ m.text
  | optionalMethodRepeated m =>
      "Optional parameters have already been supplied for method " ++ m.text
  | argumentMissing call => "Missing argument before " ++ call.text
  | argumentElsewhere =>
      "An expression used as an argument is not in the same basic block as the call"
  | nullFound expected => "A null value is not allowed here, expected " ++ expected.text
  | unexpected expected found =>
      "Unexpected instruction, expected " ++ expected.text ++ " but found " ++ found.text
  | overflow value opcode => "Constant " ++ value.text ++ " overflows " ++ opcode.mnemonic
  | notInteger value => "Expected an integer constant but found " ++ value.text
  | arrayUninitialized count =>
      "A null value is not allowed here, the " ++ toString count ++
        " elements of the array are not initialized"
  | arrayLength count => "Invalid array length " ++ toString count
  | elementMissing index =>
      "A null value is not allowed here, array element " ++ toString index ++ " is not set"
  | elementIndex index => "Array index " ++ toString index ++ " is out of range"
  | elementRepeated index =>
      "Array element " ++ toString index ++ " is initialized more than once"
  | pinnedTwice => "Local is already pinned"
  | unsafePush =>
      "IL.Push cannot be used here because the value on the evaluation stack may have been " ++
        "spilled by the compiler. Store the value into a local variable first and push that " ++
        "local instead"
  | popWithoutAddress =>
      "IL.Pop requires the address of a local, a parameter or a static field"
  | popOfOther found =>
      "IL.Pop expects the address of a local, a parameter or a static field, but found " ++
        found.text
  | unreachableWithoutThrow => "IL.Unreachable must be followed by a throw instruction"
  | returnWithoutReturn => "IL.Return must be immediately followed by a ret instruction"
  | labelEmpty => "Label name cannot be empty"
  | localsRepeated => "Local variables have already been declared"
  | tooManyLocals => "Too many local variables"
  | localRepeated name => "Local " ++ name ++ " is already defined"
  | localMissing name => "Local " ++ name ++ " is not defined"
  | localIndex index | declaredLocalIndex index =>
      "Local index " ++ toString index ++ " is out of range"
  | parameterMissing name => "Parameter " ++ name ++ " is not defined"
  | valueRange value opcode =>
      "Value " ++ toString value ++ " is out of range for " ++ opcode.mnemonic
  | argumentKind opcode value =>
      "Opcode " ++ opcode.mnemonic ++ " expects an operand of kind " ++ opcode.kind.name ++
        ", but the argument is " ++ value.outline
  | leftover space instruction =>
      "Unconsumed reference to " ++ space ++ ": " ++ instruction.text
  | leftoverLocal space type =>
      "Unconsumed reference to " ++ space ++ ": local of type " ++ type.text
  | reported _ message => message

end Cause

end InlineCil
