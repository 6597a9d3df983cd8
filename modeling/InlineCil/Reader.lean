import InlineCil.Blocks
import InlineCil.Lookup
import InlineCil.Marker

/-!
# Reading arguments

The arguments of a marker call are the instructions right before it, the last
argument nearest to the call. A reader takes them one by one, walking away from
the call, and gives back the value they denote: a constant, a text, an array, a
type or a member. Nested builder calls are read the same way, since their
arguments come right before them.

Every instruction taken has to be in the basic block of the call; else control
could reach the call without passing the argument. A failure is at the place
nearest to what is wrong, and what was taken before it stays taken, in the order
of taking.

A reader that goes on to other readers is a step over them, which takes an
instruction before it goes on. Readers that call themselves repeat their step up
to a bound on the number of instructions ahead. The bound is used up only when
nothing is ahead, and then the argument is missing; so any bound that is large
enough gives the same result.
-/

namespace InlineCil

/-- The call whose arguments are read, with the marker namespace and the blocks
of the body. -/
structure Site where
  space : String
  call : Line
  blocks : Blocks

/-- The lines ahead, the nearest to the call first, and the places already taken,
in the order of taking. -/
structure Reading where
  ahead : List Line
  taken : List Place := []
  symbols : Symbols

/-- A step of reading. What it took stays taken when it fails. -/
abbrev Reader := EStateM Failure Reading

/-- A local variable as it is declared. -/
structure LocalDeclaration where
  name : Option String
  type : TypeSig
  pinned : Bool := false
  deriving Repr

namespace Reader

/-- Nothing is ahead where an argument is needed. -/
def missing (site : Site) : Failure :=
  .causedAt (.argumentMissing site.call.instruction) site.call.place

/-- Take the instruction before what was taken so far. A branch to the
instruction itself now goes to the call, as every reference to what is taken. -/
def take (site : Site) : Reader Line := do
  let state ← get
  match state.ahead with
  | [] => throw (missing site)
  | line :: rest =>
      if site.blocks.sameBlock line.place site.call.place then
        set { state with ahead := rest, taken := state.taken ++ [line.place] }
        return { line with instruction := line.instruction.retarget line.place site.call.place }
      else throw (.causedAt .argumentElsewhere line.place)

/-- Failures of a step that have no place are at the given one. -/
def located (place : Place) (step : Reader α) : Reader α :=
  tryCatch step fun failure => throw (failure.locatedAt place)

/-- An instruction is not what was expected; the null constant has a kind of its
own. -/
def mismatch (line : Line) (expected : Expected) : Failure :=
  if line.instruction.opcode = .ldnull then .causedAt (.nullFound expected) line.place
  else .causedAt (.unexpected expected line.instruction) line.place

/-- The builder that a line calls. -/
def builder (site : Site) (line : Line) (expected : Expected) : Except Failure Builder :=
  match line.instruction.marker? site.space with
  | .error failure => .error (failure.locatedAt line.place)
  | .ok (some (.builder b)) => .ok b
  | .ok _ => .error (mismatch line expected)

/-- A step that looks up symbols. -/
def resolving (step : Resolving α) : Reader α := do
  let state ← get
  match step.run state.symbols with
  | .ok value symbols =>
      set { state with symbols }
      return value
  | .error failure symbols =>
      set { state with symbols }
      throw failure

/-- A constant that an instruction loads. -/
def literal? (i : Instruction) : Option Constant :=
  match i.opcode, i.operand with
  | .ldcI8, .int64 value => some (.int64 value)
  | .ldcR4, .float32 value => some (.float (.ofBinary32 value))
  | .ldcR8, .float64 value => some (.float value)
  | _, _ => i.constant32?.map .int32

/-- A literal, or a conversion of the constant before it. -/
def constantStep (site : Site) (constant : Reader Constant) : Reader Constant := do
  let line ← take site
  match line.instruction.opcode.conversion? with
  | some conversion =>
      let value ← constant
      match conversion.apply value with
      | some result => return result
      | none => throw (.causedAt (.overflow value line.instruction.opcode) line.place)
  | none =>
      match literal? line.instruction with
      | some value => return value
      | none => throw (mismatch line .constant)

/-- A numeric constant with the conversions applied to it. -/
def constant (site : Site) : (bound : Nat) → Reader Constant
  | 0 => throw (missing site)
  | bound + 1 => constantStep site (constant site bound)

/-- A constant that has to be an integer. A floating-point one is refused at the
instruction nearest to the call. -/
def integerStep (constant : Reader Constant) : Reader Int := do
  let nearest := (← get).ahead.head?.map Line.place
  match ← constant with
  | .int32 value => return value.toInt
  | .int64 value => return value.toInt
  | .float value => throw (.weaving (.notInteger value) nearest)

/-- An integer constant. -/
def integer (site : Site) (bound : Nat) : Reader Int := integerStep (constant site bound)

/-- A constant as a floating-point one; integers are widened. -/
def floatStep (constant : Reader Constant) : Reader Binary64 := do
  match ← constant with
  | .int32 value => return .ofInt value.toInt
  | .int64 value => return .ofInt value.toInt
  | .float value => return value

/-- A floating-point constant. -/
def float (site : Site) (bound : Nat) : Reader Binary64 := floatStep (constant site bound)

/-- A text constant. -/
def string (site : Site) : Reader String := do
  let line ← take site
  match line.instruction.opcode, line.instruction.operand with
  | .ldstr, .string value => return value
  | _, _ => throw (mismatch line .string)

/-- Put an element into its slot, which has to exist and to be free. -/
def fill (slots : List (Option α)) (index : Int) (value : α) :
    Except Cause (List (Option α)) :=
  if index < 0 then .error (.elementIndex index)
  else match slots[index.toNat]? with
    | none => .error (.elementIndex index)
    | some (some _) => .error (.elementRepeated index)
    | some none => .ok (slots.set index.toNat (some value))

/-- Put elements into their slots in order. -/
def fillAll (slots : List (Option α)) : List (Int × α) → Except Cause (List (Option α))
  | [] => .ok slots
  | (index, value) :: rest => do fillAll (← fill slots index value) rest

/-- The values of slots, all of which have to be filled. -/
def filled : (index : Nat) → List (Option α) → Except Cause (List α)
  | _, [] => .ok []
  | index, none :: _ => .error (.elementMissing index)
  | index, some value :: rest => return value :: (← filled (index + 1) rest)

/-- The smallest index that no element has. -/
def firstMissing (elements : List (Int × α)) : Nat :=
  ((List.range (elements.length + 1)).find? fun (index : Nat) =>
    !elements.any fun (used, _) => used = (index : Int)).getD elements.length

/-- Free slots for the elements of an array of a length, unless there are too few
of them. -/
def allocated (length : Int) (elements : List (Int × α)) : Except Cause (List (Option α)) := do
  if length < 0 then throw (.arrayLength length)
  if (elements.length : Int) < length then throw (.elementMissing (firstMissing elements))
  return List.replicate length.toNat none

/-- Arrange the elements of an array of a length by their indices. -/
def arranged (length : Int) (elements : List (Int × α)) : Except Cause (List α) := do
  filled 0 (← fillAll (← allocated length elements) elements)

/-- The elements of an array after the store of its last one was taken: a value,
an index and a duplicate of the array, and before them the creation of the array,
or the store of another element and the elements up to that one. Gives the place
of the creation. -/
def elementsStep (site : Site) (element : Reader α) (integer : Reader Int)
    (elements : Reader (Place × List (Int × α))) : Reader (Place × List (Int × α)) := do
  let value ← element
  let index ← integer
  let duplicate ← take site
  if duplicate.instruction.opcode ≠ .dup then throw (mismatch duplicate .element)
  let line ← take site
  if line.instruction.opcode = .newarr then return (line.place, [(index, value)])
  else if line.instruction.opcode.isElementStore then
    let (creation, rest) ← elements
    return (creation, (index, value) :: rest)
  else throw (mismatch line .element)

/-- All elements of an array after the store of its last one was taken. -/
def elements (site : Site) (element : Reader α) (bound : Nat) :
    (rounds : Nat) → Reader (Place × List (Int × α))
  | 0 => throw (missing site)
  | rounds + 1 =>
      elementsStep site element (integer site bound) (elements site element bound rounds)

/-- An array: created and filled element by element, created with length zero, or
the empty one. -/
def arrayStep (site : Site) (elements : Reader (Place × List (Int × α))) (integer : Reader Int) :
    Reader (List α) := do
  let line ← take site
  if line.instruction.opcode = .newarr then
    match ← integer with
    | 0 => return []
    | count => throw (.causedAt (.arrayUninitialized count) line.place)
  else if line.instruction.opcode.isElementStore then
    let (creation, elements) ← elements
    let length ← integer
    match arranged length elements with
    | .ok values => return values
    | .error cause => throw (.causedAt cause creation)
  else
    match ← liftExcept (builder site line .array) with
    | .emptyArray => return []
    | _ => throw (mismatch line .array)

/-- An array whose elements a reader reads. -/
def array (site : Site) (element : Reader α) (bound : Nat) : Reader (List α) :=
  arrayStep site (elements site element bound bound) (integer site bound)

/-- The type of a type token. -/
def typeToken (site : Site) : Reader TypeSig := do
  let line ← take site
  match line.instruction.opcode, line.instruction.operand with
  | .ldtoken, .type sig => return sig
  | _, _ => throw (mismatch line .typeToken)

/-- A type token, or what is composed from reflected types. -/
def reflectedTypeStep (site : Site) (integer : Reader Int) (type : Reader TypeSig)
    (types : Reader (List TypeSig)) : Reader TypeSig := do
  let line ← take site
  located line.place do
    match ← liftExcept (builder site line .type) with
    | .typeToken => typeToken site
    | .pointerReflected =>
        let element ← type
        liftExcept element.pointerTo
    | .byRefReflected =>
        let element ← type
        liftExcept element.byRefTo
    | .arrayReflected =>
        let element ← type
        liftExcept (element.arrayOf 1)
    | .arrayOfRankReflected =>
        let rank ← integer
        let element ← type
        liftExcept (element.arrayOf rank)
    | .genericInstanceReflected =>
        let arguments ← types
        let definition ← type
        resolving (definition.instanceOf arguments)
    | _ => throw (mismatch line .type)

/-- A reflected type: a type token and what is composed from it. -/
def reflectedType (site : Site) : (bound : Nat) → Reader TypeSig
  | 0 => throw (missing site)
  | bound + 1 =>
      reflectedTypeStep site (integer site bound) (reflectedType site bound)
        (array site (reflectedType site bound) bound)

/-- The owner of a generic parameter. -/
def parameterOwner (site : Site) : Reader GenericOwner := do
  let line ← take site
  match ← liftExcept (builder site line .genericParameters) with
  | .genericParametersOfType => return .type
  | .genericParametersOfMethod => return .method
  | _ => throw (mismatch line .genericParameters)

/-- A type by name, by reflection, as a type argument or as a generic parameter,
or what is composed from type references. -/
def typeStep (site : Site) (integer : Reader Int) (reflected type : Reader TypeSig)
    (types : Reader (List TypeSig)) : Reader TypeSig := do
  let line ← take site
  located line.place do
    match ← liftExcept (builder site line .typeReference) with
    | .typeOfReflected => reflected
    | .typeOfName =>
        let name ← string site
        let assembly ← string site
        resolving (TypeSig.ofName assembly name)
    | .typeOfParameter =>
        match line.instruction.method?.bind (·.genericArguments.head?) with
        | some sig => return sig
        | none => throw (mismatch line .typeArgument)
    | .pointer =>
        let element ← type
        liftExcept element.pointerTo
    | .byRef =>
        let element ← type
        liftExcept element.byRefTo
    | .array =>
        let element ← type
        liftExcept (element.arrayOf 1)
    | .arrayOfRank =>
        let rank ← integer
        let element ← type
        liftExcept (element.arrayOf rank)
    | .genericInstance =>
        let arguments ← types
        let definition ← type
        resolving (definition.instanceOf arguments)
    | .modified required =>
        let modifier ← type
        let element ← type
        return .modified required modifier element
    | .genericParameter =>
        let index ← integer
        let owner ← parameterOwner site
        liftExcept (TypeSig.ofParameterIndex owner index)
    | _ => throw (mismatch line .typeReference)

/-- A type reference. -/
def type (site : Site) : (bound : Nat) → Reader TypeSig
  | 0 => throw (missing site)
  | bound + 1 =>
      typeStep site (integer site bound) (reflectedType site bound) (type site bound)
        (array site (type site bound) bound)

/-- An array of type references. -/
def types (site : Site) (bound : Nat) : Reader (List TypeSig) :=
  array site (type site bound) bound

/-- A step that is taken only if a builder has the parameter. -/
def optional (present : Bool) (step : Reader α) : Reader (Option α) :=
  if present then some <$> step else return none

/-- A member that is looked up on a type, or what is made of a method reference. -/
def methodStep (site : Site) (integer : Reader Int) (type : Reader TypeSig)
    (types : Reader (List TypeSig)) (method : Reader MethodRef) : Reader MethodRef := do
  let line ← take site
  located line.place do
    match ← liftExcept (builder site line .methodReference) with
    | .method takesArity takesParameters =>
        let parameters ← optional takesParameters types
        let arity ← optional takesArity integer
        let name ← string site
        let on ← type
        resolving (Lookup.method (.method on name arity parameters))
    | .accessor accessor =>
        let name ← string site
        let on ← type
        resolving (Lookup.accessor on name accessor)
    | .constructor =>
        let parameters ← types
        let on ← type
        resolving (Lookup.method (.constructor on parameters))
    | .typeInitializer =>
        let on ← type
        resolving (Lookup.method (.typeInitializer on))
    | .unaryOperator =>
        let number ← integer
        let on ← type
        resolving (Lookup.unaryOperator on number)
    | .binaryOperator =>
        let right ← type
        let left ← type
        let number ← integer
        let on ← type
        resolving (Lookup.binaryOperator on number left right)
    | .conversionOperator =>
        let other ← type
        let direction ← integer
        let kind ← integer
        let on ← type
        resolving (Lookup.conversionOperator on kind direction other)
    | .genericMethod =>
        let arguments ← types
        let definition ← method
        liftExcept (definition.instantiate arguments)
    | .optionalOfMethod =>
        let parameters ← types
        let declared ← method
        liftExcept (declared.withOptional parameters)
    | _ => throw (mismatch line .methodReference)

/-- A method reference. -/
def method (site : Site) : (bound : Nat) → Reader MethodRef
  | 0 => throw (missing site)
  | bound + 1 =>
      methodStep site (integer site bound) (type site bound) (types site bound)
        (method site bound)

/-- A field that is looked up on a type. -/
def fieldStep (site : Site) (type : Reader TypeSig) : Reader FieldRef := do
  let line ← take site
  located line.place do
    match ← liftExcept (builder site line .fieldReference) with
    | .field =>
        let name ← string site
        let on ← type
        resolving (Lookup.field on name)
    | _ => throw (mismatch line .fieldReference)

/-- A field reference. -/
def field (site : Site) (bound : Nat) : Reader FieldRef := fieldStep site (type site bound)

/-- A signature from its parts, or a signature with optional parameters. -/
def signatureStep (site : Site) (integer : Reader Int) (type : Reader TypeSig)
    (types : Reader (List TypeSig)) (signature : Reader CallSite) : Reader CallSite := do
  let line ← take site
  located line.place do
    match ← liftExcept (builder site line .signature) with
    | .managedSignature =>
        let parameters ← types
        let returnType ← type
        let flags ← integer
        liftExcept (CallSite.ofFlags flags returnType parameters)
    | .unmanagedSignature =>
        let parameters ← types
        let returnType ← type
        let convention ← integer
        liftExcept (CallSite.ofUnmanaged convention returnType parameters)
    | .optionalOfSignature =>
        let parameters ← types
        let declared ← signature
        liftExcept (declared.withOptional parameters)
    | _ => throw (mismatch line .signature)

/-- A call-site signature. -/
def signature (site : Site) : (bound : Nat) → Reader CallSite
  | 0 => throw (missing site)
  | bound + 1 =>
      signatureStep site (integer site bound) (type site bound) (types site bound)
        (signature site bound)

/-- A declaration from a type in either form, or a declaration that is pinned. -/
def localVariableStep (site : Site) (reflected type : Reader TypeSig)
    (localVariable : Reader LocalDeclaration) : Reader LocalDeclaration := do
  let line ← take site
  located line.place do
    match ← liftExcept (builder site line .localVariable) with
    | .localVariable named reflects =>
        let type ← if reflects then reflected else type
        let name ← optional named (string site)
        return { name, type }
    | .pinnedLocal =>
        let declared ← localVariable
        if declared.pinned then throw (.causedAt .pinnedTwice line.place)
        return { declared with pinned := true }
    | _ => throw (mismatch line .localVariable)

/-- The declaration of a local variable. -/
def localVariable (site : Site) : (bound : Nat) → Reader LocalDeclaration
  | 0 => throw (missing site)
  | bound + 1 =>
      localVariableStep site (reflectedType site bound) (type site bound)
        (localVariable site bound)

/-- The argument of an emitting call, by what its parameter is. -/
def argument (site : Site) (bound : Nat) : EmitParameter → Reader Argument
  | .none => return .none
  | .int8 | .uint8 | .int16 | .uint16 | .int32 | .uint32 | .int64 | .uint64 =>
      .integer <$> integer site bound
  | .float32 | .float64 => .float <$> float site bound
  | .string => .string <$> string site
  | .stringArray => .labels <$> array site (string site) bound
  | .typeReference => .type <$> type site bound
  | .methodReference => .method <$> method site bound
  | .fieldReference => .field <$> field site bound
  | .signature => .signature <$> signature site bound

end Reader

end InlineCil
