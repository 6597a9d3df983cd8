import InlineCil.Symbols

/-!
# Composing types and signatures

New signatures from given ones, under the rules of the type system: nothing
points to, is an array of, or is instantiated with a reference to a storage
location; ranks of arrays are bounded; an instance has as many arguments as its
definition has parameters.

Only an instance of a generic type needs its definition, for the number of its
parameters; so that is the one composition here that looks up symbols, and it
does so before the arguments are checked. The other rules look at the given
signatures only. By-ref types are recognised behind custom modifiers too.

Signatures of indirect calls come from numbers, flags of managed conventions or
the number of an unmanaged one, which are checked bit by bit. Types passed after
the declared ones are added to a signature or a method reference at most once,
and only where the convention has a variable argument list.
-/

namespace InlineCil

namespace TypeSig

/-- The greatest rank of an array. -/
def greatestRank : Int := 32

/-- A pointer to a type. -/
def pointerTo (element : TypeSig) : Except Failure TypeSig :=
  if element.isByRef then .error (.ofCause (.pointerToByRef element))
  else .ok (.pointer element)

/-- A reference to a storage location of a type. -/
def byRefTo (element : TypeSig) : Except Failure TypeSig :=
  if element.isByRef then .error (.ofCause (.byRefOfByRef element))
  else .ok (.byRef element)

/-- An array of a rank. -/
def arrayOf (element : TypeSig) (rank : Int) : Except Failure TypeSig :=
  if element.isByRef then .error (.ofCause (.arrayOfByRef element))
  else if rank < 1 || greatestRank < rank then .error (.ofCause (.arrayRank rank))
  else .ok (.array element rank.toNat)

/-- No generic argument is a reference to a storage location. -/
def checkGenericArguments (arguments : List TypeSig) : Except Failure Unit :=
  match arguments.find? isByRef with
  | some argument => .error (.ofCause (.byRefArgument argument))
  | none => .ok ()

/-- The name of a definition that can be instantiated. -/
def genericDefinition : TypeSig → Except Failure TypeName
  | .named name => .ok name
  | .genericInstance definition arguments =>
      .error (.ofCause (.alreadyInstance (.genericInstance definition arguments)))
  | other => .error (.ofCause (.notGenericType other))

/-- Instantiate a resolved definition. -/
def instantiate (definition : TypeSig) (name : TypeName) (expected : Nat)
    (arguments : List TypeSig) : Except Failure TypeSig := do
  if expected = 0 then throw (.ofCause (.notGenericType definition))
  if arguments.length ≠ expected then
    throw (.ofCause (.typeArgumentCount definition expected arguments.length))
  checkGenericArguments arguments
  return .genericInstance name arguments

/-- An instance of a generic definition, which is looked up for its parameters. -/
def instanceOf (definition : TypeSig) (arguments : List TypeSig) : Resolving TypeSig := do
  let name ← liftExcept (genericDefinition definition)
  let resolved ← Symbols.resolve name
  liftExcept (instantiate definition name resolved.genericParameters.length arguments)

/-- A type by assembly and written name. -/
def ofName (assembly fullName : String) : Resolving TypeSig :=
  if fullName.isEmpty then throw (.ofCause .emptyTypeName)
  else Symbols.findType assembly fullName

/-- A generic parameter by its index. -/
def ofParameterIndex (owner : GenericOwner) (index : Int) : Except Failure TypeSig :=
  if 0 ≤ index && index < 0x100000000 then .ok (.genericParameter owner index.toNat)
  else .error (.ofCause (.genericParameterIndex index))

end TypeSig

namespace CallSite

/-- Bits of the flags of a managed signature: the standard convention, a variable
argument list, an instance, and an instance among the parameters. -/
def knownFlags : BitVec 64 := 0x63

/-- A managed signature from its flags. -/
def ofFlags (flags : Int) (returnType : TypeSig) (parameters : List TypeSig) :
    Except Failure CallSite := do
  let bits := BitVec.ofInt 64 flags
  if bits &&& ~~~knownFlags ≠ 0 then throw (.ofCause (.conventionFlags flags))
  let convention ←
    if bits &&& 3 = 3 then throw (.ofCause .conventionAny)
    else if bits &&& 3 = 2 then pure CallingConvention.vararg
    else pure CallingConvention.standard
  let hasThis := bits &&& 0x20 != 0
  let explicitThis := bits &&& 0x40 != 0
  if explicitThis && !hasThis then throw (.ofCause .explicitThisAlone)
  return { convention, hasThis, explicitThis, returnType, parameters }

/-- An unmanaged signature from the number of its convention. -/
def ofUnmanaged (number : Int) (returnType : TypeSig) (parameters : List TypeSig) :
    Except Failure CallSite := do
  let convention ← match number with
    | 1 => pure CallingConvention.unmanaged
    | 2 => pure CallingConvention.cdecl
    | 3 => pure CallingConvention.stdcall
    | 4 => pure CallingConvention.thiscall
    | 5 => pure CallingConvention.fastcall
    | _ => throw (.ofCause (.unmanagedConvention number))
  return { convention, returnType, parameters }

/-- Add the types passed after the declared ones; only a variable argument list
has them, and only once. -/
def withOptional (s : CallSite) (types : List TypeSig) : Except Failure CallSite :=
  if s.convention ≠ .vararg then .error (.ofCause (.notVarargSite s))
  else if s.optional.isSome then .error (.ofCause (.optionalSiteRepeated s))
  else .ok { s with optional := some types }

end CallSite

namespace MethodRef

/-- An instance of a generic method. -/
def instantiate (m : MethodRef) (arguments : List TypeSig) : Except Failure MethodRef := do
  if m.genericArity = 0 then throw (.ofCause (.notGenericMethod m))
  if !m.genericArguments.isEmpty then throw (.ofCause (.alreadyGenericMethod m))
  if arguments.length ≠ m.genericArity then
    throw (.ofCause (.methodArgumentCount m m.genericArity arguments.length))
  TypeSig.checkGenericArguments arguments
  return { m with genericArguments := arguments }

/-- Add the types passed after the declared ones; only a variable argument list
has them, and only once. -/
def withOptional (m : MethodRef) (types : List TypeSig) : Except Failure MethodRef :=
  if m.convention ≠ .vararg then .error (.ofCause (.notVarargMethod m))
  else if m.optional.isSome then .error (.ofCause (.optionalMethodRepeated m))
  else .ok { m with optional := some types }

end MethodRef

end InlineCil
