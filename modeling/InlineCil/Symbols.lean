import InlineCil.ModuleCache
import InlineCil.Text.Blank

/-!
# Symbols

The modules that code may refer to: the one being woven, its core library, and
those that were registered or are found on the search paths. A type is found by
assembly and name; if its module says that it has moved, the search goes on
there. Every type found is kept.

What is kept is the answer for an assembly and a written name, and a later
question for the same two is answered from it even when modules were registered
in between. Only answers that name a type are kept: a type that was not found may
be found later. The number of modules that one search goes through is bounded,
since records of moves may lead in a circle.

Assemblies are compared without regard to capitals, and only the simple name at
the beginning of a display name counts when a module is looked for. Types of the
core library need no definition; one that cannot be found is made up from its
name.
-/

namespace InlineCil

/-- Modules by the lowered names of their assemblies, and the types found so far
by lowered assembly and written name. -/
structure Symbols where
  current : String
  coreLibrary : String
  modules : List (String × Module) := []
  types : List ((String × String) × BoundType) := []
  searchPaths : List String := []
  loader : Option ModuleCache := none

/-- Steps that may load modules and remember types, also when they fail. -/
abbrev Resolving := EStateM Failure Symbols

namespace Symbols

/-- Value types of the core library, for which no definition is needed. -/
def coreValueTypes : List String :=
  ["Void", "Boolean", "Char", "SByte", "Byte", "Int16", "UInt16", "Int32", "UInt32", "Int64",
   "UInt64", "Single", "Double", "IntPtr", "UIntPtr", "TypedReference", "RuntimeTypeHandle",
   "RuntimeMethodHandle", "RuntimeFieldHandle", "Decimal"]

/-- How many modules a type is looked for in. -/
def forwardingLimit : Nat := 16

/-- Register a module under its assembly; it replaces an earlier one. -/
def add (s : Symbols) (module : Module) : Symbols :=
  { s with modules := (Text.lowered module.assembly, module) :: s.modules }

/-- Symbols for weaving a module. -/
def ofCurrent (module : Module) (coreLibrary : String) : Symbols :=
  { current := module.assembly, coreLibrary : Symbols }.add module

/-- The module registered for an assembly. -/
def registered? (s : Symbols) (assembly : String) : Option Module :=
  s.modules.lookup (Text.lowered assembly)

/-- The module being woven. -/
def currentModule (s : Symbols) : Except Failure Module :=
  match s.registered? s.current with
  | some module => .ok module
  | none => .error (.ofFault (.unregistered s.current))

/-- How often the reader of modules has run. -/
def reads (s : Symbols) : Nat :=
  match s.loader with
  | some cache => cache.reads
  | none => 0

/-- Load the module at a path and register it. -/
def loadModule (path : String) : Resolving Module := do
  let s ← get
  match s.loader with
  | none => throw (.settings .noReader)
  | some cache =>
      let (result, cache) := cache.load path
      set { s with loader := some cache }
      match result with
      | .error failure => throw failure
      | .ok module =>
          modify (·.add module)
          return module

/-- The files that may hold the module of an assembly, in the order of
preference. -/
def candidates (s : Symbols) (simpleName : String) : List String :=
  s.searchPaths.flatMap fun directory =>
    ["dll", "exe"].map fun ending => FileTree.join directory (simpleName ++ "." ++ ending)

/-- The first candidate that is a file, if modules can be loaded. -/
def candidate? (s : Symbols) (simpleName : String) : Option String :=
  match s.loader with
  | none => none
  | some cache => (s.candidates simpleName).find? cache.tree.isFile

/-- The simple name at the beginning of a display name. -/
def simpleName (assembly : String) : String :=
  String.ofList (Text.trimmedList (Text.firstSegment (· = ',') assembly.toList))

/-- The module of an assembly, loaded from the search paths if it is not
registered. -/
def module (assembly : String) : Resolving Module := do
  let s ← get
  let simple := simpleName assembly
  match s.registered? simple with
  | some module => return module
  | none =>
      match s.candidate? simple with
      | some path => loadModule path
      | none => throw (.ofCause (.assemblyUnresolved simple))

/-- The failure to find an assembly, as told of the type that is looked for. -/
def toldOfType (type assembly : String) : Failure → Failure
  | failure =>
      if failure.kind? = some .notFound then .ofCause (.typeWithoutAssembly type assembly)
      else failure

/-- Look for a type, following its moves from module to module. -/
def search (type : String) : Nat → (assembly : String) → Resolving BoundType
  | 0, _ => throw (.ofCause (.forwardingTooLong type))
  | steps + 1, assembly => do
      let module ← tryCatch (module assembly) fun failure =>
        throw (toldOfType type assembly failure)
      match module.findType type with
      | some found => return found
      | none =>
          match module.forwardedTo type with
          | some target => search type steps target
          | none => throw (.ofCause (.typeMissing type module.assembly))

/-- Look up a type by assembly and written name; what was found once is not
looked for again. -/
def lookup (assembly fullName : String) : Resolving BoundType := do
  let type := Text.exchanged '+' '/' fullName
  let key := (Text.lowered assembly, type)
  match (← get).types.lookup key with
  | some found => return found
  | none =>
      let found ← search type forwardingLimit assembly
      modify fun s => { s with types := (key, found) :: s.types }
      return found

/-- The type of a name in an assembly. -/
def findType (assembly fullName : String) : Resolving TypeSig :=
  return .named (← lookup assembly fullName).name

/-- The definition behind a bound name. -/
def resolve (name : TypeName) : Resolving TypeDef :=
  return (← lookup name.scope name.fullName).definition

/-- A core type without a definition. -/
def undefinedCoreType (s : Symbols) (nameSpace name : String) : TypeSig :=
  .named
    { scope := s.coreLibrary, nameSpace, name,
      isValueType := nameSpace = "System" && coreValueTypes.contains name }

/-- A type of the core library. No definition is needed. -/
def coreType (nameSpace name : String) : Resolving TypeSig := do
  let s ← get
  tryCatch (findType s.coreLibrary (nameSpace ++ "." ++ name)) fun _ =>
    return s.undefinedCoreType nameSpace name

end Symbols

end InlineCil
