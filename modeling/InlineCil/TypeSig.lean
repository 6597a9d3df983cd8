/-!
# Type signatures

Names of types and the signatures built from them. A name remembers the assembly
it was bound to, but two names denote the same type when namespace, enclosing
types and simple name agree: a type reached through a forwarder is the type at
its home.

So there are two notions of equality. Equality of values compares the assemblies
too and is what a copy preserves; `TypeSig.same` forgets them, all the way down a
signature, and is what the lookup of members by parameter types uses. Custom
modifiers count in both.

Signatures and lists of signatures are walked by functions that call each other,
one for each of the two, since the arguments of a generic instance are a list. A
type mentions a namespace when any name in it lives there or in a namespace
below; that is how uses of the marker vocabulary are found.
-/

namespace InlineCil

/-- The name of a class or value type. `enclosing` holds the types around a
nested type, the outermost first; `scope` is the assembly the name is bound to. -/
structure TypeName where
  scope : String
  nameSpace : String
  enclosing : List String := []
  name : String
  isValueType : Bool := false
  deriving DecidableEq, Repr

namespace TypeName

/-- The written name: the namespace, a point, and the nesting path with slashes. -/
def fullName (n : TypeName) : String :=
  (if n.nameSpace.isEmpty then "" else n.nameSpace ++ ".") ++
    String.intercalate "/" (n.enclosing ++ [n.name])

/-- The name of a type nested directly in this one. -/
def nested (n : TypeName) (inner : String) (isValueType : Bool) : TypeName :=
  { n with enclosing := n.enclosing ++ [n.name], name := inner, isValueType }

/-- The type lives in a namespace or in one below it. -/
def inNamespace (n : TypeName) (space : String) : Bool :=
  n.nameSpace = space || (space ++ ".").toList.isPrefixOf n.nameSpace.toList

/-- A type that is not nested, by namespace and name. -/
def is (n : TypeName) (space name : String) : Bool :=
  n.enclosing.isEmpty && n.nameSpace = space && n.name = name

/-- Two names denote one type, whatever assemblies they are bound to. -/
def same (a b : TypeName) : Bool :=
  a.nameSpace = b.nameSpace && a.name = b.name && a.enclosing = b.enclosing

end TypeName

/-- Who declares a generic parameter. -/
inductive GenericOwner where
  | type | method
  deriving DecidableEq, Repr

/-- A type signature. An array of rank one is a vector; a generic instance has one
    argument for each parameter of its definition. -/
inductive TypeSig where
  | named (name : TypeName)
  | genericParameter (owner : GenericOwner) (index : Nat)
  | pointer (element : TypeSig)
  | byRef (element : TypeSig)
  | array (element : TypeSig) (rank : Nat)
  | genericInstance (definition : TypeName) (arguments : List TypeSig)
  | modified (required : Bool) (modifier element : TypeSig)
  | pinned (element : TypeSig)
  deriving Repr

namespace TypeSig

/-- The name at the root of a signature: the type itself or the generic
definition. -/
def root? : TypeSig → Option TypeName
  | .named name => some name
  | .genericInstance definition _ => some definition
  | _ => none

/-- A reference to a storage location, custom modifiers looked through. -/
def isByRef : TypeSig → Bool
  | .byRef _ => true
  | .modified _ _ element => element.isByRef
  | _ => false

/-- The type of methods that return nothing. -/
def isVoid : TypeSig → Bool
  | .named name => name.is "System" "Void"
  | _ => false

/-- The type of a pinned local variable. -/
def isPinned : TypeSig → Bool
  | .pinned _ => true
  | _ => false

mutual

/-- A signature in assembler notation. -/
def text : TypeSig → String
  | .named name => name.fullName
  | .genericParameter .type index => "!" ++ toString index
  | .genericParameter .method index => "!!" ++ toString index
  | .pointer element => element.text ++ "*"
  | .byRef element => element.text ++ "&"
  | .array element rank => element.text ++ "[" ++ String.ofList (List.replicate (rank - 1) ',') ++ "]"
  | .genericInstance definition arguments =>
      definition.fullName ++ "<" ++ String.intercalate "," (texts arguments) ++ ">"
  | .modified required modifier element =>
      element.text ++ (if required then " modreq(" else " modopt(") ++ modifier.text ++ ")"
  | .pinned element => element.text ++ " pinned"

/-- The notations of a list of signatures. -/
def texts : List TypeSig → List String
  | [] => []
  | sig :: rest => sig.text :: texts rest

end

/-- A list of signatures with commas between them. -/
def listText (sigs : List TypeSig) : String := String.intercalate "," (texts sigs)

mutual

/-- Some type in the signature lives in the namespace. -/
def references (space : String) : TypeSig → Bool
  | .named name => name.inNamespace space
  | .genericParameter .. => false
  | .pointer element | .byRef element | .array element _ | .pinned element =>
      element.references space
  | .genericInstance definition arguments =>
      definition.inNamespace space || anyReferences space arguments
  | .modified _ modifier element => modifier.references space || element.references space

/-- Some type in some signature of the list lives in the namespace. -/
def anyReferences (space : String) : List TypeSig → Bool
  | [] => false
  | sig :: rest => sig.references space || anyReferences space rest

end

mutual

/-- Two signatures denote one type: they have the same shape over the same names. -/
def same : TypeSig → TypeSig → Bool
  | .named a, .named b => a.same b
  | .genericParameter o i, .genericParameter p j => o = p && i = j
  | .pointer a, .pointer b => a.same b
  | .byRef a, .byRef b => a.same b
  | .array a r, .array b s => a.same b && r = s
  | .genericInstance d as, .genericInstance e bs => d.same e && allSame as bs
  | .modified r m a, .modified s n b => r = s && m.same n && a.same b
  | .pinned a, .pinned b => a.same b
  | _, _ => false

/-- Two lists of signatures agree position by position. -/
def allSame : List TypeSig → List TypeSig → Bool
  | [], [] => true
  | a :: as, b :: bs => a.same b && allSame as bs
  | _, _ => false

end

end TypeSig

end InlineCil
