import InlineCil.Proofs.Steps

/-!
# Members that answer a request

Members are asked for by what they are, have or take. Which members of a type
satisfy a request is said here without regard to how they are looked up; a lookup
gives the only one, or says that there is none or that there are several.

Requests are data, and `MemberRequest.candidates` lists the members of a type
that answer one. `OneMatch` is what a lookup among candidates has to come to. It
has a part for each number of candidates, and names the kind of the failure
without its text, so texts may change.

Lookups of methods all come down to `Wanted`, a description of the method that is
wanted, and there is one lemma of the form `wants_…` for each request that does.
Fields and accessors have rules of their own. An accessor is taken of the first
property or event of the name: where only one has the name this is a lookup among
candidates like the others, and where several have it the others are never asked.

Types are compared by what they denote. `TypeSig.Same` says so through a normal
form instead of a comparison, so it is an equivalence at a glance.
-/

namespace InlineCil

/-- A name without what does not matter to the type it denotes. -/
def TypeName.unbound (n : TypeName) : TypeName := { n with scope := "", isValueType := false }

/-- Two names denote one type if they agree in all that matters to it. The scope
does not, and neither does the flag of value types. -/
theorem TypeName.same_iff (a b : TypeName) : a.same b = true ↔ a.unbound = b.unbound := by
  simp [same, unbound, and_assoc, and_comm]

namespace TypeSig

mutual

/-- A signature over names without what does not matter. -/
def unbound : TypeSig → TypeSig
  | .named name => .named name.unbound
  | .genericParameter owner index => .genericParameter owner index
  | .pointer element => .pointer element.unbound
  | .byRef element => .byRef element.unbound
  | .array element rank => .array element.unbound rank
  | .genericInstance definition arguments =>
      .genericInstance definition.unbound (unboundAll arguments)
  | .modified required modifier element => .modified required modifier.unbound element.unbound
  | .pinned element => .pinned element.unbound

def unboundAll : List TypeSig → List TypeSig
  | [] => []
  | sig :: rest => sig.unbound :: unboundAll rest

end

mutual

/-- Signatures are the same if they agree without what does not matter, by
recursion along both of them. -/
theorem same_iff : (a b : TypeSig) → (a.same b = true ↔ a.unbound = b.unbound)
  | .named a, b => by cases b <;> simp [same, unbound, TypeName.same_iff]
  | .genericParameter _ _, b => by cases b <;> simp [same, unbound]
  | .pointer a, b => by cases b <;> simp [same, unbound, same_iff a]
  | .byRef a, b => by cases b <;> simp [same, unbound, same_iff a]
  | .array a _, b => by cases b <;> simp [same, unbound, same_iff a]
  | .genericInstance _ arguments, b => by
      cases b <;> simp [same, unbound, TypeName.same_iff, allSame_iff arguments]
  | .modified _ modifier a, b => by
      cases b <;> simp [same, unbound, same_iff modifier, same_iff a, and_assoc]
  | .pinned a, b => by cases b <;> simp [same, unbound, same_iff a]

/-- Lists of signatures are the same if they agree item by item, and are equally
long then. -/
theorem allSame_iff : (as bs : List TypeSig) →
    (allSame as bs = true ↔ unboundAll as = unboundAll bs)
  | [], bs => by cases bs <;> simp [allSame, unboundAll]
  | a :: as, bs => by cases bs <;> simp [allSame, unboundAll, same_iff a, allSame_iff as]

end

/-- Two signatures denote one type. -/
def Same (a b : TypeSig) : Prop := a.unbound = b.unbound

/-- Two lists of signatures denote the same types. -/
def AllSame (as bs : List TypeSig) : Prop := unboundAll as = unboundAll bs

instance (a b : TypeSig) : Decidable (a.Same b) := decidable_of_iff _ (same_iff a b)

instance (as bs : List TypeSig) : Decidable (AllSame as bs) :=
  decidable_of_iff _ (allSame_iff as bs)

end TypeSig

/-- What members are asked for by. Operators go by number, conversions by kind
and direction. -/
inductive MemberRequest where
  | method (name : String) (arity : Option Int) (parameters : Option (List TypeSig))
  | constructor (parameters : List TypeSig)
  | typeInitializer
  | unaryOperator (number : Int)
  | binaryOperator (number : Int) (left right : TypeSig)
  | conversion (kind direction : Int) (other : TypeSig)
  | accessor (name : String) (role : Accessor)
  | field (name : String)

/-- A method or a field of a type. -/
inductive Member where
  | method (m : MethodDef)
  | field (f : FieldDef)

/-- A reference to either. -/
inductive MemberRef where
  | method (m : MethodRef)
  | field (f : FieldRef)

/-- The reference to a member through a declaring type: that type and the name,
with the whole signature of a method and the type of a field. A method of the
instance takes an implicit first argument; no generic argument is given and no
optional parameter is passed. -/
def Member.reference (on : TypeSig) : Member → MemberRef
  | .method m => .method {
      declaringType := on
      name := m.name
      hasThis := !m.isStatic
      explicitThis := false
      convention := m.convention
      returnType := m.returnType
      parameters := m.parameters.map (·.type)
      genericArity := m.genericParameters.length
      genericArguments := []
      optional := none }
  | .field f => .field {
      declaringType := on
      name := f.name
      fieldType := f.type
      isStatic := f.isStatic }

namespace TypeDef

/-- The accessors of a kind on the properties or events of a name, where each has
one or not. -/
def slots (type : TypeDef) (name : String) (accessor : Accessor) : List (Option MethodDef) :=
  if accessor.ofProperty then
    (type.properties.filter (·.name = name)).map (Lookup.propertyAccessor · accessor)
  else (type.events.filter (·.name = name)).map (Lookup.eventAccessor · accessor)

end TypeDef

namespace Wanted

/-- The names of the operators of a family. -/
def operators : OperatorFamily → List String
  | .unary => unaryOperators
  | .binary => binaryOperators

end Wanted

namespace MemberRequest

/-- Operators are numbered from zero on; there are two kinds and two directions
of conversions. -/
def Valid : MemberRequest → Prop
  | .unaryOperator number => 0 ≤ number ∧ number < (Wanted.operators .unary).length
  | .binaryOperator number _ _ => 0 ≤ number ∧ number < (Wanted.operators .binary).length
  | .conversion kind direction _ => (kind = 0 ∨ kind = 1) ∧ (direction = 0 ∨ direction = 1)
  | _ => True

/-- A method of a type answers the request. -/
def IsMetBy (on : TypeSig) (m : MethodDef) : MemberRequest → Prop
  | .method name arity parameters =>
      m.name = name ∧ (∀ count ∈ arity, (m.genericParameters.length : Int) = count) ∧
        ∀ types ∈ parameters, TypeSig.AllSame m.parameterTypes types
  | .constructor parameters =>
      m.name = ".ctor" ∧ m.isStatic = false ∧ TypeSig.AllSame m.parameterTypes parameters
  | .typeInitializer => m.name = ".cctor" ∧ m.isStatic = true
  | .unaryOperator number =>
      (Wanted.operators .unary)[number.toNat]? = some m.name ∧ m.isStatic = true ∧
        m.parameters.length = 1
  | .binaryOperator number left right =>
      (Wanted.operators .binary)[number.toNat]? = some m.name ∧ m.isStatic = true ∧
        TypeSig.AllSame m.parameterTypes [left, right]
  | .conversion kind direction other =>
      m.name = (if kind = 0 then "op_Implicit" else "op_Explicit") ∧ m.isStatic = true ∧
        TypeSig.AllSame m.parameterTypes [if direction = 0 then other else on] ∧
        m.returnType.Same (if direction = 0 then on else other)
  | .accessor .. | .field _ => False

instance (on : TypeSig) (m : MethodDef) : (r : MemberRequest) → Decidable (r.IsMetBy on m)
  | .method .. => inferInstanceAs (Decidable (_ ∧ (∀ _ ∈ _, _) ∧ ∀ _ ∈ _, _))
  | .constructor _ | .unaryOperator _ | .binaryOperator .. =>
      inferInstanceAs (Decidable (_ ∧ _ ∧ _))
  | .typeInitializer => inferInstanceAs (Decidable (_ ∧ _))
  | .conversion .. => inferInstanceAs (Decidable (_ ∧ _ ∧ _ ∧ _))
  | .accessor .. | .field _ => inferInstanceAs (Decidable False)

/-- The members of a type that answer a request. -/
def candidates (on : TypeSig) (type : TypeDef) : MemberRequest → List Member
  | .accessor name role => ((type.slots name role).filterMap id).map .method
  | .field name => (type.fields.filter (·.name = name)).map .field
  | r => (type.methods.filter fun m => r.IsMetBy on m).map .method

/-- At most one property or event has the name, if an accessor is asked for. -/
def Unrepeated (type : TypeDef) : MemberRequest → Prop
  | .accessor name role => (type.slots name role).length ≤ 1
  | _ => True

/-- Looking a member up. -/
def lookup (on : TypeSig) : MemberRequest → Resolving MemberRef
  | .method name arity parameters =>
      .method <$> Lookup.method (.method on name arity parameters)
  | .constructor parameters => .method <$> Lookup.method (.constructor on parameters)
  | .typeInitializer => .method <$> Lookup.method (.typeInitializer on)
  | .unaryOperator number => .method <$> Lookup.unaryOperator on number
  | .binaryOperator number left right => .method <$> Lookup.binaryOperator on number left right
  | .conversion kind direction other =>
      .method <$> Lookup.conversionOperator on kind direction other
  | .accessor name role => .method <$> Lookup.accessor on name role
  | .field name => .field <$> Lookup.field on name

end MemberRequest

/-- A lookup among candidates gives a reference to the only one, and fails if
there is none or if there are several. Success is possible in no other way, so
the candidate is determined by it. -/
structure OneMatch (on : TypeSig) (candidates : List Member)
    (result : EStateM.Result Failure Symbols MemberRef) (left : Symbols) : Prop where
  found : ∀ m, candidates = [m] → result = .ok (m.reference on) left
  only : ∀ ref final, result = .ok ref final → ∃ m, candidates = [m] ∧ ref = m.reference on
  missing : candidates = [] →
    ∃ failure, result = .error failure left ∧ failure.kind? = some .notFound
  ambiguous : 2 ≤ candidates.length →
    ∃ failure, result = .error failure left ∧ failure.kind? = some .ambiguous

/-- What a rule that takes the only one of some members comes to. -/
def choose (on : TypeSig) (none several : Cause) : List Member → Except Failure MemberRef
  | [] => .error (.ofCause none)
  | [m] => .ok (m.reference on)
  | _ => .error (.ofCause several)

namespace OneMatch

variable {on : TypeSig} {members : List Member} {left : Symbols}

/-- Taking the only one of some members is a lookup among them, provided that the
causes it fails with are of the right kinds. -/
theorem of_choose {none several : Cause} (missing : none.kind = .notFound)
    (ambiguous : 2 ≤ members.length → several.kind = .ambiguous) :
    OneMatch on members
      ((liftExcept (choose on none several members) : Resolving MemberRef).run left) left := by
  match members with
  | [] => exact ⟨by simp, by simp [choose], fun _ => ⟨_, rfl, congrArg some missing⟩, by simp⟩
  | [m] => exact ⟨by simp [choose], by simp [choose, eq_comm], by simp, by simp⟩
  | _ :: _ :: _ =>
    exact ⟨by simp, by simp [choose], by simp, fun many =>
      ⟨_, rfl, congrArg some (ambiguous many)⟩⟩

end OneMatch

/-- A step that comes to what a rule says still does when both results are
changed. -/
theorem Steps.run_map_of_rule {α β : Type} {step : Resolving α} {rule : Except Failure α}
    {symbols left : Symbols} (change : α → β)
    (ran : step.run symbols = (liftExcept rule : Resolving α).run left) :
    (change <$> step).run symbols = (liftExcept (change <$> rule) : Resolving β).run left := by
  rw [Steps.run_map, ran]
  cases rule <;> rfl

namespace Wanted

/-- The rule for methods takes the only one of those that match. In `choose` the
cases of none, one and several are told for all kinds of members at once. -/
theorem single_eq_choose (w : Wanted) (type : TypeDef) :
    MemberRef.method <$> w.single type =
      choose w.on (.methodMissing w)
        (.methodAmbiguous w (type.methods.filter w.isMetBy).length)
        ((type.methods.filter w.isMetBy).map .method) := by
  unfold single
  match type.methods.filter w.isMetBy with
  | [] => rfl
  | [_] => rfl
  | _ :: _ :: _ => rfl

/-- A number below the number of operators has a name, and it is the one at this
position of the table of its family. -/
theorem operatorName_ok (family : OperatorFamily) {number : Int}
    (valid : 0 ≤ number ∧ number < (operators family).length) :
    ∃ name, (operators family)[number.toNat]? = some name ∧
      operatorName family number = .ok name := by
  have inside : number.toNat < (operators family).length := by omega
  have entry := List.getElem?_eq_getElem inside
  refine ⟨_, entry, ?_⟩
  cases family <;>
    simp only [operatorName, if_neg (Int.not_lt.2 valid.1)] <;>
    simp only [operators] at entry ⊢ <;> rw [entry]

end Wanted

namespace MemberRequest

/-- A request comes down to looking for a method that matches. There is one lemma
for each kind of request for a method; operators and conversions are named by
their numbers. -/
structure Wants (on : TypeSig) (request : MemberRequest) (w : Wanted) : Prop where
  declared : w.on = on
  met : ∀ m, w.isMetBy m = true ↔ request.IsMetBy on m
  looks : request.lookup on = .method <$> Lookup.method w

variable {on : TypeSig}

/-- A method is asked for by its name, and by its generic arity and its
parameters where these are given. -/
theorem wants_method (name : String) (arity : Option Int) (parameters : Option (List TypeSig)) :
    Wants on (.method name arity parameters) (.method on name arity parameters) where
  declared := rfl
  met m := by
    cases arity <;> cases parameters <;>
      simp [Wanted.isMetBy, IsMetBy, TypeSig.AllSame, TypeSig.allSame_iff, and_assoc]
  looks := rfl

/-- A constructor is a method of a fixed name that belongs to the instance. -/
theorem wants_constructor (parameters : List TypeSig) :
    Wants on (.constructor parameters) (.constructor on parameters) where
  declared := rfl
  met m := by simp [Wanted.isMetBy, IsMetBy, TypeSig.AllSame, TypeSig.allSame_iff, and_assoc]
  looks := rfl

/-- A type initializer is a static method of a fixed name. Its parameters are not
asked for. -/
theorem wants_typeInitializer : Wants on .typeInitializer (.typeInitializer on) where
  declared := rfl
  met m := by simp [Wanted.isMetBy, IsMetBy]
  looks := rfl

/-- A unary operator is a static method with one parameter and the name of its
number. What type the parameter has is not looked at. -/
theorem wants_unaryOperator {number : Int} (valid : (MemberRequest.unaryOperator number).Valid) :
    ∃ name, Wants on (.unaryOperator number) (.unaryOperator on name) := by
  obtain ⟨name, entry, named⟩ := Wanted.operatorName_ok .unary valid
  refine ⟨name, rfl, fun m => ?_, ?_⟩
  · simp [Wanted.isMetBy, IsMetBy, entry, and_assoc, eq_comm (a := name)]
  · simp only [lookup, Lookup.unaryOperator, named]
    rfl

/-- A binary operator is a static method with two given parameters and the name
of its number. -/
theorem wants_binaryOperator {number : Int} {first second : TypeSig}
    (valid : (MemberRequest.binaryOperator number first second).Valid) :
    ∃ name,
      Wants on (.binaryOperator number first second) (.binaryOperator on name first second) := by
  obtain ⟨name, entry, named⟩ := Wanted.operatorName_ok .binary valid
  refine ⟨name, rfl, fun m => ?_, ?_⟩
  · simp [Wanted.isMetBy, IsMetBy, TypeSig.AllSame, TypeSig.allSame_iff, entry, and_assoc,
      eq_comm (a := name)]
  · simp only [lookup, Lookup.binaryOperator, named]
    rfl

/-- A conversion is a static method that takes one type and returns the other. The
direction says which of the two declares it. -/
theorem wants_conversion {kind direction : Int} {other : TypeSig}
    (valid : (MemberRequest.conversion kind direction other).Valid) :
    ∃ name source target,
      Wants on (.conversion kind direction other) (.conversion on name source target) := by
  obtain ⟨rfl | rfl, rfl | rfl⟩ := valid <;>
    exact ⟨_, _, _, rfl, fun m => by
      simp [Wanted.isMetBy, IsMetBy, TypeSig.AllSame, TypeSig.allSame_iff, TypeSig.Same,
        TypeSig.same_iff, and_assoc], rfl⟩

/-- Looking for a method gives the only one that answers. Any request that comes
down to a wanted method has this from the rule for methods. -/
theorem Wants.gives_only {request : MemberRequest} {w : Wanted} {type : TypeDef}
    {symbols left : Symbols} (wants : request.Wants on w)
    (found : (Lookup.definition on).run symbols = .ok type left) :
    OneMatch on ((type.methods.filter fun m => request.IsMetBy on m).map .method)
      ((request.lookup on).run symbols) left := by
  have same : type.methods.filter w.isMetBy = type.methods.filter fun m => request.IsMetBy on m :=
    List.filter_congr fun m _ => Bool.eq_iff_iff.2 ((wants.met m).trans decide_eq_true_iff.symm)
  have ran : (Lookup.method w).run symbols =
      (liftExcept (w.single type) : Resolving MethodRef).run left := by
    simp only [Lookup.method, Steps.run_bind, wants.declared, found]
  rw [wants.looks, Steps.run_map_of_rule _ ran, Wanted.single_eq_choose, same, wants.declared]
  exact OneMatch.of_choose rfl fun _ => rfl

end MemberRequest

namespace Lookup

variable {on : TypeSig} {type : TypeDef} {symbols left : Symbols}

/-- An accessor is taken of the first property or event of the name, as if it
were the only one. So it fails in one way only, as missing. -/
theorem accessorOf_eq_choose (on : TypeSig) (type : TypeDef) (name : String) (role : Accessor) :
    ∃ missing, missing.kind = .notFound ∧ MemberRef.method <$> accessorOf type on name role =
      choose on missing missing (((type.slots name role).head?.bind id).toList.map .method) := by
  unfold accessorOf TypeDef.slots
  cases role.ofProperty with
  | true =>
    simp only [if_true, List.head?_map, List.head?_filter]
    cases type.properties.find? (·.name = name) with
    | none => exact ⟨.propertyMissing name on, rfl, rfl⟩
    | some property =>
      refine ⟨.accessorMissing role name on, rfl, ?_⟩
      cases taken : propertyAccessor property role <;> simp [taken] <;> rfl
  | false =>
    simp only [Bool.false_eq_true, if_false, List.head?_map, List.head?_filter]
    cases type.events.find? (·.name = name) with
    | none => exact ⟨.eventMissing name on, rfl, rfl⟩
    | some event =>
      refine ⟨.accessorMissing role name on, rfl, ?_⟩
      cases taken : eventAccessor event role <;> simp [taken] <;> rfl

/-- The definition behind a type is the same for fields as for methods, and what
is left to do is the rule for fields. -/
theorem field_run (name : String) (found : (definition on).run symbols = .ok type left) :
    (field on name).run symbols =
      (liftExcept (fieldOf type on name) : Resolving FieldRef).run left := by
  unfold definition at found
  unfold field
  cases named : on.root? with
  | none => simp [named] at found
  | some typeName =>
    rw [named] at found
    simp only [Steps.run_bind, found]

/-- The rule for fields takes the only one of the name. Nothing else of a field
is compared, so its type is told and never asked for. -/
theorem fieldOf_eq_choose (name : String) :
    MemberRef.field <$> fieldOf type on name =
      choose on (.fieldMissing name on) (.fieldAmbiguous name on)
        ((type.fields.filter (·.name = name)).map .field) := by
  unfold fieldOf
  generalize type.fields.filter (·.name = name) = named
  match named with
  | [] => rfl
  | [_] => rfl
  | _ :: _ :: _ => rfl

end Lookup

/-- Where a type is found, looking up a member of it gives a reference to the
only member that answers the request, and fails as not found if none does and as
ambiguous if several do, unless an accessor is asked for and several properties
or events have the name. Then the first of them alone decides.

The definition of the type is given by the hypothesis; everything after it is
decided by the members of the type alone. -/
theorem MemberRequest.one_match {on : TypeSig} {request : MemberRequest} {type : TypeDef}
    {symbols left : Symbols} (valid : request.Valid)
    (found : (Lookup.definition on).run symbols = .ok type left) :
    (request.Unrepeated type →
      OneMatch on (request.candidates on type) ((request.lookup on).run symbols) left) ∧
    ∀ name role, request = .accessor name role →
      OneMatch on (((type.slots name role).head?.bind id).toList.map .method)
        ((request.lookup on).run symbols) left := by
  -- One case per kind of request: six come down to methods that match.
  cases request with
  | method name arity parameters =>
    exact ⟨fun _ => (wants_method name arity parameters).gives_only found, nofun⟩
  | constructor parameters =>
    exact ⟨fun _ => (wants_constructor parameters).gives_only found, nofun⟩
  | typeInitializer => exact ⟨fun _ => wants_typeInitializer.gives_only found, nofun⟩
  | unaryOperator number =>
    obtain ⟨name, wants⟩ := wants_unaryOperator valid
    exact ⟨fun _ => wants.gives_only found, nofun⟩
  | binaryOperator number first second =>
    obtain ⟨name, wants⟩ := wants_binaryOperator valid
    exact ⟨fun _ => wants.gives_only found, nofun⟩
  | conversion kind direction other =>
    obtain ⟨name, source, target, wants⟩ := wants_conversion valid
    exact ⟨fun _ => wants.gives_only found, nofun⟩
  | accessor name role =>
    have first : OneMatch on (((type.slots name role).head?.bind id).toList.map .method)
        ((MemberRequest.lookup on (.accessor name role)).run symbols) left := by
      obtain ⟨missing, none, rule⟩ := Lookup.accessorOf_eq_choose on type name role
      have ran : (Lookup.accessor on name role).run symbols =
          (liftExcept (Lookup.accessorOf type on name role) : Resolving MethodRef).run left := by
        simp only [Lookup.accessor, Steps.run_bind, found]
      rw [lookup, Steps.run_map_of_rule _ ran, rule]
      generalize (type.slots name role).head?.bind id = taken
      refine OneMatch.of_choose none fun many => ?_
      cases taken <;> simp at many
    refine ⟨fun unrepeated => ?_, fun _ _ same => by cases same; exact first⟩
    -- With at most one slot, what the first has is what all have.
    have all : (type.slots name role).filterMap id =
        ((type.slots name role).head?.bind id).toList := by
      match slots : type.slots name role with
      | [] => rfl
      | [slot] => cases slot <;> rfl
      | _ :: _ :: _ => simp [Unrepeated, slots] at unrepeated
    rw [candidates, all]
    exact first
  | field name =>
    refine ⟨fun _ => ?_, nofun⟩
    rw [lookup, Steps.run_map_of_rule _ (Lookup.field_run name found), Lookup.fieldOf_eq_choose]
    exact OneMatch.of_choose rfl fun _ => rfl

namespace Indexer

/-- An accessor of an indexer of a table. -/
def accessor (name : String) (returned : TypeSig) (parameters : List TypeSig) : MethodDef where
  name := name
  returnType := returned
  parameters := parameters.map (⟨"", ·⟩)

/-- A type of the core library. -/
def core (name : String) (isValueType : Bool) : TypeSig :=
  .named { scope := "System.Private.CoreLib", nameSpace := "System", name, isValueType }

/-- What reads an entry by its name. -/
def getter : MethodDef := accessor "get_Item" (core "Int32" true) [core "String" false]

/-- What writes an entry at a position. -/
def setter : MethodDef :=
  accessor "set_Item" (core "Void" true) [core "Int32" true, core "Int32" true]

/-- A table with an indexer that is only written and one that is only read, both
of one name. -/
def table : TypeDef :=
  let written : TypeDef :=
    ({ nameSpace := "Lib", name := "Table" } : TypeDef).withProperty "Item" none (some setter)
  written.withProperty "Item" (some getter) none

/-- The signature of the table. -/
def tableType : TypeSig := .named { scope := "Lib", nameSpace := "Lib", name := "Table" }

/-- A module with the table. -/
def symbols : Symbols :=
  .ofCurrent { name := "Lib.dll", assembly := "Lib", types := [table] } "System.Private.CoreLib"

end Indexer

open Indexer in
/-- The accessor methods of the table are found by their names, and the setter by
its property. -/
theorem MemberRequest.one_match_table :
    ∃ left, (Lookup.definition tableType).run symbols = .ok table left ∧
      OneMatch tableType [.method getter.asAccessor]
        ((MemberRequest.lookup tableType (.method "get_Item" none none)).run symbols) left ∧
      OneMatch tableType [.method setter.asAccessor]
        ((MemberRequest.lookup tableType (.accessor "Item" .set)).run symbols) left := by
  obtain ⟨left, found⟩ : ∃ left, (Lookup.definition tableType).run symbols = .ok table left :=
    ⟨_, rfl⟩
  have byName : MemberRequest.Valid (.method "get_Item" none none) := trivial
  have byProperty : MemberRequest.Valid (.accessor "Item" .set) := trivial
  exact ⟨left, found, (MemberRequest.one_match byName found).1 trivial,
    (MemberRequest.one_match byProperty found).2 _ _ rfl⟩

open Indexer in
/-- Of the two indexers only one has a getter, but it is not found: the first one
of the name is the one without it. -/
theorem MemberRequest.not_one_match_table :
    ∃ left, MemberRequest.Valid (.accessor "Item" .get) ∧
      (Lookup.definition tableType).run symbols = .ok table left ∧
      MemberRequest.candidates tableType table (.accessor "Item" .get) =
        [.method getter.asAccessor] ∧
      (MemberRequest.lookup tableType (.accessor "Item" .get)).run symbols =
        .error (.ofCause (.accessorMissing .get "Item" tableType)) left ∧
      ¬ OneMatch tableType (MemberRequest.candidates tableType table (.accessor "Item" .get))
        ((MemberRequest.lookup tableType (.accessor "Item" .get)).run symbols) left := by
  refine ⟨_, trivial, rfl, rfl, rfl, fun only => ?_⟩
  cases only.found (.method getter.asAccessor) rfl

end InlineCil
