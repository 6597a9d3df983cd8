import InlineCil.Proofs.Composition

/-!
# Reading composes well

An expression composes types in an order of its own, and definitions are looked
up on the way. What it has found it keeps, so by induction on the expression
everything that it composes obeys the rules if the types that its instructions
name do. Readers read nothing but expressions.

The types that instructions name are those of tokens and the generic arguments of
calls. They come from the program as it was compiled, and nothing here is asked
of them but that they are well composed.

The rules for instances refer to the definitions found, and symbols change while
an expression is read. `Expression.composes` is therefore stated for any later
symbols that recall what was found: what a part has found is kept by the parts
that are read after it. The theorem for readers has it for the symbols that a
reading leaves, and where lookups change no answer also for those it began with.
-/

namespace InlineCil

/-- The types that an instruction names: that of a token, or the generic
arguments of a method. All other types of an expression are composed. -/
def Instruction.givenTypes (i : Instruction) : List TypeSig :=
  match i.operand with
  | .type sig => if i.opcode = .ldtoken then [sig] else []
  | .method m => m.genericArguments
  | _ => []

namespace Expression

theorem ofCode_convert (opcode : Opcode) (conversion : Conversion) (value : Constant) :
    OfCode (convert opcode conversion value) := by
  unfold convert
  split <;> simp

/-- That a constant is no whole number is a reason in the code. -/
theorem ofCode_wholeOf (value : Constant) : OfCode (wholeOf value) := by
  cases value <;> simp [wholeOf]

theorem ofCode_uninitialized {α : Type} (length : Int) :
    OfCode (uninitialized length : Except Failure (List α)) := by
  unfold uninitialized
  split <;> simp

/-- Elements that cannot be arranged are a reason in the code. -/
theorem ofCode_arrange {α : Type} (length : Int) (elements : List (Int × α)) :
    OfCode (arrange length elements) := by
  unfold arrange
  split <;> simp

theorem ofCode_typeArgument (call : Instruction) : OfCode (typeArgument call) := by
  unfold typeArgument
  split <;> simp

/-- A signature fails for a reason in the code, whichever sort it is. -/
theorem ofCode_callSite (convention : Int) (returnType : TypeSig) (parameters : List TypeSig)
    (managed : Bool) : OfCode (callSite convention returnType parameters managed) := by
  cases managed with
  | true => exact CallSite.ofCode_ofFlags convention returnType parameters
  | false => exact CallSite.ofCode_ofUnmanaged convention returnType parameters

/-- A declaration that is pinned twice is a reason in the code. -/
theorem ofCode_pin (declared : LocalDeclaration) : OfCode (pin declared) := by
  unfold pin
  split <;> simp

theorem ofCode_apply (element : TypeSig) (wrapping : Wrapping) :
    OfCode (wrapping.apply element) := by
  cases wrapping with
  | pointer => exact element.ofCode_pointerTo
  | byRef => exact element.ofCode_byRefTo
  | vector => exact element.ofCode_arrayOf 1

variable {space : String} {k : ArgumentKind} {holds : (α : Type) → Resolving α → Prop}

/-- What lookups have, the meaning of an expression has. By induction on the
expression: everything else in it is a step without symbols. -/
theorem inherits (parts : Symbols.Inherited holds) (e : Expression space k) :
    holds k.Value e.denote := by
  induction e with
  | literal | text | emptyArray | absent | typeToken | parameterOwner => exact parts.pure _
  | converted _ _ _ _ inner =>
    exact parts.bind inner fun value => parts.liftExcept (ofCode_convert _ _ value)
  | whole _ inner => exact parts.bind inner fun value => parts.liftExcept (ofCode_wholeOf value)
  | createdArray _ _ _ length =>
    exact parts.bind length fun count => parts.liftExcept (ofCode_uninitialized count)
  | filledArray _ _ _ _ length elements =>
    exact parts.bind elements fun found => parts.bind length fun count =>
      parts.liftExcept (ofCode_arrange count found)
  | firstElement _ _ _ _ _ _ index value =>
    exact parts.bind value fun _ => parts.bind index fun _ => parts.pure _
  | nextElement _ _ _ _ _ _ _ earlier index value =>
    exact parts.bind value fun _ => parts.bind index fun _ => parts.bind earlier fun _ =>
      parts.pure _
  | present _ inner => exact parts.map inner some
  | wrapped wrapping _ _ _ element =>
    exact parts.bind element fun sig => parts.liftExcept (ofCode_apply sig wrapping)
  | arrayOfRank _ _ _ _ element rank =>
    exact parts.bind rank fun count => parts.bind element fun sig =>
      parts.liftExcept (sig.ofCode_arrayOf count)
  | genericInstance _ _ _ _ definition arguments =>
    exact parts.bind arguments fun types => parts.bind definition fun sig =>
      parts.instanceOf sig types
  | ofReflected _ _ _ inner => exact inner
  | ofName _ _ _ _ assembly name =>
    exact parts.bind name fun type => parts.bind assembly fun from_ => parts.ofName from_ type
  | ofTypeArgument call => exact parts.liftExcept (ofCode_typeArgument call)
  | modified _ _ _ _ _ element modifier =>
    exact parts.bind modifier fun _ => parts.bind element fun _ => parts.pure _
  | genericParameter _ _ _ _ owner index =>
    exact parts.bind index fun position => parts.bind owner fun level =>
      parts.liftExcept (TypeSig.ofCode_ofParameterIndex level position)
  | method _ _ _ _ _ _ on name arity parameters =>
    exact parts.bind parameters fun _ => parts.bind arity fun _ => parts.bind name fun _ =>
      parts.bind on fun _ => parts.method _
  | accessor _ _ _ _ _ on name =>
    exact parts.bind name fun _ => parts.bind on fun _ => parts.accessor _ _ _
  | constructor _ _ _ _ on parameters =>
    exact parts.bind parameters fun _ => parts.bind on fun _ => parts.method _
  | typeInitializer _ _ _ on => exact parts.bind on fun _ => parts.method _
  | unaryOperator _ _ _ _ on number =>
    exact parts.bind number fun _ => parts.bind on fun _ => parts.unaryOperator _ _
  | binaryOperator _ _ _ _ _ _ on number left right =>
    exact parts.bind right fun _ => parts.bind left fun _ => parts.bind number fun _ =>
      parts.bind on fun _ => parts.binaryOperator _ _ _ _
  | conversionOperator _ _ _ _ _ _ on kind direction other =>
    exact parts.bind other fun _ => parts.bind direction fun _ => parts.bind kind fun _ =>
      parts.bind on fun _ => parts.conversionOperator _ _ _ _
  | genericMethod _ _ _ _ definition arguments =>
    exact parts.bind arguments fun types => parts.bind definition fun found =>
      parts.liftExcept (found.ofCode_instantiate types)
  | optionalOfMethod _ _ _ _ declared parameters =>
    exact parts.bind parameters fun types => parts.bind declared fun found =>
      parts.liftExcept (found.ofCode_withOptional types)
  | field _ _ _ _ on name => exact parts.bind name fun _ => parts.bind on fun _ => parts.field _ _
  | signature managed _ _ _ _ _ convention returnType parameters =>
    exact parts.bind parameters fun types => parts.bind returnType fun result =>
      parts.bind convention fun flags =>
        parts.liftExcept (ofCode_callSite flags result types managed)
  | optionalOfSignature _ _ _ _ declared parameters =>
    exact parts.bind parameters fun types => parts.bind declared fun found =>
      parts.liftExcept (found.ofCode_withOptional types)
  | localVariable _ _ _ _ name type =>
    exact parts.bind type fun _ => parts.bind name fun _ => parts.pure _
  | pinned _ _ _ declared =>
    exact parts.bind declared fun found => parts.liftExcept (ofCode_pin found)

end Expression

/-- Every type in a value is good. Members and signatures are not composed
further. -/
def ArgumentKind.Holds (good : TypeSig → Prop) : (k : ArgumentKind) → k.Value → Prop
  | .array element, values => ∀ value ∈ (values : List element.Value), element.Holds good value
  | .elements element, values =>
      ∀ index value, (index, value) ∈ (values : List (Int × element.Value)) →
        element.Holds good value
  | .optional _ content, value => ∀ inner ∈ (value : Option content.Value), content.Holds good inner
  | .type _, sig => good sig
  | _, _ => True

/-- An element more is good if it is good and the others are. The index plays no
part, as only types can be good. -/
theorem ArgumentKind.holds_cons {good : TypeSig → Prop} {element : ArgumentKind} {index : Int}
    {value : element.Value} {rest : List (Int × element.Value)} (first : element.Holds good value)
    (others : (ArgumentKind.elements element).Holds good rest) :
    (ArgumentKind.elements element).Holds good ((index, value) :: rest) := by
  intro position other member
  rcases List.mem_cons.1 member with here | member
  · obtain ⟨rfl, rfl⟩ := Prod.mk.inj here
    exact first
  · exact others position other member

namespace TypeSig

/-- What is found by its name is a definition, so it obeys the rules. An empty
name is refused before anything is looked for. -/
theorem exists_named_of_ofName {assembly fullName : String} {s left : Symbols} {result : TypeSig}
    (found : (ofName assembly fullName).run s = .ok result left) :
    ∃ name, result = .named name := by
  unfold ofName at found
  split at found
  · simp at found
  · obtain ⟨bound, middle, -, made⟩ := Steps.run_bind_ok.1 found
    obtain ⟨rfl, -⟩ := by simpa using made
    exact ⟨bound.name, rfl⟩

/-- What is made of an index is a generic parameter, which obeys the rules as
well. -/
theorem exists_genericParameter_of_ofParameterIndex {owner : GenericOwner} {index : Int}
    {result : TypeSig} (made : ofParameterIndex owner index = .ok result) :
    ∃ position, result = .genericParameter owner position := by
  unfold ofParameterIndex at made
  split at made
  · exact ⟨_, (Except.ok.inj made).symm⟩
  · simp at made

end TypeSig

namespace Expression

variable {space : String} {k : ArgumentKind} {s left later : Symbols} {value : k.Value}

/-- What was found before an expression was evaluated is kept by what keeps all
that it left. -/
theorem recalls_of_run (e : Expression space k) (recalls : later.Recalls left)
    (ran : e.denote.run s = .ok value left) : later.Recalls s :=
  recalls.trans ((e.inherits Symbols.inherited_recalling s).ok ran)

theorem eq_nil_of_uninitialized {α : Type} {length : Int} {values : List α}
    (empty : uninitialized length = .ok values) : values = [] := by
  unfold uninitialized at empty
  split at empty
  · exact (Except.ok.inj empty).symm
  · simp at empty

/-- The values of an array are those of its elements: arranging them adds
nothing. A full arrangement has a value at every index, and each is that of an
element with this index. -/
theorem exists_index_of_arrange {α : Type} {length : Int} {elements : List (Int × α)}
    {values : List α} {value : α} (arranges : arrange length elements = .ok values)
    (member : value ∈ values) : ∃ index, (index, value) ∈ elements := by
  obtain ⟨-, failed⟩ | ⟨-, failed⟩ | ⟨-, -, -, _, failed, -⟩ |
    ⟨⟨-, perm⟩, found, arranged, same, stored⟩ := Reader.arranged_cases length elements
  · simp [arrange, failed] at arranges
  · simp [arrange, failed] at arranges
  · simp [arrange, failed] at arranges
  obtain rfl : found = values := by simpa [arrange, arranged] using arranges
  obtain ⟨i, there⟩ := List.mem_iff_getElem?.1 member
  have inside := (List.getElem?_eq_some_iff.1 there).1
  have written : (i : Int) ∈ elements.map Prod.fst :=
    perm.mem_iff.2 (Reader.mem_positions.2 (by omega))
  obtain ⟨⟨_, other⟩, among, rfl⟩ := List.mem_map.1 written
  obtain rfl := Option.some.inj ((stored i other among).symm.trans there)
  exact ⟨i, among⟩

/-- The type argument of a call is one of the types that the call names. Like a
type token it comes into a reading as it is, and nothing there has checked how it
is composed. -/
theorem mem_givenTypes_of_typeArgument {call : Instruction} {sig : TypeSig}
    (passed : typeArgument call = .ok sig) : sig ∈ call.givenTypes := by
  unfold typeArgument at passed
  split at passed
  · next found first =>
    obtain rfl := Except.ok.inj passed
    obtain ⟨m, calls, head⟩ := Option.bind_eq_some_iff.1 first
    have operand : call.operand = .method m := by
      unfold Instruction.method? at calls
      split at calls
      · next operand => rw [operand, Option.some.inj calls]
      · cases calls
    rw [Instruction.givenTypes, operand]
    exact List.mem_of_head? head
  · simp at passed

theorem wellComposed_apply {arity? : Arities} {element result : TypeSig} {wrapping : Wrapping}
    (composed : element.WellComposed arity?) (applied : wrapping.apply element = .ok result) :
    result.WellComposed arity? := by
  cases wrapping with
  | pointer => exact ((TypeSig.pointerTo_eq_ok composed).1 applied).2
  | byRef => exact ((TypeSig.byRefTo_eq_ok composed).1 applied).2
  | vector => exact ((TypeSig.arrayOf_eq_ok composed 1).1 applied).2

/-- An expression composes nothing but well-composed types if its instructions
name no others.

By induction on the expression. Each part is composed in symbols that are
recalled later, so the hypothesis on later symbols goes down to the parts, and
what they compose comes back up to the step that takes them. -/
theorem composes (e : Expression space k) (ran : e.denote.run s = .ok value left)
    (recalls : later.Recalls left)
    (given : ∀ i ∈ e.code, ∀ type ∈ i.givenTypes, type.WellComposed later.arity?) :
    k.Holds (·.WellComposed later.arity?) value := by
  induction e generalizing s left with
  | emptyArray =>
    obtain ⟨rfl, rfl⟩ := EStateM.Result.ok.inj ran
    exact List.forall_mem_nil _
  | createdArray length create creates =>
    obtain ⟨count, middle, -, made⟩ := Steps.run_bind_ok.1 ran
    obtain ⟨empty, -⟩ := Steps.run_liftExcept_eq_ok.1 made
    obtain rfl := eq_nil_of_uninitialized empty
    exact List.forall_mem_nil _
  -- The elements are read before the length, so what they have found is kept while it is read.
  | filledArray length elements store _ _ holds =>
    obtain ⟨found, middle, filling, ran⟩ := Steps.run_bind_ok.1 ran
    obtain ⟨count, last, counting, made⟩ := Steps.run_bind_ok.1 ran
    obtain ⟨arranges, rfl⟩ := Steps.run_liftExcept_eq_ok.1 made
    obtain ⟨inBoth, -⟩ := List.forall_mem_append.1 given
    obtain ⟨-, inElements⟩ := List.forall_mem_append.1 inBoth
    have composed := holds filling (length.recalls_of_run recalls counting) inElements
    intro value member
    obtain ⟨index, among⟩ := exists_index_of_arrange arranges member
    exact composed index value among
  | firstElement create duplicate _ _ index value _ holds =>
    obtain ⟨element, middle, evaluated, ran⟩ := Steps.run_bind_ok.1 ran
    obtain ⟨position, last, counting, made⟩ := Steps.run_bind_ok.1 ran
    obtain ⟨rfl, rfl⟩ := EStateM.Result.ok.inj made
    obtain ⟨-, inValue⟩ := List.forall_mem_append.1 given
    have composed := holds evaluated (index.recalls_of_run recalls counting) inValue
    exact ArgumentKind.holds_cons composed fun _ _ member => by cases member
  | nextElement earlier store duplicate _ _ index value holdsEarlier _ holds =>
    obtain ⟨element, middle, evaluated, ran⟩ := Steps.run_bind_ok.1 ran
    obtain ⟨position, next, counting, ran⟩ := Steps.run_bind_ok.1 ran
    obtain ⟨others, last, filling, made⟩ := Steps.run_bind_ok.1 ran
    obtain ⟨rfl, rfl⟩ := EStateM.Result.ok.inj made
    obtain ⟨inRest, inValue⟩ := List.forall_mem_append.1 given
    obtain ⟨inGroup, -⟩ := List.forall_mem_append.1 inRest
    obtain ⟨inStored, -⟩ := List.forall_mem_append.1 inGroup
    obtain ⟨inEarlier, -⟩ := List.forall_mem_append.1 inStored
    have kept := earlier.recalls_of_run recalls filling
    have composed := holds evaluated (index.recalls_of_run kept counting) inValue
    exact ArgumentKind.holds_cons composed (holdsEarlier filling recalls inEarlier)
  | absent =>
    obtain ⟨rfl, rfl⟩ := EStateM.Result.ok.inj ran
    rintro _ ⟨⟩
  | present inner holds =>
    obtain ⟨found, evaluated, rfl⟩ := Steps.run_map_ok.1 ran
    rintro _ ⟨⟩
    exact holds evaluated recalls given
  | typeToken sig call calls =>
    obtain ⟨rfl, rfl⟩ := EStateM.Result.ok.inj ran
    have named : sig ∈ (⟨.ldtoken, .type sig⟩ : Instruction).givenTypes := by
      simp [Instruction.givenTypes]
    exact given _ List.mem_cons_self sig named
  | wrapped wrapping element call calls holds =>
    obtain ⟨sig, middle, evaluated, made⟩ := Steps.run_bind_ok.1 ran
    obtain ⟨applied, rfl⟩ := Steps.run_liftExcept_eq_ok.1 made
    obtain ⟨inElement, -⟩ := List.forall_mem_append.1 given
    exact wellComposed_apply (holds evaluated recalls inElement) applied
  | arrayOfRank element rank call calls holds =>
    obtain ⟨count, middle, -, ran⟩ := Steps.run_bind_ok.1 ran
    obtain ⟨sig, last, evaluated, made⟩ := Steps.run_bind_ok.1 ran
    obtain ⟨ranked, rfl⟩ := Steps.run_liftExcept_eq_ok.1 made
    obtain ⟨inBoth, -⟩ := List.forall_mem_append.1 given
    obtain ⟨inElement, -⟩ := List.forall_mem_append.1 inBoth
    have composed := holds evaluated recalls inElement
    exact ((TypeSig.arrayOf_eq_ok composed count).1 ranked).2
  | genericInstance definition arguments call calls _ holds =>
    obtain ⟨types, middle, evaluated, ran⟩ := Steps.run_bind_ok.1 ran
    obtain ⟨sig, last, defined, made⟩ := Steps.run_bind_ok.1 ran
    obtain ⟨inBoth, -⟩ := List.forall_mem_append.1 given
    obtain ⟨-, inArguments⟩ := List.forall_mem_append.1 inBoth
    have kept : later.Recalls last :=
      recalls.trans ((Symbols.inherited_recalling.instanceOf sig types last).ok made)
    have composed := holds evaluated (definition.recalls_of_run kept defined) inArguments
    obtain ⟨_, _, -, -, -, obeys⟩ := (TypeSig.instanceOf_eq_ok composed fun _ _ found =>
      Symbols.arity?_of_recalls found recalls).1 made
    exact obeys
  | ofReflected inner call calls holds =>
    obtain ⟨inInner, -⟩ := List.forall_mem_append.1 given
    exact holds ran recalls inInner
  | ofName assembly name call calls =>
    obtain ⟨type, middle, -, ran⟩ := Steps.run_bind_ok.1 ran
    obtain ⟨home, last, -, found⟩ := Steps.run_bind_ok.1 ran
    obtain ⟨_, rfl⟩ := TypeSig.exists_named_of_ofName found
    exact .named _
  | ofTypeArgument call calls =>
    obtain ⟨passed, -⟩ := Steps.run_liftExcept_eq_ok.1 ran
    exact given call (List.mem_singleton_self call) value (mem_givenTypes_of_typeArgument passed)
  | modified required element modifier call calls holdsElement holdsModifier =>
    obtain ⟨outer, middle, evaluated, ran⟩ := Steps.run_bind_ok.1 ran
    obtain ⟨sig, last, continued, made⟩ := Steps.run_bind_ok.1 ran
    obtain ⟨rfl, rfl⟩ := EStateM.Result.ok.inj made
    obtain ⟨inBoth, -⟩ := List.forall_mem_append.1 given
    obtain ⟨inElement, inModifier⟩ := List.forall_mem_append.1 inBoth
    have modifying := holdsModifier evaluated (element.recalls_of_run recalls continued) inModifier
    exact .modified required outer sig modifying (holdsElement continued recalls inElement)
  | genericParameter owner index call calls =>
    obtain ⟨position, middle, -, ran⟩ := Steps.run_bind_ok.1 ran
    obtain ⟨level, last, -, made⟩ := Steps.run_bind_ok.1 ran
    obtain ⟨given, -⟩ := Steps.run_liftExcept_eq_ok.1 made
    obtain ⟨_, rfl⟩ := TypeSig.exists_genericParameter_of_ofParameterIndex given
    exact .genericParameter _ _
  | _ => trivial

end Expression

namespace TypeSig

/-- Each step takes well-composed operands exactly if what it makes of them is
well composed, and an instance besides needs an uninstantiated definition that is
found. Modifiers are always taken. -/
structure StepsExactly (s : Symbols) : Prop where
  pointer : ∀ element result : TypeSig, element.WellComposed s.arity? →
    (element.pointerTo = .ok result ↔ result = .pointer element ∧ result.WellComposed s.arity?)
  byRef : ∀ element result : TypeSig, element.WellComposed s.arity? →
    (element.byRefTo = .ok result ↔ result = .byRef element ∧ result.WellComposed s.arity?)
  array : ∀ (element result : TypeSig) (rank : Int), element.WellComposed s.arity? →
    (element.arrayOf rank = .ok result ↔
      result = .array element rank.toNat ∧ result.WellComposed s.arity?)
  instantiation : ∀ (definition result : TypeSig) (arguments : List TypeSig) (left : Symbols),
    (∀ argument ∈ arguments, argument.WellComposed s.arity?) →
      ((definition.instanceOf arguments).run s = .ok result left ↔
        ∃ name type, definition = .named name ∧ (Symbols.resolve name).run s = .ok type left ∧
          result = .genericInstance name arguments ∧ result.WellComposed s.arity?)
  modified : ∀ (required : Bool) (modifier element : TypeSig), modifier.WellComposed s.arity? →
    element.WellComposed s.arity? →
      (TypeSig.modified required modifier element).WellComposed s.arity?

/-- Each step is exact in every state of the symbols, from the lemmas on the
single steps. -/
theorem stepsExactly (s : Symbols) : StepsExactly s where
  pointer _ _ composed := pointerTo_eq_ok composed
  byRef _ _ composed := byRefTo_eq_ok composed
  array _ _ rank composed := arrayOf_eq_ok composed rank
  instantiation _ _ _ _ composed := instanceOf_eq_ok composed fun _ _ => Symbols.arity?_of_run
  modified required modifier element := .modified required modifier element

end TypeSig

namespace Reader

/-- The instructions that a reading took are the nearest ones ahead. If the types
that they name are well composed, so is the type that was read, in the symbols
left as in any that still recall what was found; and if the symbols were settled,
in these as well. -/
structure ComposesWell (reader : Reader TypeSig) : Prop where
  closed : ∀ state sig left, reader.run state = .ok sig left →
    ∃ lines, state.ahead = lines ++ left.ahead ∧ ∀ later : Symbols, later.Recalls left.symbols →
      (∀ line ∈ lines, ∀ type ∈ line.instruction.givenTypes, type.WellComposed later.arity?) →
        sig.WellComposed later.arity?
  steady : ∀ state sig left, reader.run state = .ok sig left → state.symbols.Settled →
    left.symbols.arity? = state.symbols.arity?

variable {site : Site} {reflected : Bool} {reader : Reader TypeSig}

/-- A reader that reads nothing but expressions composes well. The lines it took
hold the code of the expression, and so they name the types that the expression
names. -/
theorem composesWell_of_recovers (recovers : Recovers site (.type reflected) reader) :
    ComposesWell reader where
  closed state sig left reading := by
    obtain ⟨e, lines, took, held, means⟩ := recovers state sig left reading
    refine ⟨lines.reverse, took.ahead, fun later recalls given => ?_⟩
    refine e.composes means recalls fun i member => ?_
    rw [← held] at member
    obtain ⟨line, among, rfl⟩ := List.mem_map.1 member
    exact given line (List.mem_reverse.2 among)
  steady state sig left reading settled := by
    obtain ⟨e, lines, took, held, means⟩ := recovers state sig left reading
    exact ((e.inherits Symbols.inherited_steady state.symbols).ok means settled).2

/-- Types are composed without ever breaking a rule: both readers of types, those
on reflected types and those on type references, compose well at every place and
whatever the expression is; and no step refuses what would be well composed. -/
theorem types_composed (site : Site) (bound : Nat) (s : Symbols) :
    ComposesWell (type site bound) ∧ ComposesWell (reflectedType site bound) ∧
      TypeSig.StepsExactly s :=
  ⟨composesWell_of_recovers (recovers_type bound),
    composesWell_of_recovers (recovers_reflectedType bound), TypeSig.stepsExactly s⟩

/-- A definition with one parameter. -/
def boxName : TypeName := { scope := "Program", nameSpace := "Program", name := "Box" }

def boxProgram : Symbols :=
  .ofCurrent { name := "Program.dll", assembly := "Program"
               types := [{ nameSpace := "Program", name := "Box", genericParameters := ["T"] }] }
    "System.Private.CoreLib"

def integerType : TypeSig := boxProgram.undefinedCoreType "System" "Int32"

/-- A call of the reflection of the host. -/
def reflecting (name : String) (parameters : List TypeSig) : Instruction :=
  let reflected : TypeSig := boxProgram.undefinedCoreType "System" "Type"
  ⟨.call, .method { declaringType := reflected, name, returnType := reflected, parameters }⟩

/-- A body that instantiates the definition with a pointer. -/
def boxingBody : Body :=
  ({} : Body).pushAll
    [⟨.ldtoken, .type (.named boxName)⟩, reflecting "GetTypeFromHandle" [integerType],
      ⟨.ldcI41, .none⟩, ⟨.newarr, .none⟩, ⟨.dup, .none⟩, ⟨.ldcI40, .none⟩,
      ⟨.ldtoken, .type integerType⟩, reflecting "GetTypeFromHandle" [integerType],
      reflecting "MakePointerType" [], ⟨.stelemRef, .none⟩,
      reflecting "MakeGenericType" [integerType], ⟨.nop, .none⟩]

def boxingSite : Site := ⟨"InlineIL", ⟨⟨11⟩, ⟨.nop, .none⟩⟩, .ofBody boxingBody⟩

/-- The lines before the call, the nearest first. -/
def boxingReading : Reading := ⟨(boxingBody.code.linked.take 11).reverse, [], boxProgram⟩

/-- The instance is well composed in the program, because its parts are. The
witness reads a generic instance whose argument is a pointer, both made by
reflection from type tokens. -/
theorem types_composed_boxing :
    ∃ left, (reflectedType boxingSite 9).run boxingReading =
        .ok (.genericInstance boxName [.pointer integerType]) left ∧
      TypeSig.WellComposed boxProgram.arity? (.genericInstance boxName [.pointer integerType]) := by
  obtain ⟨-, reflected, -⟩ := types_composed boxingSite 9 boxProgram
  obtain ⟨left, read, all⟩ : ∃ left, (reflectedType boxingSite 9).run boxingReading =
      .ok (.genericInstance boxName [.pointer integerType]) left ∧ left.ahead = [] := ⟨_, rfl, rfl⟩
  obtain ⟨lines, ahead, closed⟩ := reflected.closed _ _ _ read
  rw [all, List.append_nil] at ahead
  have named : (boxingReading.ahead.flatMap fun line => line.instruction.givenTypes) =
      [integerType, .named boxName] := rfl
  have composed := closed left.symbols (.refl _) fun line member type among => by
    have listed : type ∈ [integerType, .named boxName] := by
      rw [← named, ahead]
      exact List.mem_flatMap.2 ⟨line, member, among⟩
    rcases List.mem_pair.1 listed with rfl | rfl <;> exact .named _
  rw [reflected.steady _ _ _ read (.inl rfl)] at composed
  exact ⟨left, read, composed⟩

end Reader

end InlineCil
