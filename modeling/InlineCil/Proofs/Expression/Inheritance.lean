import InlineCil.Proofs.Lookups

/-!
# What readers inherit

Readers are put together from few steps: a line is taken, a failure is given a
place, a type or a member is looked up. What these have and composed steps
inherit, every reader has.

A property of this sort is proved of readers over and over: that they take only
certain lines, that they keep the symbols in order, that they fail for certain
reasons. `Inherited` collects what such a property must be closed under, and the
theorems below derive it for each reader from that alone. A module that needs a
new property proves the few fields of the structure and has it for all readers.

The state of a reading holds the symbols beside the lines. A reader may look at
the lines on its way but at the symbols only through lookups, which is what
`peek` and `lookups` say. So a property of lookups can be inherited without any
knowledge of readers.
-/

namespace InlineCil

namespace Reader

/-- A property that readers inherit from the steps they are put together from,
and from the lookups that they run. -/
structure Inherited (site : Site) (looks : (α : Type) → Resolving α → Prop)
    (holds : (α : Type) → Reader α → Prop) : Prop extends InlineCil.Inherited holds where
  lookups : Symbols.Inherited looks
  take : holds Line (take site)
  located : ∀ {α : Type} {reader : Reader α}, holds α reader →
    ∀ place, holds α (located place reader)
  resolving : ∀ {α : Type} {step : Resolving α}, looks α step → holds α (resolving step)
  /-- The state may be looked at, but for its symbols. -/
  peek : ∀ {α : Type} {next : Reading → Reader α},
    (∀ state symbols, next { state with symbols } = next state) →
    (∀ state, holds α (next state)) → holds α (get >>= next)

/-- A mismatch is reported as a failure of the code, not of the program that
reads it. -/
theorem isRecoverable_mismatch (line : Line) (expected : Expected) :
    (mismatch line expected).isRecoverable = true := by
  unfold mismatch
  split <;> rfl

/-- That an instruction is no builder is a failure of the code, whichever way the
classification fails. -/
theorem ofCode_builder {site : Site} (line : Line) (expected : Expected) :
    OfCode (builder site line expected) := by
  unfold builder
  split
  · next failure failed =>
    simpa using line.instruction.ofCode_marker? site.space failure failed
  · simp
  · simpa using isRecoverable_mismatch line expected

namespace Inherited

variable {site : Site} {α : Type} {bound : Nat} {looks : (α : Type) → Resolving α → Prop}
  {holds : (α : Type) → Reader α → Prop} (parts : Inherited site looks holds)

include parts

/-- A reader that meets an instruction it does not expect fails, and any
inherited property allows that. -/
theorem mismatch (line : Line) (expected : Expected) :
    holds α (throw (Reader.mismatch line expected)) :=
  parts.throw (isRecoverable_mismatch line expected)

/-- Readers that dispatch on a builder take a line, classify it and go on as the
builder asks for. It is enough that each way to go on has the property. -/
theorem call {next : Line → Builder → Reader α} (expected : Expected)
    (has : ∀ line b, holds _ (next line b)) :
    holds _ (Reader.take site >>= fun line => Reader.located line.place
      (liftExcept (builder site line expected) >>= next line)) :=
  parts.bind parts.take fun line => parts.located
    (parts.bind (parts.liftExcept (ofCode_builder line expected)) (has line)) line.place

/-- Constants have every inherited property, by induction on the bound. A line is
taken, and what it is decides between a literal, a conversion of another constant
and a refusal. -/
theorem constant : holds _ (Reader.constant site bound) := by
  induction bound with
  | zero => exact parts.throw rfl
  | succ bound ih =>
    refine parts.bind parts.take fun line => ?_
    split
    · refine parts.bind ih fun value => ?_
      split
      · exact parts.pure _
      · exact parts.throw rfl
    · split
      · exact parts.pure _
      · exact parts.mismatch _ _

/-- Whole numbers are constants that are looked at in the end. Looking at the
line ahead before reading takes nothing and changes nothing. -/
theorem integer : holds _ (Reader.integer site bound) := by
  refine parts.peek (fun _ _ => rfl) fun state => parts.bind parts.constant fun value => ?_
  cases value with
  | int32 number => exact parts.pure _
  | int64 number => exact parts.pure _
  | float number => exact parts.throw rfl

/-- Floating-point numbers are constants that are widened in the end. -/
theorem float : holds _ (Reader.float site bound) := by
  refine parts.bind parts.constant fun value => ?_
  cases value <;> exact parts.pure _

theorem string : holds _ (Reader.string site) := by
  refine parts.bind parts.take fun line => ?_
  split
  · exact parts.pure _
  · exact parts.mismatch _ _

section Arrays

variable {element : Reader α}

/-- Elements have what the reader of one element has, by induction on the rounds.
The value, the index and the duplicate come in this order, and then the creation
or the store that goes on. -/
theorem elements (has : holds _ element) (rounds : Nat) :
    holds _ (Reader.elements site element bound rounds) := by
  induction rounds with
  | zero => exact parts.throw rfl
  | succ rounds ih =>
    refine parts.bind has fun value => parts.bind parts.integer fun index =>
      parts.bind parts.take fun duplicate => ?_
    refine parts.orGiveUp (parts.mismatch _ _) fun _ => parts.bind parts.take fun line => ?_
    split
    · exact parts.pure _
    · split
      · exact parts.bind ih fun found => parts.pure _
      · exact parts.mismatch _ _

/-- Arrays have what the reader of one element has. The line that is taken first
decides which of the three forms an array has. -/
theorem array (has : holds _ element) : holds _ (Reader.array site element bound) := by
  refine parts.bind parts.take fun line => ?_
  split
  · refine parts.bind parts.integer fun count => ?_
    split
    · exact parts.pure _
    · exact parts.throw rfl
  · split
    · refine parts.bind (parts.elements has bound) fun found =>
        parts.bind parts.integer fun length => ?_
      split
      · exact parts.pure _
      · exact parts.throw rfl
    · refine parts.bind (parts.liftExcept (ofCode_builder _ _)) fun b => ?_
      split
      · exact parts.pure _
      · exact parts.mismatch _ _

end Arrays

theorem typeToken : holds _ (Reader.typeToken site) := by
  refine parts.bind parts.take fun line => ?_
  split
  · exact parts.pure _
  · exact parts.mismatch _ _

/-- Reflected types have every inherited property, by induction on the bound, for
each builder in turn. Composing is checked after its parts are read, and a
refusal there is as recoverable as one of a reader. -/
theorem reflectedType : holds _ (Reader.reflectedType site bound) := by
  induction bound with
  | zero => exact parts.throw rfl
  | succ bound ih =>
    refine parts.call _ fun line b => ?_
    split
    · exact parts.typeToken
    · exact parts.bind ih fun element => parts.liftExcept element.ofCode_pointerTo
    · exact parts.bind ih fun element => parts.liftExcept element.ofCode_byRefTo
    · exact parts.bind ih fun element => parts.liftExcept (element.ofCode_arrayOf 1)
    · exact parts.bind parts.integer fun rank => parts.bind ih fun element =>
        parts.liftExcept (element.ofCode_arrayOf rank)
    · exact parts.bind (parts.array ih) fun arguments => parts.bind ih fun definition =>
        parts.resolving (parts.lookups.instanceOf definition arguments)
    · exact parts.mismatch _ _

/-- The owner of generic parameters is read in one step: a line is taken, and
then the builder that it calls decides. -/
theorem parameterOwner : holds _ (Reader.parameterOwner site) := by
  refine parts.bind parts.take fun line =>
    parts.bind (parts.liftExcept (ofCode_builder _ _)) fun b => ?_
  split
  · exact parts.pure _
  · exact parts.pure _
  · exact parts.mismatch _ _

/-- Type references have every inherited property, by induction on the bound, for
each builder in turn. Two of the builders look symbols up, and lookups have the
property by assumption. -/
theorem type : holds _ (Reader.type site bound) := by
  induction bound with
  | zero => exact parts.throw rfl
  | succ bound ih =>
    refine parts.call _ fun line b => ?_
    split
    · exact parts.reflectedType
    · exact parts.bind parts.string fun name => parts.bind parts.string fun assembly =>
        parts.resolving (parts.lookups.ofName assembly name)
    · split
      · exact parts.pure _
      · exact parts.mismatch _ _
    · exact parts.bind ih fun element => parts.liftExcept element.ofCode_pointerTo
    · exact parts.bind ih fun element => parts.liftExcept element.ofCode_byRefTo
    · exact parts.bind ih fun element => parts.liftExcept (element.ofCode_arrayOf 1)
    · exact parts.bind parts.integer fun rank => parts.bind ih fun element =>
        parts.liftExcept (element.ofCode_arrayOf rank)
    · exact parts.bind (parts.array ih) fun arguments => parts.bind ih fun definition =>
        parts.resolving (parts.lookups.instanceOf definition arguments)
    · exact parts.bind ih fun modifier => parts.bind ih fun element => parts.pure _
    · exact parts.bind parts.integer fun index => parts.bind parts.parameterOwner fun owner =>
        parts.liftExcept (TypeSig.ofCode_ofParameterIndex owner index)
    · exact parts.mismatch _ _

theorem types : holds _ (Reader.types site bound) := parts.array parts.type

theorem optional {reader : Reader α} (has : holds _ reader) (present : Bool) :
    holds _ (Reader.optional present reader) := by
  cases present with
  | true => exact parts.map has some
  | false => exact parts.pure none

/-- Method references have every inherited property. Their members are looked up
among candidates, so this is where `lookups` is needed most. -/
theorem method : holds _ (Reader.method site bound) := by
  induction bound with
  | zero => exact parts.throw rfl
  | succ bound ih =>
    have type : holds _ (Reader.type site bound) := parts.type
    have types : holds _ (Reader.types site bound) := parts.types
    have integer : holds _ (Reader.integer site bound) := parts.integer
    refine parts.call _ fun line b => ?_
    split
    · exact parts.bind (parts.optional types _) fun parameters =>
        parts.bind (parts.optional integer _) fun arity => parts.bind parts.string fun name =>
          parts.bind type fun on => parts.resolving (parts.lookups.method _)
    · exact parts.bind parts.string fun name => parts.bind type fun on =>
        parts.resolving (parts.lookups.accessor _ _ _)
    · exact parts.bind types fun parameters => parts.bind type fun on =>
        parts.resolving (parts.lookups.method _)
    · exact parts.bind type fun on => parts.resolving (parts.lookups.method _)
    · exact parts.bind integer fun number => parts.bind type fun on =>
        parts.resolving (parts.lookups.unaryOperator _ _)
    · exact parts.bind type fun right => parts.bind type fun left =>
        parts.bind integer fun number => parts.bind type fun on =>
          parts.resolving (parts.lookups.binaryOperator _ _ _ _)
    · exact parts.bind type fun other => parts.bind integer fun direction =>
        parts.bind integer fun kind => parts.bind type fun on =>
          parts.resolving (parts.lookups.conversionOperator _ _ _ _)
    · exact parts.bind types fun arguments => parts.bind ih fun definition =>
        parts.liftExcept (definition.ofCode_instantiate arguments)
    · exact parts.bind types fun parameters => parts.bind ih fun declared =>
        parts.liftExcept (declared.ofCode_withOptional parameters)
    · exact parts.mismatch _ _

/-- Field references have every inherited property: a call, a name, a type and a
lookup, each of which has it. -/
theorem field : holds _ (Reader.field site bound) := by
  refine parts.call _ fun line b => ?_
  split
  · exact parts.bind parts.string fun name => parts.bind parts.type fun on =>
      parts.resolving (parts.lookups.field on name)
  · exact parts.mismatch _ _

/-- Signatures have every inherited property, by induction on the bound. Flags
and conventions are numbers that are read before they are checked. -/
theorem signature : holds _ (Reader.signature site bound) := by
  induction bound with
  | zero => exact parts.throw rfl
  | succ bound ih =>
    refine parts.call _ fun line b => ?_
    split
    · exact parts.bind parts.types fun parameters => parts.bind parts.type fun returnType =>
        parts.bind parts.integer fun flags =>
          parts.liftExcept (CallSite.ofCode_ofFlags flags returnType parameters)
    · exact parts.bind parts.types fun parameters => parts.bind parts.type fun returnType =>
        parts.bind parts.integer fun convention =>
          parts.liftExcept (CallSite.ofCode_ofUnmanaged convention returnType parameters)
    · exact parts.bind parts.types fun parameters => parts.bind ih fun declared =>
        parts.liftExcept (declared.ofCode_withOptional parameters)
    · exact parts.mismatch _ _

/-- Declarations of local variables have every inherited property, by induction
on the bound. A pinned one reads another declaration first and may then be
refused. -/
theorem localVariable : holds _ (Reader.localVariable site bound) := by
  induction bound with
  | zero => exact parts.throw rfl
  | succ bound ih =>
    refine parts.call _ fun line b => ?_
    split
    · next named reflected =>
      have named : ∀ type, holds _ (Reader.optional named (Reader.string site) >>= fun name =>
          pure { name, type : LocalDeclaration }) := fun type =>
        parts.bind (parts.optional parts.string _) fun name => parts.pure _
      split
      · exact parts.bind parts.reflectedType named
      · exact parts.bind parts.type named
    · refine parts.bind ih fun declared => ?_
      split
      · exact parts.bind (parts.throw rfl) fun _ => parts.pure _
      · exact parts.pure _
    · exact parts.mismatch _ _

theorem declarations {hasInitFlag : Bool} :
    holds _ (Rewrite.declarations hasInitFlag site bound) := by
  refine parts.bind (parts.array parts.localVariable) fun declared => ?_
  split
  · exact parts.bind (parts.map parts.integer _) fun init => parts.pure _
  · exact parts.pure _

/-- So has what an emitting call reads, for every kind of parameter. The
parameter only chooses the reader, and a value that is read is wrapped as it is. -/
theorem argument (parameter : EmitParameter) :
    holds _ (Reader.argument site bound parameter) := by
  have integer : holds _ (Argument.integer <$> Reader.integer site bound) :=
    parts.map parts.integer _
  have float : holds _ (Argument.float <$> Reader.float site bound) :=
    parts.map parts.float _
  cases parameter with
  | none => exact parts.pure _
  | float32 => exact float
  | float64 => exact float
  | string => exact parts.map parts.string _
  | stringArray => exact parts.map (parts.array parts.string) _
  | typeReference => exact parts.map parts.type _
  | methodReference => exact parts.map parts.method _
  | fieldReference => exact parts.map parts.field _
  | signature => exact parts.map parts.signature _
  | _ => exact integer

end Inherited

end Reader

end InlineCil
