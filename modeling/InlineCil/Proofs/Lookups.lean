import InlineCil.Proofs.Promise

/-!
# Failures of lookups

Composing types, choosing members and recognising markers fail for reasons in the
code only. A lookup may also load modules, which can go wrong in other ways;
where nothing loads modules, a lookup fails for reasons in the code as well.

`OfCode` says so of an outcome that needs no state. It is closed under sequencing
and branching, so each of the functions that compose types or choose members has
it by following its text.

Steps with symbols are treated once and for all by `Inherited`. A property of
steps that is closed under sequencing, that allows failures for reasons in the
code and that a single lookup has, is had by every way to look a type or a member
up. Promises about failures, about what is remembered and about what is asked are
all instances of it.
-/

namespace InlineCil

/-- The outcome is a failure only for a reason in the code. -/
def OfCode {α : Type} (outcome : Except Failure α) : Prop :=
  ∀ failure, outcome = .error failure → failure.isRecoverable = true

namespace OfCode

variable {α β : Type}

@[simp] theorem of_ok (value : α) : OfCode (.ok value) := fun _ failed => by cases failed

@[simp] theorem of_pure (value : α) : OfCode (pure value : Except Failure α) := of_ok value

/-- A failure is for a reason in the code if it is recoverable. This is the simp
form of `OfCode` for an outcome that is known to fail. -/
@[simp] theorem of_error {failure : Failure} :
    OfCode (.error failure : Except Failure α) ↔ failure.isRecoverable = true := by
  constructor
  · intro blames
    exact blames failure rfl
  · rintro recoverable other ⟨⟩
    exact recoverable

@[simp] theorem of_throw {failure : Failure} :
    OfCode (throw failure : Except Failure α) ↔ failure.isRecoverable = true := of_error

/-- Outcomes one after the other fail for reasons in the code if each of them
does. The second may depend on the value of the first. -/
theorem bind {first : Except Failure α} {second : α → Except Failure β} (blames : OfCode first)
    (later : ∀ value, OfCode (second value)) : OfCode (first >>= second) := by
  cases first with
  | ok value => exact later value
  | error failure =>
    rintro other ⟨⟩
    exact blames failure rfl

theorem refused {failure : Failure} {second : α → Except Failure β}
    (recoverable : failure.isRecoverable = true) : OfCode (throw failure >>= second) := by
  rintro other ⟨⟩
  exact recoverable

/-- A choice between outcomes fails for reasons in the code if both of them do. -/
theorem ite {condition : Prop} [Decidable condition] {first second : Except Failure α}
    (yes : OfCode first) (no : OfCode second) :
    OfCode (if condition then first else second) := by
  split
  · exact yes
  · exact no

end OfCode

namespace Failure

@[simp] theorem isRecoverable_ofCause (cause : Cause) : (ofCause cause).isRecoverable = true := rfl

@[simp] theorem isRecoverable_causedAt (cause : Cause) (place : Place) :
    (causedAt cause place).isRecoverable = true := rfl

@[simp] theorem isRecoverable_weaving (cause : Cause) (place : Option Place) :
    (weaving cause place).isRecoverable = true := rfl

@[simp] theorem isRecoverable_locatedAt (place : Place) (failure : Failure) :
    (failure.locatedAt place).isRecoverable = failure.isRecoverable := by
  unfold locatedAt
  split <;> rfl

end Failure

namespace TypeSig

theorem ofCode_pointerTo (element : TypeSig) : OfCode element.pointerTo := by
  unfold pointerTo
  split <;> simp

theorem ofCode_byRefTo (element : TypeSig) : OfCode element.byRefTo := by
  unfold byRefTo
  split <;> simp

/-- An array is refused for a reason in the code, its element type or its rank. -/
theorem ofCode_arrayOf (element : TypeSig) (rank : Int) : OfCode (element.arrayOf rank) := by
  unfold arrayOf
  split
  · simp
  · split <;> simp

theorem ofCode_checkGenericArguments (arguments : List TypeSig) :
    OfCode (checkGenericArguments arguments) := by
  unfold checkGenericArguments
  split <;> simp

/-- What is no definition is refused for a reason in the code. -/
theorem ofCode_genericDefinition (definition : TypeSig) : OfCode (genericDefinition definition) := by
  unfold genericDefinition
  split <;> simp

theorem ofCode_instantiate (definition : TypeSig) (name : TypeName) (expected : Nat)
    (arguments : List TypeSig) : OfCode (instantiate definition name expected arguments) := by
  have checked := (ofCode_checkGenericArguments arguments).bind fun _ =>
    OfCode.of_pure (genericInstance name arguments)
  exact .ite (.refused rfl) (.ite (.refused rfl) checked)

/-- An index of a generic parameter is refused for a reason in the code. -/
theorem ofCode_ofParameterIndex (owner : GenericOwner) (index : Int) :
    OfCode (ofParameterIndex owner index) := by
  unfold ofParameterIndex
  split <;> simp

end TypeSig

namespace CallSite

/-- The flags of a signature are refused for a reason in the code. Proof: along
the checks in order, each of which refuses or goes on. -/
theorem ofCode_ofFlags (flags : Int) (returnType : TypeSig) (parameters : List TypeSig) :
    OfCode (ofFlags flags returnType parameters) := by
  have rest (convention : CallingConvention) (hasThis explicitThis : Bool) : OfCode (do
      if explicitThis && !hasThis then throw (.ofCause .explicitThisAlone)
      return { convention, hasThis, explicitThis, returnType, parameters : CallSite }) :=
    .ite (.refused rfl) (.of_pure _)
  refine .ite (.refused rfl) (.ite (.refused rfl) (.ite ?_ ?_))
  · exact .bind (.of_pure _) fun convention => rest convention _ _
  · exact .bind (.of_pure _) fun convention => rest convention _ _

/-- The number of an unmanaged convention is refused for a reason in the code: it
is none of the five that have a meaning. -/
theorem ofCode_ofUnmanaged (number : Int) (returnType : TypeSig) (parameters : List TypeSig) :
    OfCode (ofUnmanaged number returnType parameters) := by
  unfold ofUnmanaged
  dsimp only
  split
  case h_6 => exact .refused rfl
  all_goals exact .bind (.of_pure _) fun _ => .of_pure _

theorem ofCode_withOptional (s : CallSite) (types : List TypeSig) :
    OfCode (s.withOptional types) := by
  unfold withOptional
  split
  · simp
  · split <;> simp

end CallSite

namespace MethodRef

/-- A generic method is instantiated or refused for a reason in the code. -/
theorem ofCode_instantiate (m : MethodRef) (arguments : List TypeSig) :
    OfCode (m.instantiate arguments) := by
  have checked := (TypeSig.ofCode_checkGenericArguments arguments).bind fun _ =>
    OfCode.of_pure { m with genericArguments := arguments }
  exact .ite (.refused rfl) (.ite (.refused rfl) (.ite (.refused rfl) checked))

/-- A method that takes no optional parameters is refused for a reason in the
code. -/
theorem ofCode_withOptional (m : MethodRef) (types : List TypeSig) :
    OfCode (m.withOptional types) := by
  unfold withOptional
  split
  · simp
  · split <;> simp

end MethodRef

/-- A method of the vocabulary that is none of its markers is refused for a
reason in the code. -/
theorem Marker.ofCode_classify (space : String) (m : MethodRef) :
    OfCode (Marker.classify space m) := by
  unfold Marker.classify
  split
  · simp
  · repeat' split
    all_goals simp

/-- An instruction is classified by the method that it calls, so it fails as that
does. -/
theorem Instruction.ofCode_marker? (space : String) (i : Instruction) :
    OfCode (i.marker? space) := by
  unfold Instruction.marker?
  split
  · simp
  · exact Marker.ofCode_classify space _

theorem Instruction.ofCode_checked (opcode : Opcode) (operand : Operand) :
    OfCode (Instruction.checked opcode operand) := by
  unfold Instruction.checked
  split <;> simp

namespace Wanted

theorem ofCode_operatorName (family : OperatorFamily) (number : Int) :
    OfCode (operatorName family number) := by
  unfold operatorName
  dsimp only
  split <;> simp

theorem ofCode_conversionName (kind : Int) : OfCode (conversionName kind) := by
  unfold conversionName
  split <;> simp

theorem ofCode_conversionTypes (on other : TypeSig) (direction : Int) :
    OfCode (conversionTypes on other direction) := by
  unfold conversionTypes
  split <;> simp

/-- That no method matches or several do is a reason in the code. -/
theorem ofCode_single (w : Wanted) (type : TypeDef) : OfCode (w.single type) := by
  unfold single
  split <;> simp

end Wanted

namespace Lookup

/-- That an accessor is missing is a reason in the code, whether it is the
property or event that is missing or only the accessor. -/
theorem ofCode_accessorOf (type : TypeDef) (on : TypeSig) (name : String) (accessor : Accessor) :
    OfCode (accessorOf type on name accessor) := by
  unfold accessorOf
  dsimp only
  refine .ite ?_ ?_ <;>
  · split
    · exact .refused rfl
    · refine .bind (.of_pure _) fun found => ?_
      split <;> simp

/-- That a field is missing or there are several is a reason in the code. -/
theorem ofCode_fieldOf (type : TypeDef) (on : TypeSig) (name : String) :
    OfCode (fieldOf type on name) := by
  unfold fieldOf
  split <;> simp

end Lookup

/-- A property of steps that composed steps inherit from their parts. Of
failures, those for reasons in the code have it. -/
structure Inherited {σ : Type} (holds : (α : Type) → EStateM Failure σ α → Prop) : Prop where
  pure : ∀ {α : Type} (value : α), holds α (pure value)
  throw : ∀ {α : Type} {failure : Failure}, failure.isRecoverable = true → holds α (throw failure)
  bind : ∀ {α β : Type} {first : EStateM Failure σ α} {second : α → EStateM Failure σ β},
    holds α first → (∀ value, holds β (second value)) → holds β (first >>= second)

namespace Inherited

variable {σ α β : Type} {holds : (α : Type) → EStateM Failure σ α → Prop}

/-- An outcome that fails for reasons in the code has what is inherited. -/
theorem liftExcept (inherited : Inherited holds) {outcome : Except Failure α}
    (blames : OfCode outcome) : holds α (liftExcept outcome) := by
  cases outcome with
  | ok value => exact inherited.pure value
  | error failure => exact inherited.throw (blames failure rfl)

theorem map (inherited : Inherited holds) {step : EStateM Failure σ α} (has : holds α step)
    (change : α → β) : holds β (change <$> step) := by
  rw [map_eq_pure_bind]
  exact inherited.bind has fun value => inherited.pure (change value)

theorem orGiveUp (inherited : Inherited holds) {hopeless : Prop} [Decidable hopeless]
    {failing : EStateM Failure σ PUnit} {next : PUnit → EStateM Failure σ α}
    (fails : holds PUnit failing) (has : ∀ going, holds α (next going)) :
    holds α (if hopeless then failing >>= next else next ⟨⟩) := by
  split
  · exact inherited.bind fails has
  · exact has _

end Inherited

namespace Symbols

/-- A property that looking a type up has, and every step composed of lookups. -/
structure Inherited (holds : (α : Type) → Resolving α → Prop) : Prop extends
    InlineCil.Inherited holds where
  lookup : ∀ assembly fullName, holds BoundType (lookup assembly fullName)

namespace Inherited

variable {holds : (α : Type) → Resolving α → Prop} (parts : Inherited holds)

include parts

theorem findType (assembly fullName : String) : holds TypeSig (findType assembly fullName) :=
  parts.bind (parts.lookup assembly fullName) fun found =>
    parts.pure (TypeSig.named found.name)

theorem resolve (name : TypeName) : holds TypeDef (resolve name) :=
  parts.bind (parts.lookup name.scope name.fullName) fun found =>
    parts.pure found.definition

/-- An instance looks its definition up for the number of its parameters. -/
theorem instanceOf (definition : TypeSig) (arguments : List TypeSig) :
    holds TypeSig (definition.instanceOf arguments) :=
  parts.bind (parts.liftExcept (definition.ofCode_genericDefinition)) fun name =>
    parts.bind (parts.resolve name) fun _ =>
      parts.liftExcept (TypeSig.ofCode_instantiate _ _ _ _)

theorem ofName (assembly fullName : String) : holds TypeSig (TypeSig.ofName assembly fullName) := by
  unfold TypeSig.ofName
  split
  · exact parts.throw rfl
  · exact parts.findType assembly fullName

/-- The definition behind a type is looked up by the name in its signature. -/
theorem definition (on : TypeSig) : holds TypeDef (Lookup.definition on) := by
  unfold Lookup.definition
  split
  · exact parts.resolve _
  · exact parts.throw rfl

/-- A method is chosen among those of a definition that is looked up. -/
theorem method (w : Wanted) : holds MethodRef (Lookup.method w) :=
  parts.bind (parts.definition w.on) fun type => parts.liftExcept (w.ofCode_single type)

theorem unaryOperator (on : TypeSig) (number : Int) :
    holds MethodRef (Lookup.unaryOperator on number) :=
  parts.bind (parts.liftExcept (Wanted.ofCode_operatorName .unary number)) fun _ =>
    parts.method _

theorem binaryOperator (on : TypeSig) (number : Int) (left right : TypeSig) :
    holds MethodRef (Lookup.binaryOperator on number left right) :=
  parts.bind (parts.liftExcept (Wanted.ofCode_operatorName .binary number)) fun _ =>
    parts.method _

theorem conversionOperator (on : TypeSig) (kind direction : Int) (other : TypeSig) :
    holds MethodRef (Lookup.conversionOperator on kind direction other) :=
  parts.bind (parts.liftExcept (Wanted.ofCode_conversionName kind)) fun _ =>
    parts.bind (parts.liftExcept (Wanted.ofCode_conversionTypes on other direction)) fun _ =>
      parts.method _

/-- An accessor is chosen among those of a definition that is looked up. -/
theorem accessor (on : TypeSig) (name : String) (wanted : Accessor) :
    holds MethodRef (Lookup.accessor on name wanted) :=
  parts.bind (parts.definition on) fun type =>
    parts.liftExcept (Lookup.ofCode_accessorOf type on name wanted)

/-- A field is chosen among those of a definition that is looked up. A type
without a definition has no fields to look at and is refused. -/
theorem field (on : TypeSig) (name : String) : holds FieldRef (Lookup.field on name) := by
  unfold Lookup.field
  split
  · exact parts.throw rfl
  · exact parts.bind (parts.resolve _) fun type =>
      parts.liftExcept (Lookup.ofCode_fieldOf type on name)

end Inherited

/-- Where nothing loads modules, nothing ever will, and failures are for reasons
in the code. -/
def unloaded : Promise Failure Symbols where
  reaches s left := s.loader = none → left.loader = none
  admits s failure := s.loader = none → failure.isRecoverable = true
  refl _ none := none
  trans first second none := second (first none)
  admits_of_reaches reached admitted none := admitted (reached none)

variable {α : Type}

theorem keptBy_throw {failure : Failure} (recoverable : failure.isRecoverable = true) :
    unloaded.KeptBy (throw failure : Resolving α) :=
  Promise.keptBy_throw fun _ _ => recoverable

/-- Where modules are loaded nothing is promised, so every step keeps the
promise. -/
theorem meets_of_loader {s : Symbols} (loads : s.loader ≠ none) (step : Resolving α) :
    Steps.Meets step s (fun _ left => unloaded.reaches s left)
      fun failure left => unloaded.reaches s left ∧ unloaded.admits s failure :=
  .intro (fun _ _ _ none => absurd none loads)
    fun _ _ _ => ⟨fun none => absurd none loads, fun none => absurd none loads⟩

/-- Without a loader, a module is registered or it cannot be found. So asking for
one neither changes the symbols nor fails with anything fatal. -/
theorem keptBy_module (assembly : String) : unloaded.KeptBy (module assembly) := by
  intro s
  by_cases loads : s.loader = none
  · have nowhere (simple : String) : s.candidate? simple = none := by
      unfold candidate?
      rw [loads]
    refine Steps.meets_get ?_
    dsimp only
    rw [nowhere]
    split
    · exact Promise.keptBy_pure _ s
    · exact keptBy_throw rfl s
  · exact meets_of_loader loads _

/-- Telling a missing assembly for the type that was looked for does not make the
failure fatal. -/
theorem isRecoverable_toldOfType (type assembly : String) {failure : Failure}
    (recoverable : failure.isRecoverable = true) :
    (toldOfType type assembly failure).isRecoverable = true := by
  unfold toldOfType
  dsimp only
  split
  · rfl
  · exact recoverable

/-- Searching for a type keeps the promise, by induction on the number of modules
it is looked for in. How a missing assembly is told does not change the kind of
the failure. -/
theorem keptBy_search (type : String) (steps : Nat) (assembly : String) :
    unloaded.KeptBy (search type steps assembly) := by
  induction steps generalizing assembly with
  | zero => exact keptBy_throw rfl
  | succ steps ih =>
    unfold search
    refine ((keptBy_module assembly).rethrow fun _ failure admitted none =>
      isRecoverable_toldOfType type assembly (admitted none)).bind fun module => ?_
    split
    · exact Promise.keptBy_pure _
    · split
      · exact ih _
      · exact keptBy_throw rfl

/-- A lookup keeps the promise: it recalls what was found, or searches. A type
that is kept leaves the loader as it is. -/
theorem keptBy_lookup (assembly fullName : String) :
    unloaded.KeptBy (lookup assembly fullName) := by
  refine Promise.keptBy_get fun s => ?_
  split
  · exact Promise.keptBy_pure _
  · refine (keptBy_search _ _ _).bind fun found => ?_
    -- What is remembered are types, not how to load modules.
    refine Promise.KeptBy.bind (fun s => ?_) fun _ => Promise.keptBy_pure found
    exact fun none => none

theorem inherited_unloaded : Inherited fun _ => unloaded.KeptBy where
  pure := Promise.keptBy_pure
  throw := keptBy_throw
  bind kept keeps := kept.bind keeps
  lookup := keptBy_lookup

/-- A type of the core library is always there, defined or not. One that is not
found is referred to by its name. -/
theorem coreType_ok (nameSpace name : String) (s : Symbols) :
    ∃ type left, (coreType nameSpace name).run s = .ok type left := by
  unfold coreType
  rw [Steps.run_bind, Steps.run_get]
  dsimp only
  rw [Steps.run_tryCatch]
  cases (findType s.coreLibrary (nameSpace ++ "." ++ name)).run s with
  | ok type left => exact ⟨type, left, rfl⟩
  | error failure left => exact ⟨_, left, rfl⟩

end Symbols

open Symbols in
/-- The constructor for stubs can always be made, since core types need no
definition. -/
theorem Weave.stubConstructor_ok (s : Symbols) :
    ∃ constructor left, stubConstructor.run s = .ok constructor left := by
  obtain ⟨declaring, first, run⟩ := coreType_ok "System" "InvalidProgramException" s
  obtain ⟨returned, second, next⟩ := coreType_ok "System" "Void" first
  obtain ⟨message, third, last⟩ := coreType_ok "System" "String" second
  exact ⟨_, third, Steps.run_bind_ok.2 ⟨_, _, run, Steps.run_bind_ok.2 ⟨_, _, next,
    Steps.run_bind_ok.2 ⟨_, _, last, rfl⟩⟩⟩⟩

end InlineCil
