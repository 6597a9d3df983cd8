import InlineCil.Proofs.Expression.Exactness

/-!
# The arguments of the marker calls that act

Three markers read arguments: the one that marks a label, the one that declares
local variables, and the emitting ones. What they read is put together from
argument expressions, so their readers are exact as well. The opcodes that may
appear in arguments are few: none of them stores into a variable or ends a block.

`EmitParameter.form?` gives the kind of expression that an emitting method takes
for each kind of its parameter, so that emitting methods need no grammar of their
own. `Marker.Reads` collects what the three markers read in one relation, which
results about passes refer to when they say that a line was an argument.

The second half is about what the code of arguments cannot hold.
`Instruction.IsPart` bounds the instructions of every expression, by induction on
the grammar. From the opcodes alone it follows that control goes on from an
argument to what comes next, that arguments do not branch, and that a line which
a rule has composed is not read as an argument later.
-/

namespace InlineCil

/-- A constant as a floating-point number. -/
def Constant.widened : Constant → Binary64
  | .int32 value => .ofInt value.toInt
  | .int64 value => .ofInt value.toInt
  | .float value => value

/-- What an emitting method with the parameter takes: the kind of the expression
and the argument that its value stands for. -/
def EmitParameter.form? : EmitParameter → Option ((k : ArgumentKind) × (k.Value → Argument))
  | .none => Option.none
  | .int8 | .uint8 | .int16 | .uint16 | .int32 | .uint32 | .int64 | .uint64 =>
      some ⟨.integer, .integer⟩
  | .float32 | .float64 => some ⟨.constant, fun value => .float value.widened⟩
  | .string => some ⟨.string, .string⟩
  | .stringArray => some ⟨.array .string, .labels⟩
  | .typeReference => some ⟨.type false, .type⟩
  | .methodReference => some ⟨.method, .method⟩
  | .fieldReference => some ⟨.field, .field⟩
  | .signature => some ⟨.signature, .signature⟩

/-- The argument of an emitting call, which may take none. -/
inductive EmitArgument (space : String) (parameter : EmitParameter) : Type where
  | nothing (formless : parameter.form? = none)
  | given (k : ArgumentKind) (view : k.Value → Argument)
      (form : parameter.form? = some ⟨k, view⟩) (e : Expression space k)

namespace EmitArgument

variable {space : String} {parameter : EmitParameter}

/-- The instructions of the argument. -/
def code : EmitArgument space parameter → List Instruction
  | .nothing _ => []
  | .given _ _ _ e => e.code

/-- What the argument denotes. -/
def denote : EmitArgument space parameter → Resolving Argument
  | .nothing _ => return .none
  | .given _ view _ e => view <$> e.denote

end EmitArgument

/-- The arguments of a declaration of local variables: whether they start at
zero, if the overload says so, and their declarations. -/
structure DeclarationArguments (space : String) (hasInitFlag : Bool) where
  init : Expression space (.optional hasInitFlag .integer)
  declared : Expression space (.array .localVariable)

namespace DeclarationArguments

variable {space : String} {hasInitFlag : Bool}

/-- The instructions of the arguments. -/
def code (a : DeclarationArguments space hasInitFlag) : List Instruction :=
  a.init.code ++ a.declared.code

/-- What the arguments denote. -/
def denote (a : DeclarationArguments space hasInitFlag) :
    Resolving (List LocalDeclaration × Bool) := do
  let declared ← a.declared.denote
  let init ← a.init.denote
  return (declared, (init.map (· != 0)).getD true)

end DeclarationArguments

/-- Code that a marker reads before its call. -/
inductive Marker.Reads (space : String) : Marker → List Instruction → Prop where
  | label (name : Expression space .string) : Reads space (.primitive .markLabel) name.code
  | declarations {hasInitFlag : Bool} (a : DeclarationArguments space hasInitFlag) :
      Reads space (.primitive (.declareLocals hasInitFlag)) a.code
  | emitted (opcode : Opcode) {parameter : EmitParameter} (a : EmitArgument space parameter) :
      Reads space (.emit opcode parameter) a.code

namespace Reader

variable {site : Site}

/-- A floating-point number is read as a constant and widened, so its reader
needs no lemma beyond that of constants. -/
theorem float_eq (site : Site) (bound : Nat) :
    float site bound = Constant.widened <$> constant site bound := by
  rw [map_eq_pure_bind]
  refine congrArg (constant site bound >>= ·) (funext fun value => ?_)
  cases value <;> rfl

/-- The reader of an argument is that of its form. So what holds of the readers
of expressions holds of what emitting calls read, without a case for each
parameter. -/
theorem argument_eq (site : Site) (bound : Nat) (parameter : EmitParameter) :
    argument site bound parameter =
      match parameter.form? with
      | none => return .none
      | some ⟨k, view⟩ => view <$> expression site k bound bound := by
  cases parameter <;> try rfl
  all_goals
    simp only [argument, float_eq, Functor.map_map]
    rfl

/-- The reader of declarations is put together from those of two expressions. The
flag is the first argument and is read last. -/
theorem declarations_eq (site : Site) (bound : Nat) (hasInitFlag : Bool) :
    Rewrite.declarations hasInitFlag site bound = (do
      let declared ← expression site (.array .localVariable) bound bound
      let init ← expression site (.optional hasInitFlag .integer) bound bound
      return (declared, (init.map (· != 0)).getD true)) := by
  cases hasInitFlag with
  | false => rfl
  | true =>
    simp only [Rewrite.declarations, expression, optional, if_true, map_eq_pure_bind, bind_assoc,
      pure_bind]
    rfl

/-- The code of an argument that stands before its call is read as the argument.
A parameter without a form takes nothing and reads nothing. -/
theorem follows_argument {parameter : EmitParameter} (a : EmitArgument site.space parameter)
    (bound : Nat) (enough : a.code.length ≤ bound) :
    Follows site (argument site bound parameter) a.code a.denote := by
  rw [argument_eq]
  cases a with
  | nothing formless =>
    rw [formless]
    exact Follows.given _
  | given k view form e =>
    rw [form]
    exact (follows_expression e bound bound enough enough).mapped view

/-- A reading of an argument that succeeded took the code of one. This is the
converse of `follows_argument` as far as readings that succeed go. -/
theorem gathers_argument {state left : Reading} {bound : Nat} {parameter : EmitParameter}
    {value : Argument}
    (reading : (argument site bound parameter).run state = .ok value left) :
    ∃ a : EmitArgument site.space parameter, Gathered site state a.code a.denote value left := by
  rw [argument_eq] at reading
  split at reading
  · next formless =>
    obtain ⟨rfl, rfl⟩ := by simpa using reading
    exact ⟨.nothing formless, .given _⟩
  · next k view form =>
    obtain ⟨found, run, rfl⟩ := Steps.run_map_ok.1 reading
    obtain ⟨e, lines, took, held, means⟩ := recovers_expression k bound bound _ _ _ run
    exact ⟨.given k view form e, lines, took, held, Steps.run_map_ok.2 ⟨found, means, rfl⟩⟩

/-- The code of declarations that stands before its call is read as the
declarations. The array is nearest to the call and is read first, then the flag
if there is one. -/
theorem follows_declarations {hasInitFlag : Bool}
    (a : DeclarationArguments site.space hasInitFlag) (bound : Nat)
    (enough : a.code.length ≤ bound) :
    Follows site (Rewrite.declarations hasInitFlag site bound) a.code a.denote := by
  obtain ⟨initRoom, declaredRoom⟩ := bound_of_append enough
  rw [declarations_eq]
  exact (follows_expression a.declared bound bound declaredRoom declaredRoom).bind fun declared =>
    Follows.last (follows_expression a.init bound bound initRoom initRoom)
      fun init => Follows.given _

/-- A reading of declarations that succeeded took the code of an array of
declarations and, if the overload has it, of the flag before it. -/
theorem gathers_declarations {state left : Reading} {bound : Nat} {hasInitFlag : Bool}
    {value : List LocalDeclaration × Bool}
    (reading : (Rewrite.declarations hasInitFlag site bound).run state = .ok value left) :
    ∃ a : DeclarationArguments site.space hasInitFlag,
      Gathered site state a.code a.denote value left := by
  rw [declarations_eq] at reading
  obtain ⟨declared, middle, run, reading⟩ := Steps.run_bind_ok.1 reading
  obtain ⟨declaredCode, declaredRead⟩ := recovers_expression _ _ _ _ _ _ run
  obtain ⟨init, after, run, reading⟩ := Steps.run_bind_ok.1 reading
  obtain ⟨initCode, initRead⟩ := recovers_expression _ _ _ _ _ _ run
  obtain ⟨rfl, rfl⟩ := by simpa using reading
  exact ⟨⟨initCode, declaredCode⟩, declaredRead.bind (initRead.last (.given _))⟩

end Reader

/-- An opcode that may appear in the code of an argument and calls nothing. -/
def Opcode.isPassive (opcode : Opcode) : Bool :=
  opcode.isElementStore || opcode.conversion?.isSome || opcode.implicitConstant.isSome ||
    [.newarr, .dup, .ldstr, .ldtoken, .ldcI4S, .ldcI4, .ldcI8, .ldcR4, .ldcR8].contains opcode

/-- An opcode that may appear in the code of an argument. -/
def Opcode.isArgumental (opcode : Opcode) : Bool := opcode.isCall || opcode.isPassive

/-- An opcode that calls nothing is no call, so the two ways to be a part of an
argument exclude each other. -/
theorem Opcode.isCall_of_isPassive {opcode : Opcode} (passive : opcode.isPassive = true) :
    opcode.isCall = false := by
  cases opcode <;> first | rfl | exact absurd passive (by decide)

theorem Opcode.endsBlock_of_isArgumental {opcode : Opcode}
    (argumental : opcode.isArgumental = true) : opcode.flow.endsBlock = false := by
  cases opcode <;> first | rfl | exact absurd argumental (by decide)

/-- No argument branches, so none of them names a place. -/
theorem Opcode.kind_of_isArgumental {opcode : Opcode} (argumental : opcode.isArgumental = true) :
    opcode.kind.isTarget = false ∧ opcode.kind ≠ .switch := by
  cases opcode <;> first | exact ⟨rfl, by decide⟩ | exact absurd argumental (by decide)

/-- The instruction may be part of an argument: it calls a builder, or it calls
nothing. -/
def Instruction.IsPart (space : String) (i : Instruction) : Prop :=
  i.opcode.isPassive = true ∨ ∃ b, i.Calls space b

namespace Instruction

variable {space : String} {i : Instruction}

/-- What loads a constant is told by the opcode. The operand matters for the
value only, so no instruction that branches or calls can be taken for a constant. -/
theorem isPassive_of_literal? {value : Constant} (loads : Reader.literal? i = some value) :
    i.opcode.isPassive = true := by
  unfold Reader.literal? at loads
  split at loads
  · next opcode _ => rw [opcode]; rfl
  · next opcode _ => rw [opcode]; rfl
  · next opcode _ => rw [opcode]; rfl
  · unfold Instruction.constant32? at loads
    split at loads
    · next opcode _ => rw [opcode]; rfl
    · next opcode _ => rw [opcode]; rfl
    · cases implicit : i.opcode.implicitConstant with
      | none => simp [implicit] at loads
      | some constant => simp [Opcode.isPassive, implicit]

/-- A part of an argument has an opcode that arguments may have, whether it is
passive or calls a builder. -/
theorem IsPart.isArgumental (part : i.IsPart space) : i.opcode.isArgumental = true := by
  rcases part with passive | ⟨b, calls⟩
  · simp [Opcode.isArgumental, passive]
  · simp [Opcode.isArgumental, calls.isCall]

end Instruction

/-- Code whose instructions may be parts of arguments. -/
def Argumental (space : String) (code : List Instruction) : Prop := ∀ i ∈ code, i.IsPart space

namespace Argumental

variable {space : String} {first second : List Instruction} {i : Instruction}

theorem nothing : Argumental space [] := by
  intro i member
  simp at member

theorem alone (passive : i.opcode.isPassive = true) : Argumental space [i] := by
  intro j member
  obtain rfl := List.mem_singleton.1 member
  exact .inl passive

theorem append (earlier : Argumental space first) (later : Argumental space second) :
    Argumental space (first ++ second) :=
  List.forall_mem_append.2 ⟨earlier, later⟩

theorem call {b : Builder} (arguments : Argumental space first) (calls : i.Calls space b) :
    Argumental space (first ++ [i]) := by
  refine arguments.append fun j member => ?_
  obtain rfl := List.mem_singleton.1 member
  exact .inr ⟨b, calls⟩

end Argumental

open Argumental in
/-- All instructions of an expression may be parts of arguments, by induction on
the expression. Every constructor adds a call, a literal or one of the
instructions of an array, each of which may be such a part, to the code of its
parts. -/
theorem Expression.argumental {space : String} {k : ArgumentKind} (e : Expression space k) :
    Argumental space e.code := by
  have creating {i : Instruction} (creates : i.opcode = .newarr) : Argumental space [i] :=
    alone (by rw [creates]; rfl)
  have storing {i : Instruction} (stores : i.opcode.isElementStore = true) :
      Argumental space [i] := alone (by simp [Opcode.isPassive, stores])
  have duplicating {i : Instruction} (duplicates : i.opcode = .dup) : Argumental space [i] :=
    alone (by rw [duplicates]; rfl)
  induction e with
  | literal load value loads => exact alone (Instruction.isPassive_of_literal? loads)
  | converted inner convert conversion converts ih =>
    exact ih.append (alone (by simp [Opcode.isPassive, converts]))
  | whole inner ih => exact ih
  | text value => exact alone rfl
  | emptyArray call calls => exact nothing.call calls
  | createdArray length create creates ih => exact ih.append (creating creates)
  | filledArray length elements store stores lengths groups =>
    exact (lengths.append groups).append (storing stores)
  | firstElement create duplicate creates duplicates index value indices values =>
    exact (((creating creates).append (duplicating duplicates)).append indices).append values
  | nextElement earlier store duplicate stores duplicates index value groups indices values =>
    exact (((groups.append (storing stores)).append (duplicating duplicates)).append
      indices).append values
  | absent => exact nothing
  | present inner ih => exact ih
  | typeToken sig call calls => exact (alone rfl).call calls
  | wrapped wrapping element call calls ih => exact ih.call calls
  | arrayOfRank element rank call calls elements ranks => exact (elements.append ranks).call calls
  | genericInstance definition arguments call calls definitions types =>
    exact (definitions.append types).call calls
  | ofReflected inner call calls ih => exact ih.call calls
  | ofName assembly name call calls assemblies names =>
    exact (assemblies.append names).call calls
  | ofTypeArgument call calls => exact nothing.call calls
  | modified required element modifier call calls elements modifiers =>
    exact (elements.append modifiers).call calls
  | parameterOwner owner call calls => exact nothing.call calls
  | genericParameter owner index call calls owners indices =>
    exact (owners.append indices).call calls
  | method on name arity parameters call calls types names arities lists =>
    exact (((types.append names).append arities).append lists).call calls
  | accessor role on name call calls types names => exact (types.append names).call calls
  | constructor on parameters call calls types lists => exact (types.append lists).call calls
  | typeInitializer on call calls ih => exact ih.call calls
  | unaryOperator on number call calls types numbers => exact (types.append numbers).call calls
  | binaryOperator on number left right call calls types numbers lefts rights =>
    exact (((types.append numbers).append lefts).append rights).call calls
  | conversionOperator on kind direction other call calls types kinds directions others =>
    exact (((types.append kinds).append directions).append others).call calls
  | genericMethod definition arguments call calls definitions types =>
    exact (definitions.append types).call calls
  | optionalOfMethod declared parameters call calls methods types =>
    exact (methods.append types).call calls
  | field on name call calls types names => exact (types.append names).call calls
  | signature managed convention returnType parameters call calls conventions types lists =>
    exact ((conventions.append types).append lists).call calls
  | optionalOfSignature declared parameters call calls signatures types =>
    exact (signatures.append types).call calls
  | localVariable name type call calls names types => exact (names.append types).call calls
  | pinned declared call calls ih => exact ih.call calls

/-- All that a marker reads may be parts of arguments. So what a rule leaves
behind is told from arguments by its opcode. -/
theorem Marker.Reads.argumental {space : String} {marker : Marker} {code : List Instruction}
    (reads : marker.Reads space code) : Argumental space code := by
  cases reads with
  | label name => exact name.argumental
  | declarations a => exact a.init.argumental.append a.declared.argumental
  | emitted opcode a =>
    cases a with
    | nothing formless => exact .nothing
    | given k view form e => exact e.argumental

end InlineCil
