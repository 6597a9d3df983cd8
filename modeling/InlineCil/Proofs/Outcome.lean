import InlineCil.Proofs.Pass

/-!
# What weaving a method leaves behind

A method is left alone, rewritten without a trace of the vocabulary, or replaced
by a stub. The pass may stop anywhere, but only its end decides: either the last
check has found nothing of the vocabulary, or everything that was done is thrown
away. So weaving the outcome again finds nothing to do.

`Contract` says for each status what it promises. It needs no knowledge of rules:
a body that was rewritten is clean because the last step of a pass has checked
it, and a body that was given up is a stub because it was cleared first.

That weaving again changes nothing has two conditions, and both are about types
that weaving does not touch. The signature of a method may lie in the namespace
itself, so that the method always counts as using it, and the types of the stub's
exception could be there if someone defines a core library in the namespace.
-/

namespace InlineCil

/-- No operand of a linked instruction and no type of a local variable lives in the
namespace. -/
structure Body.Clean (space : String) (b : Body) : Prop where
  operands : ∀ line ∈ b.code.linked, line.instruction.operand.references space = false
  locals : ∀ found ∈ b.locals, found.type.references space = false

/-- The body throws the exception of a constructor and has nothing else. -/
structure Body.IsStub (constructor : MethodRef) (b : Body) : Prop where
  instructions : b.code.linked.map Line.instruction = Weave.stubCode constructor
  clauses : b.clauses = []
  locals : b.locals = []
  points : b.points = []
  initLocals : b.initLocals = true

/-- No type of the method's own signature lives in the namespace. -/
def Job.SignatureOutside (space : String) (j : Job) : Prop :=
  j.method.returnType.references space = false ∧
    ∀ type ∈ j.method.parameterTypes, type.references space = false

/-- No type of a list mentions the namespace if none of them does on its own. -/
theorem TypeSig.anyReferences_eq_false {space : String} {types : List TypeSig} :
    TypeSig.anyReferences space types = false ↔ ∀ type ∈ types, type.references space = false := by
  induction types with
  | nil => simp [anyReferences]
  | cons type rest ih => simp [anyReferences, ih]

/-- A method uses no markers exactly if neither its body nor its signature
mentions the namespace. -/
theorem Job.usesMarkers_eq_false {space : String} {j : Job} :
    j.usesMarkers space = false ↔ j.body.Clean space ∧ j.SignatureOutside space := by
  simp only [usesMarkers, Bool.or_eq_false_iff, List.any_eq_false, Bool.not_eq_true,
    TypeSig.anyReferences_eq_false, SignatureOutside]
  constructor
  · rintro ⟨⟨⟨operands, locals⟩, returned⟩, parameters⟩
    exact ⟨⟨operands, locals⟩, returned, parameters⟩
  · rintro ⟨⟨operands, locals⟩, returned, parameters⟩
    exact ⟨⟨⟨operands, locals⟩, returned⟩, parameters⟩

namespace Rewrite

/-- The last check looks at what the first look looks at, but for the signature.
So a body that passes is clean in the same sense in which an unchanged one is. -/
theorem checkLeftovers_eq_ok {space : String} {b : Body} :
    checkLeftovers space b = .ok () ↔ b.Clean space := by
  have operands := @List.find?_eq_none _ (·.instruction.operand.references space) b.code.linked
  have types := @List.find?_eq_none _ (·.type.references space) b.locals
  unfold checkLeftovers
  constructor
  · intro passed
    split at passed
    · simp at passed
    · simp at passed
    · next noLine noLocal =>
      exact ⟨by simpa using operands.1 noLine, by simpa using types.1 noLocal⟩
  · rintro ⟨cleanOperands, cleanLocals⟩
    rw [operands.2 (by simpa using cleanOperands), types.2 (by simpa using cleanLocals)]

/-- A pass that comes to its end leaves nothing of the vocabulary, as its last
check has found nothing. -/
theorem clean_of_run {frame : Frame} {state final : Rewriting}
    {warnings : List (Warning × Place)} (passed : (run frame).run state = .ok warnings final) :
    final.body.Clean (space frame) := by
  unfold run at passed
  obtain ⟨_, _, _, passed⟩ := Steps.run_bind_ok.1 passed
  obtain ⟨_, scanned, _, closed⟩ := Steps.run_bind_ok.1 passed
  obtain ⟨-, leftovers, rfl, -⟩ := finish_eq_ok closed
  -- Closing changes the debug points only, so what was checked is what is left.
  obtain ⟨operands, locals⟩ := checkLeftovers_eq_ok.1 leftovers
  exact ⟨operands, locals⟩

end Rewrite

namespace Body

/-- Appending an instruction adds one line at the end, at the next place. -/
theorem linked_push (b : Body) (i : Instruction) :
    (b.push i).2.code.linked = b.code.linked ++ [⟨⟨b.code.next⟩, i⟩] := by
  have waiting : b.code.detached.filter (·.isAt ⟨b.code.next⟩) = [] := by
    refine List.filter_eq_nil_iff.2 fun line member there => ?_
    have earlier := b.code.index_lt (List.mem_append_right _ member)
    have same : line.place = ⟨b.code.next⟩ := by simpa [Line.isAt] using there
    simp [same] at earlier
  have added : [Line.mk ⟨b.code.next⟩ i].filter (·.isAt ⟨b.code.next⟩) = [⟨⟨b.code.next⟩, i⟩] := by
    simp [Line.isAt]
  simp only [push, create, Code.create, Code.linkLast, List.filter_append, waiting, added,
    List.nil_append]

theorem instructions_pushAll (b : Body) (added : List Instruction) :
    (b.pushAll added).code.linked.map Line.instruction =
      b.code.linked.map Line.instruction ++ added := by
  unfold pushAll
  induction added generalizing b with
  | nil => simp
  | cons i rest ih => rw [List.foldl_cons, ih, linked_push]; simp

/-- Appending instructions changes nothing but the code. What a body has besides
is thus known without looking at what is appended. -/
theorem pushAll_eq (b : Body) (added : List Instruction) :
    ∃ code, b.pushAll added = { b with code := code } := by
  unfold pushAll
  induction added generalizing b with
  | nil => exact ⟨b.code, rfl⟩
  | cons i rest ih =>
    obtain ⟨code, same⟩ := ih (b.push i).2
    exact ⟨code, same⟩

end Body

namespace Weave

/-- A body that is given up is a stub, whatever had become of it: it is cleared
before the code of the stub is appended. -/
theorem isStub_stub (constructor : MethodRef) (b : Body) :
    (stub constructor b).IsStub constructor := by
  unfold stub
  obtain ⟨code, same⟩ := Body.pushAll_eq { b.clear with locals := [], initLocals := true }
    (stubCode constructor)
  exact {
    instructions := Body.instructions_pushAll _ _
    clauses := congrArg Body.clauses same
    locals := congrArg Body.locals same
    points := congrArg Body.points same
    initLocals := congrArg Body.initLocals same }

/-- A stub is clean if the types of its constructor are. Its other two
instructions have a text and no operand. -/
theorem clean_of_isStub {space : String} {constructor : MethodRef} {b : Body}
    (stub : b.IsStub constructor) (outside : constructor.references space = false) :
    b.Clean space where
  operands line member := by
    have instruction := List.mem_map_of_mem (f := Line.instruction) member
    rw [stub.instructions] at instruction
    simp only [stubCode, List.mem_cons, List.not_mem_nil, or_false] at instruction
    rcases instruction with found | found | found
    · simp [found, Operand.references]
    · simpa [found, Operand.references] using outside
    · simp [found, Operand.references]
  locals found member := by simp [stub.locals] at member

/-- What an outcome promises about the body that is left and about the
diagnostics. -/
structure Contract (settings : Settings) (j : Job) (woven : Woven) (outcome : Outcome) :
    Prop where
  errors : outcome.hasErrors = true ↔ outcome.status = .stubbed
  unchanged : outcome.status = .unchanged → outcome.diagnostics = [] ∧ woven.body = j.body ∧
    j.usesMarkers settings.markerNamespace = false
  rewritten : outcome.status = .rewritten → woven.body.Clean settings.markerNamespace
  stubbed : outcome.status = .stubbed → ∃ constructor reached,
    stubConstructor.run reached = .ok constructor woven.symbols ∧
      woven.body.IsStub constructor

/-- Errors among the warnings of a pass are a matter of the severity alone. -/
theorem any_isError_diagnosed (name : String) (severity : Severity) (locator : SourceLocator)
    (warnings : List (Warning × Place)) :
    (diagnosed name severity locator warnings).any (·.isError) =
      (severity = .error && !warnings.isEmpty) := by
  cases warnings with
  | nil => simp [diagnosed]
  | cons warning rest => cases severity <;> simp [diagnosed, Diagnostic.isError]

/-- Giving a body up leaves a stub and at least one error. The diagnostics are
those that it is given up for, one of which has to be an error. -/
theorem contract_of_givenUp {settings : Settings} {j : Job} {name : String}
    {diagnostics : List Diagnostic} {b : Body} {symbols : Symbols} {outcome : Outcome}
    (failed : diagnostics.any (·.isError) = true)
    (gave : (givenUp name diagnostics b symbols).result = .ok outcome) :
    Contract settings j (givenUp name diagnostics b symbols) outcome := by
  unfold givenUp at gave ⊢
  split at gave
  · next constructor left made =>
    obtain rfl := by simpa using gave
    refine ⟨by simp [Outcome.hasErrors, failed], ?_, ?_, fun _ => ?_⟩
    · rintro ⟨⟩
    · rintro ⟨⟩
    · exact ⟨constructor, symbols, made, isStub_stub constructor b⟩
  · simp at gave

/-- A pass that comes to an end is rewritten code or given up, by its last check
and by the severity of its warnings. -/
theorem contract_of_rewritten {settings : Settings} {j : Job} {optimized : Bool}
    {symbols : Symbols} {outcome : Outcome}
    (gave : (rewritten settings j optimized symbols).result = .ok outcome) :
    Contract settings j (rewritten settings j optimized symbols) outcome := by
  unfold rewritten at gave ⊢
  dsimp only at gave ⊢
  generalize passed : (Rewrite.run _).run _ = result at gave ⊢
  cases result with
  | ok warnings state =>
    cases asErrors : settings.warningsAsErrors with
    | false =>
      simp only [asErrors, Bool.false_and, Bool.false_eq_true, if_false] at gave ⊢
      obtain rfl := by simpa using gave
      refine ⟨by simp [Outcome.hasErrors, any_isError_diagnosed], ?_, fun _ => ?_, ?_⟩
      · rintro ⟨⟩
      · exact Rewrite.clean_of_run passed
      · rintro ⟨⟩
    | true =>
      simp only [asErrors, Bool.true_and, if_true] at gave ⊢
      cases warnings with
      | nil =>
        obtain rfl := by simpa [diagnosed] using gave
        refine ⟨by simp [Outcome.hasErrors], ?_, fun _ => ?_, ?_⟩
        · rintro ⟨⟩
        · exact Rewrite.clean_of_run passed
        · rintro ⟨⟩
      | cons warning rest => exact contract_of_givenUp (by simp [any_isError_diagnosed]) gave
  | error failure state =>
    dsimp only at gave ⊢
    split at gave
    · next recoverable =>
      rw [if_pos recoverable]
      exact contract_of_givenUp (by simp [refusal, Diagnostic.isError]) gave
    · simp at gave

/-- Whenever weaving a method has an outcome, the outcome says what became of the
body: nothing, code without a trace of the vocabulary, or a stub; and exactly a
stub comes with errors.

Weaving what is left changes nothing more, unless the signature of the method or
the types of the stub themselves lie in the namespace. -/
theorem method_contract (settings : Settings) (j : Job) (symbols : Symbols) (outcome : Outcome)
    (gave : (method settings j symbols).result = .ok outcome) :
    Contract settings j (method settings j symbols) outcome ∧
      (j.SignatureOutside settings.markerNamespace →
        (∀ constructor, (method settings j symbols).body.IsStub constructor →
          constructor.references settings.markerNamespace = false) →
        ∀ again, method settings { j with body := (method settings j symbols).body } again =
          ⟨.ok ⟨j.displayName, .unchanged, []⟩, (method settings j symbols).body, again⟩) := by
  have contract : Contract settings j (method settings j symbols) outcome := by
    unfold method at gave ⊢
    split at gave
    · next unused =>
      rw [if_pos unused]
      obtain rfl := by simpa using gave
      refine ⟨by simp [Outcome.hasErrors], fun _ => ⟨rfl, rfl, by simpa using unused⟩, ?_, ?_⟩ <;>
        rintro ⟨⟩
    · next used =>
      rw [if_neg used]
      split at gave
      · simp at gave
      · exact contract_of_rewritten gave
  refine ⟨contract, fun signature types again => ?_⟩
  have clean : (method settings j symbols).body.Clean settings.markerNamespace := by
    cases status : outcome.status with
    | unchanged =>
      obtain ⟨-, same, unused⟩ := contract.unchanged status
      rw [same]
      exact (Job.usesMarkers_eq_false.1 unused).1
    | rewritten => exact contract.rewritten status
    | stubbed =>
      obtain ⟨constructor, -, -, stub⟩ := contract.stubbed status
      exact clean_of_isStub stub (types constructor stub)
  have unused : Job.usesMarkers settings.markerNamespace
      { j with body := (method settings j symbols).body } = false :=
    Job.usesMarkers_eq_false.2 ⟨clean, signature⟩
  rw [method, unused]
  rfl

/-- The symbols of a module that defines no types. -/
def emptyProgram : Symbols :=
  .ofCurrent { name := "Program.dll", assembly := "Program" } "System.Private.CoreLib"

/-- A method that claims to be unreachable but returns. -/
def returningJob : Job where
  declaringType := { nameSpace := "Program", name := "Main" }
  method := { name := "Run", returnType := emptyProgram.undefinedCoreType "System" "Void" }
  body := ({} : Body).pushAll
    [⟨.call, .method
      { declaringType := .named
          { scope := "InlineIL", nameSpace := "InlineIL", name := "IL", isValueType := false }
        name := "Unreachable"
        returnType := emptyProgram.undefinedCoreType "System" "Void" }⟩, ⟨.ret, .none⟩]

/-- The method is stubbed, and weaving the stub leaves it alone. Its body claims
to be unreachable and returns instead of throwing, and its signature mentions no
marker. -/
theorem method_contract_returningJob :
    (∃ outcome, outcome.status = .stubbed ∧
      Contract {} returningJob (method {} returningJob emptyProgram) outcome) ∧
    ∀ again, method {} { returningJob with body := (method {} returningJob emptyProgram).body }
      again = ⟨.ok ⟨returningJob.displayName, .unchanged, []⟩,
        (method {} returningJob emptyProgram).body, again⟩ := by
  obtain ⟨contract, still⟩ := method_contract {} returningJob emptyProgram _ rfl
  refine ⟨⟨_, rfl, contract⟩, still ⟨rfl, by decide⟩ fun constructor stub => ?_⟩
  have same : stubCode
      { declaringType := emptyProgram.undefinedCoreType "System" "InvalidProgramException"
        name := ".ctor"
        hasThis := true
        returnType := emptyProgram.undefinedCoreType "System" "Void"
        parameters := [emptyProgram.undefinedCoreType "System" "String"] } =
      stubCode constructor := stub.instructions
  obtain rfl := by simpa [stubCode] using same
  decide

end Weave

end InlineCil
