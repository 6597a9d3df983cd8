import InlineCil.Proofs.Framing.Whole
import InlineCil.Proofs.Integrity.Rules

/-!
# Weaving never breaks a method

A pass over a sound body ends with a sound body, is refused for a reason in the
code, or refuses to remove the last instruction while a clause names it. So
weaving a method gives an outcome, and what it leaves is sound again, whether it
was left alone, rewritten or given up.

Soundness of a body is what a reader of assemblies can expect: operands of the
kinds that opcodes take, and references that do not dangle. It is decidable, and
`Body.validate` checks a part of it. A body that is given up is replaced by a
stub, which is sound whatever was left of the pass.

`Settles` names the one exception. Code that is protected and never reached may
consist of nothing but calls that leave; the last of them cannot, as long as the
clause has to have a border somewhere. The refusal is an internal fault and not
an outcome.
-/

namespace InlineCil

/-- Every operand fits its opcode, and every branch and every border of a clause
is at a linked place. -/
structure Body.Sound (b : Body) : Prop where
  fitting : b.Fitting
  live : b.Live

instance (b : Body) : Decidable b.Sound :=
  decidable_of_iff
    ((∀ line ∈ b.code.linked, line.instruction.isWellTyped = true) ∧
      (∀ line ∈ b.code.linked, ∀ place ∈ line.instruction.targets, place ∈ b.code.places) ∧
      ∀ clause ∈ b.clauses, ∀ place ∈ clause.borders, place ∈ b.code.places)
    ⟨fun ⟨fitting, targets, borders⟩ => ⟨fitting, targets, borders⟩,
      fun ⟨fitting, targets, borders⟩ => ⟨fitting, targets, borders⟩⟩

namespace Symbols

variable {s : Symbols}

/-- The module being woven is registered. -/
def Rooted (s : Symbols) : Prop := (s.registered? s.current).isSome

/-- The module being woven is registered from the beginning on. -/
theorem rooted_ofCurrent (module : Module) (coreLibrary : String) :
    (ofCurrent module coreLibrary).Rooted := by
  simp [Rooted, ofCurrent, add, registered?]

end Symbols

namespace LabelTable

/-- What is refused about a label is refused for a reason in the code. -/
theorem ofCode_verdict (label : Label) : OfCode (verdict label) := by
  unfold verdict
  split <;> simp

/-- The verdicts on all labels fail for reasons in the code only, by induction on
the labels. -/
theorem ofCode_verdicts (labels : List Label) : OfCode (labels.mapM verdict) := by
  induction labels with
  | nil => exact .of_pure []
  | cons label rest ih =>
    rw [List.mapM_cons]
    exact (ofCode_verdict label).bind fun _ => ih.bind fun _ => .of_pure _

/-- A label that is branched to is marked, or it is refused. So where the verdict
passes, a use is enough to conclude a mark. -/
theorem defined_of_verdict {label : Label} {warning : Option (Warning × Place)}
    (passed : verdict label = .ok warning) (used : label.firstUse.isSome) :
    label.definedAt.isSome := by
  unfold verdict at passed
  split at passed
  · simp at passed
  · next unused _ => simp [unused] at used
  · next undefined _ =>
    obtain ⟨branch, branches⟩ := Option.isSome_iff_exists.1 used
    exact Option.isSome_iff_ne_none.2 (undefined branch branches)

theorem ofCode_finish (t : LabelTable) : OfCode t.finish :=
  (ofCode_verdicts t.labels).bind fun _ => .of_pure _

/-- If the table is accepted, every label that is branched to is marked. The
table is accepted only if each of its labels is. -/
theorem defined_of_finish {t : LabelTable} {warnings : List (Warning × Place)}
    (passed : t.finish = .ok warnings) :
    ∀ label ∈ t.labels, label.firstUse.isSome → label.definedAt.isSome := by
  unfold finish at passed
  cases found : t.labels.mapM verdict with
  | error failure => simp [found, bind, Except.bind] at passed
  | ok verdicts =>
    intro label member used
    obtain ⟨warning, passed⟩ := Steps.exists_of_mapM found label member
    exact defined_of_verdict passed used

end LabelTable

namespace Rewrite

variable {fair : Prop} {frame : Frame} {original : Body} {state : Rewriting}

theorem ofCode_checkLeftovers (space : String) (b : Body) : OfCode (checkLeftovers space b) := by
  unfold checkLeftovers
  split <;> simp

/-- When every label that is branched to is marked, no reference dangles: a
branch goes to a linked line or to a label, and labels that are marked are
linked. -/
theorem live_of_intact (intact : Intact fair original state)
    (defined : ∀ label ∈ state.labels.labels, label.firstUse.isSome → label.definedAt.isSome) :
    state.body.Live where
  targets line member place goes := by
    rcases intact.targets line member place goes with linked | ⟨label, known, rfl, used⟩
    · exact linked
    · exact intact.tied.standing label known (defined label known used)
  borders := intact.borders

/-- Closing a pass cannot fail but for reasons in the code. The validation at its
end has nothing to refuse, since the references are live. -/
theorem meets_finish (intact : Intact fair original state) :
    Steps.Meets (finish frame) state
      (fun _ final => final.body.Live ∧ (fair → final.body.Fitting))
      fun failure left => fair → Tolerable failure left := by
  refine Steps.meets_get ?_
  refine Steps.Meets.bind (upholds_liftExcept intact (LabelTable.ofCode_finish _))
    fun unused _ labels _ => ?_
  obtain ⟨passed, rfl⟩ := Steps.run_liftExcept_eq_ok.1 labels
  have live := live_of_intact intact (LabelTable.defined_of_finish passed)
  refine Steps.Meets.bind (upholds_liftExcept intact (ofCode_checkLeftovers _ _))
    fun _ _ checking _ => ?_
  obtain ⟨-, rfl⟩ := Steps.run_liftExcept_eq_ok.1 checking
  -- Debug points are brought into order, and nothing else.
  have still : (PointMap.finish state.body).Live := ⟨live.targets, live.borders⟩
  refine meets_setBody (meets_body ?_)
  rw [Body.validate_ok still]
  exact ⟨still, intact.fitting⟩

/-- A whole pass over a body without dangling references ends with one, and on a
fair method it fails tolerably. -/
theorem meets_run {symbols : Symbols} (blocks : frame.blocks = Blocks.ofBody original)
    (live : original.Live) (fitting : fair → original.Fitting)
    (loader : fair → symbols.loader = none)
    (few : fair → frame.method.parameters.length < 65535)
    (room : fair → original.locals.length < LocalTable.capacity) :
    Steps.Meets (run frame) { body := original, symbols }
      (fun _ final => final.body.Live ∧ (fair → final.body.Fitting))
      fun failure left => fair → Tolerable failure left := by
  have onward := (Framed.initial frame original symbols blocks).onward
  have intact : Intact fair original { body := original, symbols } :=
    .initial live fitting loader
  exact meets_body (Steps.Meets.bind (intact.upholds_scan few room onward _)
    fun _ left _ kept => meets_finish kept)

end Rewrite

namespace Weave

/-- A stub is sound: it has no branches and no clauses. Its three instructions
have operands of the kinds that their opcodes take. -/
theorem sound_of_isStub {constructor : MethodRef} {b : Body} (stub : b.IsStub constructor) :
    b.Sound := by
  have among {line : Line} (member : line ∈ b.code.linked) :
      line.instruction.isWellTyped = true ∧ line.instruction.targets = [] := by
    have code := List.mem_map_of_mem (f := Line.instruction) member
    rw [stub.instructions] at code
    simp only [stubCode, List.mem_cons, List.not_mem_nil, or_false] at code
    rcases code with same | same | same <;> rw [same] <;> exact ⟨rfl, rfl⟩
  refine ⟨fun line member => (among member).1, fun line member place goes => ?_, ?_⟩
  · simp [(among member).2] at goes
  · simp [stub.clauses]

/-- A body that is given up becomes a stub, always. The constructor it needs is
found in the core library or taken to be there. -/
theorem sound_of_givenUp (name : String) (diagnostics : List Diagnostic) (b : Body)
    (symbols : Symbols) :
    (∃ outcome, (givenUp name diagnostics b symbols).result = .ok outcome) ∧
      (givenUp name diagnostics b symbols).body.Sound := by
  obtain ⟨constructor, left, made⟩ := stubConstructor_ok symbols
  unfold givenUp
  rw [made]
  exact ⟨⟨_, rfl⟩, sound_of_isStub (isStub_stub constructor b)⟩

/-- What weaving a method comes to if nothing but its code is at fault: an
outcome with a sound body, or the refusal to remove the last instruction while a
clause names it. -/
def Settles (j : Job) (woven : Woven) : Prop :=
  ((∃ outcome, woven.result = .ok outcome) ∧ woven.body.Sound) ∨
    ∃ place, woven.result = .error (.inMethod j.displayName (.ofFault (.lastReferenced place))) ∧
      woven.body.code.places = [place] ∧ ∃ clause ∈ woven.body.clauses, clause.names place = true

/-- A pass that ends leaves a sound body, and so does a pass that is given up.
What is left is the refusal that no pass can help. -/
theorem settles_rewritten {settings : Settings} {j : Job} {optimized : Bool} {symbols : Symbols}
    (sound : j.body.Sound) (locals : j.body.locals.length ≤ 65535)
    (parameters : j.method.parameters.length < 65535) (loader : symbols.loader = none) :
    Settles j (rewritten settings j optimized symbols) := by
  have meets (frame : Frame) (blocks : frame.blocks = Blocks.ofBody j.body)
      (own : frame.method = j.method) :
      Steps.Meets (Rewrite.run frame) { body := j.body, symbols }
        (fun _ final => final.body.Sound) Tolerable :=
    (Rewrite.meets_run blocks sound.live (fun _ : True => sound.fitting) (fun _ => loader)
      (fun _ => own ▸ parameters) fun _ => Nat.lt_succ_of_le locals).mono
        (fun _ _ held => ⟨held.2 trivial, held.1⟩) fun _ _ tolerable => tolerable trivial
  unfold rewritten
  dsimp only
  have met := meets ⟨settings, j.method, Blocks.ofBody j.body, settings.points.enabled optimized⟩
    rfl rfl
  unfold Steps.Meets at met
  generalize (Rewrite.run _).run _ = result at met ⊢
  cases result with
  | ok warnings final =>
    dsimp only at met ⊢
    generalize diagnosed _ _ _ _ = diagnostics
    split
    · exact .inl (sound_of_givenUp _ _ _ _)
    · exact .inl ⟨⟨_, rfl⟩, met⟩
  | error failure final =>
    dsimp only at met ⊢
    split
    · exact .inl (sound_of_givenUp _ _ _ _)
    · next fatal =>
      obtain ⟨place, rfl, alone⟩ := met.resolve_left fatal
      exact .inr ⟨place, rfl, alone⟩

/-- Weaving never breaks a method. If the operands of a body fit their opcodes,
its references are linked, it has indices left for local variables and
parameters, and nothing loads modules, then weaving gives an outcome under all
settings, and the body it leaves is sound again, woven or not.

The only exception is the refusal to remove the last instruction while a clause
names it. -/
theorem method_settles (settings : Settings) (j : Job) (symbols : Symbols) (sound : j.body.Sound)
    (locals : j.body.locals.length ≤ 65535) (parameters : j.method.parameters.length < 65535)
    (loader : symbols.loader = none) (rooted : symbols.Rooted) :
    Settles j (method settings j symbols) := by
  obtain ⟨current, known⟩ := Option.isSome_iff_exists.1 rooted
  have found : symbols.currentModule = .ok current := by simp [Symbols.currentModule, known]
  unfold method
  split
  · exact .inl ⟨⟨_, rfl⟩, sound⟩
  · rw [found]
    exact settles_rewritten sound locals parameters loader

/-- A method whose only instructions are protected by a clause and never reached. -/
def unreachableJob : Job where
  declaringType := { nameSpace := "Program", name := "Main" }
  method := { name := "Run", returnType := emptyProgram.undefinedCoreType "System" "Void" }
  body :=
    { ({} : Body).pushAll [primitiveCall "Unreachable" [], ⟨.throw, .none⟩] with
      clauses := [⟨0, ⟨0⟩, some ⟨1⟩, none, ⟨1⟩, none, none⟩] }

/-- Both outcomes occur. A method that marks a label is rewritten, and its body
is sound. One that has nothing but a protected call, which is never reached,
cannot lose its last instruction. -/
theorem method_settles_woven_or_refused :
    (markingJob.body.Sound ∧ Settles markingJob (method {} markingJob emptyProgram) ∧
      (method {} markingJob emptyProgram).result.toOption.map Outcome.status = some .rewritten ∧
      (method {} markingJob emptyProgram).body.Sound) ∧
    (unreachableJob.body.Sound ∧ Settles unreachableJob (method {} unreachableJob emptyProgram) ∧
      (method {} unreachableJob emptyProgram).result =
        .error (.inMethod unreachableJob.displayName (.ofFault (.lastReferenced ⟨1⟩)))) := by
  have marking : markingJob.body.Sound := by decide
  have protecting : unreachableJob.body.Sound := by decide
  have woven := method_settles {} markingJob emptyProgram marking (by decide) (by decide) rfl
    (Symbols.rooted_ofCurrent _ _)
  have refused := method_settles {} unreachableJob emptyProgram protecting (by decide) (by decide)
    rfl (Symbols.rooted_ofCurrent _ _)
  refine ⟨⟨marking, woven, by decide +kernel, ?_⟩, protecting, refused, rfl⟩
  -- The method gave an outcome, so it is the first alternative that holds of it.
  rcases woven with ⟨-, kept⟩ | ⟨place, failed, -⟩
  · exact kept
  · have gave : (method {} markingJob emptyProgram).result.isOk = true := rfl
    rw [failed] at gave
    contradiction

end Weave

end InlineCil
