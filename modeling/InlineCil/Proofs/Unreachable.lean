import InlineCil.Proofs.Locality

/-!
# The throw after unreachable code

Whether others need the throw that leaves with a call for unreachable code is
told by the blocks alone. In the block of the call nothing names it. In a block
of its own something does, and then goes to what comes after the throw. The rule
does not look at blocks, so it takes both.

The first half of the argument is the locality of a pass: a line that is not the
first of its block is not named. The second goes back to the original body. A
call ends no block, so a throw right after it begins one only because it is
named, and what is named originally still is, since the lines that leave have no
branches of their own.

`Visits.named_sharingJob` follows a method in which this happens. A conditional
branch goes to the throw, the call before the throw says that it is never
reached, and the woven method returns where it threw before.
-/

namespace InlineCil

variable {frame : Frame} {original b left : Body} {occ : Occupancy} {line : Line}
  {unread pending rest : List Line} {state final : Rewriting} {cursor : Option Place}

theorem Line.endsBlock_of_marks {space : String} {marker : Marker} (marks : line.Marks space marker) :
    line.instruction.opcode.flow.endsBlock = false := by
  cases called : line.instruction.opcode.isCall with
  | true => exact Opcode.endsBlock_of_isArgumental (by simp [Opcode.isArgumental, called])
  | false => simp [Marks, Instruction.marker?, Instruction.calledMethod?, called] at marks

/-- Lines that branch do not leave. Marker calls and throws have no targets, and
what a call reads is put together from instructions that have none either, in
code whose operands fit. -/
theorem Leaves.targets {space : String} {takings : List Taking}
    (leaves : Leaves space original takings line) (history : Takings space original takings)
    (member : line ∈ original.code.linked) (fits : line.instruction.isWellTyped = true) :
    line.instruction.targets = [] := by
  cases leaves with
  | marker marks => exact Instruction.targets_of_marker? marks
  | argument taken part =>
    obtain ⟨earlier, right⟩ := history.fits_of_mem taken
    obtain ⟨now, read, as⟩ := right.read_of_mem member part
    cases as with
    | emitted marks here => exact Instruction.targets_of_marker? marks
    | kept move same =>
      have moved := (right.reads.argumental _ (List.mem_map_of_mem read)).targets
        (by rw [same]; simpa using fits)
      rw [same] at moved
      simpa [Instruction.targets_moveTargets] using moved
  | thrown _ _ throws => exact Intact.targets_of_throw throws fits

namespace Framed

/-- What was named originally still is: what stands first at or after it is
named. A line that leaves names nothing, so no name is lost. -/
theorem named_of_resting (framed : Framed frame original occ unread pending state)
    (fitting : original.Fitting) {place found : Place}
    (named : place ∈ Blocks.namedPlaces original)
    (rests : occ.resting original.code.linked place = some found) :
    found ∈ Blocks.namedPlaces state.body := by
  have starts := Occupancy.start_of_resting rests
  rcases Blocks.mem_namedPlaces.1 named with ⟨origin, member, goes⟩ | ⟨clause, member, border⟩
  · have branches : origin.instruction.targets ≠ [] := List.ne_nil_of_mem goes
    obtain ⟨takings, account⟩ := framed.placed.account
    have fate := account.fates origin member
    cases stands : occ origin.place with
    | none =>
      exact absurd ((fate.leaves stands).targets account.history member (fitting origin member))
        branches
    | some now =>
      have same : now.instruction.targets = origin.instruction.targets := by
        cases fate.stays stands with
        | kept same => rw [same]
        | stored split marks together vacant history behind spent stores same =>
          rw [same]
          rfl
        | emitted marks here => exact absurd (Instruction.targets_of_marker? marks) branches
        | labelled marks fresh nop => exact absurd (Instruction.targets_of_marker? marks) branches
      refine Blocks.mem_namedPlaces.2 (.inl ⟨now.moveTargets (occ.start original.code.linked), ?_, ?_⟩)
      · rw [framed.placed.lays.linked]
        exact List.mem_map_of_mem (List.mem_filterMap.2 ⟨origin, member, stands⟩)
      · rw [Line.instruction_moveTargets, Instruction.targets_moveTargets, same, ← starts]
        exact List.mem_map_of_mem goes
  · refine Blocks.mem_namedPlaces.2 (.inr ⟨_, framed.placed.lays.clauses ▸
      List.mem_map_of_mem member, ?_⟩)
    rcases Clause.mem_borders.1 border with border | border
    · exact starts ▸ Clause.mem_borders_of_starts border
    · exact Clause.mem_borders_of_ends border (Occupancy.stop_of_resting rests)

/-- A pending line that comes right after a marker call and is in another block
was named originally. -/
theorem named_of_apart {thrown : Line} {marker : Marker}
    (framed : Framed frame original occ unread (line :: thrown :: rest) state)
    (marks : line.Marks (Rewrite.space frame) marker)
    (apart : frame.blocks.sameBlock line.place thrown.place = false) :
    thrown.place ∈ Blocks.namedPlaces original := by
  obtain ⟨done, split⟩ := framed.placed.split
  by_contra unnamed
  rw [framed.blocks, Blocks.sameBlock_of_next split (Line.endsBlock_of_marks marks) unnamed] at apart
  simp at apart

end Framed

/-- What becomes of the throw after a call for unreachable code, and of what
named it. If it is in the block of the call, nothing named it. If it is not,
something did, and then names the place to go on from. -/
structure Drops (frame : Frame) (original : Body) (call : Place) (state : Rewriting)
    (cursor : Option Place) (final : Rewriting) (thrown : Line) : Prop where
  follows : state.body.code.following? call = some thrown
  throws : thrown.instruction.opcode = .throw
  gone : thrown.place ∉ final.body.code.places
  spared : frame.blocks.sameBlock call thrown.place = true →
    thrown.place ∉ Blocks.namedPlaces state.body
  shared : frame.blocks.sameBlock call thrown.place = false → original.Fitting →
    thrown.place ∈ Blocks.namedPlaces state.body ∧
      ∀ next, cursor = some next → next ∈ Blocks.namedPlaces final.body

/-- Deleting the throw after a call for unreachable code affects no other path as
long as the throw is in the block of the call. Otherwise it does: a branch or a
region that went to the throw goes to the code after it. -/
theorem Visits.drops_of_unreachable {symbols : Symbols} {call : Place} {i : Instruction}
    (blocks : frame.blocks = Blocks.ofBody original) (live : original.Live)
    (visits : Visits frame original symbols call state)
    (found : state.body.instruction call = .ok i)
    (marks : i.marker? (Rewrite.space frame) = .ok (some (.primitive .unreachable)))
    (ran : (Rewrite.unreachable frame call).run state = .ok cursor final) :
    ∃ thrown, Drops frame original call state cursor final thrown := by
  obtain ⟨occ, line, rest, rfl, framed, intact⟩ := visits.framed blocks live
  obtain ⟨done, split⟩ := framed.placed.split
  have code := framed.placed.code split
  have calls : line.Marks (Rewrite.space frame) (.primitive .unreachable) := by
    have here := Code.instruction?_of_split code
    rw [Line.place_moveTargets, Body.instruction_eq_ok.1 found] at here
    rw [Option.some.inj here, Line.instruction_moveTargets,
      Instruction.marker?_moveTargets] at marks
    exact marks
  obtain ⟨thrown, more, rfl, throws, follows, after, rfl⟩ :=
    framed.thrown_of_unreachable calls ran
  have own : occ.Own original.code.linked thrown.place := framed.placed.own (by simp)
  have vacant : (occ.vacate [line.place]).vacate [thrown.place] thrown.place = none :=
    Occupancy.vacate_of_mem (List.mem_singleton_self _)
  refine ⟨_, follows, throws, fun stays => ?_, fun together => ?_, fun apart fitting => ?_⟩
  · have standing := (after.placed.own_of_mem own.1 stays).2
    rw [vacant] at standing
    simp at standing
  · exact (framed.led intact live).not_named code (by simp) together
  · have named := framed.named_of_apart calls apart
    refine ⟨framed.named_of_resting fitting named (own.resting original.code.nodup_linked),
      fun next there => after.named_of_resting fitting named ?_⟩
    -- The position of the throw is empty, and after it comes what is pending.
    have parts : original.code.linked = (done ++ [line]) ++ thrown :: more := by simp [split]
    have stands : ((occ.vacate [line.place]).vacate [thrown.place]).standing (thrown :: more) =
        more := by
      refine Eq.trans ?_ after.placed.standing_pending
      exact List.filterMap_cons_none vacant
    rw [Occupancy.resting_of_split original.code.nodup_linked parts, stands, there]

/-- A method that returns or throws, and that throws what it was given unless the
code that gives what is thrown is never reached. -/
def sharingJob : Job where
  declaringType := { nameSpace := "Program", name := "Main" }
  method := { name := "Run", returnType := Weave.emptyProgram.undefinedCoreType "System" "Void" }
  body := ({} : Body).pushAll
    [⟨.ldarg0, .none⟩, ⟨.brfalseS, .target ⟨8⟩⟩, ⟨.ldarg1, .none⟩, ⟨.brtrueS, .target ⟨6⟩⟩,
      ⟨.ldarg2, .none⟩, ⟨.brS, .target ⟨7⟩⟩, Weave.primitiveCall "Unreachable" [],
      ⟨.throw, .none⟩, ⟨.ret, .none⟩]

/-- A pass over it, and its state throughout the visits up to the call. -/
def sharingFrame : Frame where
  settings := {}
  method := sharingJob.method
  blocks := .ofBody sharingJob.body
  mapsPoints := false

def sharingState : Rewriting := { body := sharingJob.body, symbols := Weave.emptyProgram }

/-- The lines before the call mention no marker, so the pass comes to it with the
body unchanged. -/
theorem Visits.of_sharingJob : Visits sharingFrame sharingJob.body Weave.emptyProgram ⟨6⟩
    sharingState :=
  .next (.next (.next (.next (.next (.next (.first rfl) rfl) rfl) rfl) rfl) rfl) rfl

/-- What becomes of the throw in the method that shares it. -/
theorem Visits.drops_sharingJob : ∃ cursor final thrown,
    (Rewrite.unreachable sharingFrame ⟨6⟩).run sharingState = .ok cursor final ∧
      Drops sharingFrame sharingJob.body ⟨6⟩ sharingState cursor final thrown := by
  obtain ⟨thrown, drops⟩ := Visits.of_sharingJob.drops_of_unreachable rfl ⟨by decide, by decide⟩ rfl
    rfl rfl
  exact ⟨_, _, thrown, rfl, drops⟩

/-- The call is accepted although a branch goes to the throw; afterwards it goes
to the return. -/
theorem Visits.named_sharingJob :
    Visits sharingFrame sharingJob.body Weave.emptyProgram ⟨6⟩ sharingState ∧
      (∃ cursor final, (Rewrite.unreachable sharingFrame ⟨6⟩).run sharingState = .ok cursor final ∧
        ⟨7⟩ ∉ final.body.code.places) ∧
      (⟨7⟩ : Place) ∈ Blocks.namedPlaces sharingState.body ∧
      (Weave.method {} sharingJob Weave.emptyProgram).body.code.linked =
        [⟨⟨0⟩, ⟨.ldarg0, .none⟩⟩, ⟨⟨1⟩, ⟨.brfalseS, .target ⟨8⟩⟩⟩, ⟨⟨2⟩, ⟨.ldarg1, .none⟩⟩,
          ⟨⟨3⟩, ⟨.brtrueS, .target ⟨8⟩⟩⟩, ⟨⟨4⟩, ⟨.ldarg2, .none⟩⟩, ⟨⟨5⟩, ⟨.brS, .target ⟨8⟩⟩⟩,
          ⟨⟨8⟩, ⟨.ret, .none⟩⟩] :=
  ⟨Visits.of_sharingJob, ⟨_, _, rfl, by decide⟩, by decide, rfl⟩

end InlineCil
