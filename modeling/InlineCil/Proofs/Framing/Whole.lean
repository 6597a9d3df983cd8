import InlineCil.Proofs.Framing.Rules
import InlineCil.Proofs.Outcome

/-!
# The frame of a woven method

A method that was rewritten is told from its original by an occupancy alone:
which line stands in each original position, with a reason for everything that is
new and everything that is missing. Code that does not mention the vocabulary
stays as it was and in its order, and branches and clauses go where they went, or
to what follows if that is gone.

`Kept` states this without the notions of the pass. It names the lines of the
woven body and their order, the fate of each original line, the labels that came
in, the clauses and the local variables. The takings that the fates refer to are
part of it: what is gone as an argument is told call by call, and all of it is
gone.

The theorem for a method starts a pass with everything pending, takes the
invariant that the scan has kept, and reads `Kept` off the end of it. The removal
of collapsed sites afterwards only changes debug points.
-/

namespace InlineCil

namespace Occupancy

variable {occ : Occupancy} {original lines : List Line} {place : Place}

/-- References to a line that is still there stay. They come to rest on the first
line that stands at or after their position, which is this one. -/
theorem Own.resting (own : occ.Own original place) (distinct : (original.map Line.place).Nodup) :
    occ.resting original place = some place := by
  obtain ⟨inside, stands⟩ := own
  obtain ⟨now, found, same⟩ := Option.map_eq_some_iff.1 stands
  obtain ⟨before, line, after, rfl, split⟩ := split_of_mem inside
  rw [resting_of_split distinct split]
  simp [standing, found, same]

theorem Own.start (own : occ.Own original place) (distinct : (original.map Line.place).Nodup) :
    occ.start original place = place := start_of_resting (own.resting distinct)

theorem Own.stop (own : occ.Own original place) (distinct : (original.map Line.place).Nodup) :
    occ.stop original place = some place := stop_of_resting (own.resting distinct)

end Occupancy

/-- What a rewritten body keeps of the original one. Its lines are those that
stand in the original positions, each of which has a fate; what is not from the
original code is the instruction of a label. What is gone as an argument is told
call by call: the lines of a taking are together one code that the marker of the
call reads, and they stood directly before the call once the arguments of earlier
calls had gone. Branches and borders of clauses are moved to what stands at or
after the position they named, which is the line they named while that is there. -/
structure Kept (space : String) (original woven : Body) (occ : Occupancy) : Prop where
  linked : woven.code.linked = (occ.standing original.code.linked).map
    (Line.moveTargets (occ.start original.code.linked))
  order : ((woven.code.linked.map Line.place).filter
      (· ∈ original.code.linked.map Line.place)).Sublist (original.code.linked.map Line.place)
  fates : ∃ takings, Takings space original takings ∧
    (∀ taking ∈ takings, occ.Vacant taking.lines) ∧
    ∀ line ∈ original.code.linked, Fate space original occ takings line
  labels : ∀ line ∈ woven.code.linked, line.place ∉ original.code.linked.map Line.place →
    line.instruction = ⟨.nop, .none⟩ ∧ ∃ call ∈ original.code.linked,
      call.Marks space (.primitive .markLabel) ∧ occ call.place = some line
  clauses : woven.clauses = original.clauses.map
    (Clause.moveBorders (occ.start original.code.linked) (occ.stop original.code.linked))
  surviving : ∀ place ∈ original.code.linked.map Line.place,
    place ∈ woven.code.linked.map Line.place →
      occ.start original.code.linked place = place ∧
        occ.stop original.code.linked place = some place
  handlers : woven.clauses.map (fun c => (c.flags, c.catchType)) =
    original.clauses.map fun c => (c.flags, c.catchType)
  locals : ∃ added, woven.locals = original.locals ++ added

variable {space : String} {original b : Body} {occ : Occupancy} {unread pending : List Line}

namespace Placed

/-- What is not from the original code is the instruction of a label, in the
position of the call that marks it. No rule brings in anything else at a new
place. -/
theorem label_of_mem (placed : Placed space original occ unread pending b) {line : Line}
    (member : line ∈ b.code.linked)
    (outside : line.place ∉ original.code.linked.map Line.place) :
    line.instruction = ⟨.nop, .none⟩ ∧ ∃ call ∈ original.code.linked,
      call.Marks space (.primitive .markLabel) ∧ occ call.place = some line := by
  rw [placed.lays.linked] at member
  obtain ⟨now, standing, rfl⟩ := List.mem_map.1 member
  obtain ⟨call, among, found⟩ := List.mem_filterMap.1 standing
  have inPlace (same : now.place = call.place) : False :=
    outside (List.mem_map.2 ⟨call, among, same.symm⟩)
  obtain ⟨takings, stays⟩ := placed.stays among found
  cases stays with
  | kept same => exact (inPlace (congrArg Line.place same)).elim
  | emitted marks here => exact (inPlace here).elim
  | stored split marks together vacant history behind spent stores same =>
    exact (inPlace (by rw [same])).elim
  | labelled marks fresh nop =>
    obtain ⟨place, i⟩ := now
    obtain rfl : i = ⟨.nop, .none⟩ := nop
    exact ⟨rfl, call, among, marks, found⟩

/-- The line of an original place that is linked stands in its own position, so
what the original program refers to there is still there. -/
theorem own_of_mem (placed : Placed space original occ unread pending b) {place : Place}
    (inside : place ∈ original.code.linked.map Line.place)
    (member : place ∈ b.code.linked.map Line.place) : occ.Own original.code.linked place := by
  rw [placed.lays.linked, List.map_map] at member
  obtain ⟨now, standing, rfl⟩ := List.mem_map.1 member
  exact (placed.lays.settled.own standing inside).1

/-- At the end of a pass this is what is kept. Nothing of it depends on which
lines are pending, so it could be said in the middle of a pass as well. -/
theorem kept (placed : Placed space original occ unread pending b)
    (locals : ∃ added, b.locals = original.locals ++ added) : Kept space original b occ where
  linked := placed.lays.linked
  order := by
    have places : b.code.linked.map Line.place =
        (occ.standing original.code.linked).map Line.place := by
      rw [placed.lays.linked, List.map_map]
      rfl
    rw [places]
    exact placed.lays.settled.sublist fun _ member => member
  fates := by
    obtain ⟨takings, account⟩ := placed.account
    exact ⟨takings, account.history, account.vacant, account.fates⟩
  labels _ := placed.label_of_mem
  clauses := placed.lays.clauses
  surviving place inside member :=
    have own := placed.own_of_mem inside member
    ⟨own.start original.code.nodup_linked, own.stop original.code.nodup_linked⟩
  handlers := by
    rw [placed.lays.clauses, List.map_map]
    rfl
  locals := locals

end Placed

/-- A whole pass keeps the frame: it starts with everything pending, and closing
it changes debug points only. -/
theorem Rewrite.kept_of_run {frame : Frame} {symbols : Symbols}
    {warnings : List (Warning × Place)} {final : Rewriting}
    (blocks : frame.blocks = Blocks.ofBody original)
    (passed : (run frame).run { body := original, symbols } = .ok warnings final) :
    ∃ occ, Kept (Rewrite.space frame) original final.body occ := by
  obtain ⟨_, scanned, scanning, closed⟩ := Steps.run_bind_ok.1 (body_bind_eq_ok.1 passed)
  obtain ⟨-, -, rfl, -⟩ := finish_eq_ok closed
  have start := Framed.initial frame original symbols blocks
  obtain ⟨occ, pending, framed⟩ := Framed.scan start.onward scanning
  have closed : Placed _ original occ pending pending (PointMap.finish scanned.body) :=
    framed.placed.congr rfl rfl
  exact ⟨occ, closed.kept framed.stocked.locals⟩

namespace Weave

/-- A body that is given up is not one that was rewritten: it is stubbed, or
there is no outcome because the stub could not be made. -/
theorem status_of_givenUp {name : String} {diagnostics : List Diagnostic} {b : Body}
    {symbols : Symbols} {outcome : Outcome}
    (gave : (givenUp name diagnostics b symbols).result = .ok outcome) :
    outcome.status = .stubbed := by
  unfold givenUp at gave
  split at gave
  · obtain rfl := by simpa using gave
    rfl
  · simp at gave

/-- Behind a method that was rewritten is a pass that came to an end. The frame
of the pass has the namespace of the settings and the blocks of the original
body. -/
theorem run_of_rewritten {settings : Settings} {j : Job} {symbols : Symbols} {outcome : Outcome}
    (gave : (method settings j symbols).result = .ok outcome)
    (status : outcome.status = .rewritten) :
    ∃ frame warnings final, Rewrite.space frame = settings.markerNamespace ∧
      frame.blocks = Blocks.ofBody j.body ∧
      (Rewrite.run frame).run { body := j.body, symbols } = .ok warnings final ∧
      (method settings j symbols).body = final.body := by
  unfold method at gave ⊢
  split at gave
  · obtain rfl := by simpa using gave
    simp at status
  next used =>
  rw [if_neg used]
  split at gave
  · simp at gave
  next current found =>
  unfold rewritten at gave ⊢
  dsimp only at gave ⊢
  generalize passed : (Rewrite.run _).run _ = result at gave ⊢
  cases result with
  | ok warnings final =>
    dsimp only at gave ⊢
    generalize diagnosed _ _ _ _ = diagnostics at gave ⊢
    split at gave
    · simp [status_of_givenUp gave] at status
    · next remains =>
      rw [if_neg remains]
      exact ⟨_, warnings, final, rfl, rfl, passed, rfl⟩
  | error failure final =>
    dsimp only at gave
    split at gave
    · simp [status_of_givenUp gave] at status
    · simp at gave

/-- A method of the vocabulary's main type that takes a text or nothing. -/
def primitiveCall (name : String) (parameters : List TypeSig) : Instruction :=
  ⟨.call, .method
    { declaringType := .named
        { scope := "InlineIL", nameSpace := "InlineIL", name := "IL", isValueType := false }
      name
      parameters
      returnType := emptyProgram.undefinedCoreType "System" "Void" }⟩

/-- A method that branches to the name of a label which it marks right after it. -/
def markingJob : Job where
  declaringType := { nameSpace := "Program", name := "Main" }
  method := { name := "Run", returnType := emptyProgram.undefinedCoreType "System" "Void" }
  body := ({} : Body).pushAll
    [⟨.br, .target ⟨1⟩⟩, ⟨.ldstr, .string "exit"⟩,
      primitiveCall "MarkLabel" [emptyProgram.undefinedCoreType "System" "String"], ⟨.ret, .none⟩]

end Weave

end InlineCil
