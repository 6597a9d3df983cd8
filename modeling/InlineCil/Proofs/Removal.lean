import InlineCil.Proofs.Order
import InlineCil.Proofs.Steps

/-!
# What leaving lines do to a body

A body sheds lines: the others stay in order, and every reference is moved by one
move for the starts of regions and branches, and one for the ends of regions.
`Sheds` says this of a body and what is left of it, whatever led from one to the
other. It includes what does not change, so that a shedding is all that has to be
known about a removal.

Shedding composes: what leaves later leaves a body whose references were moved
before, and the moves are composed in that order. A single removal sheds one
line, whose references go to the next line or, from the end of the code, to the
line before it. `sheds_takeOut` puts removals together to a run of lines before a
call. Its lines leave from the call backward, and in the end all references to
them have come to the call: a site that is taken out at once is described like a
single removal.

A replacement is a removal too. The new line comes in before the old one,
references go to it, and the old one leaves.
-/

namespace InlineCil

namespace Body

/-- Lines leave a body and the others stay; references go where the moves say.
The lines that leave stay at their places among the detached ones. -/
structure Sheds (b : Body) (kept gone : List Line) (start : Place → Place)
    (stop : Place → Option Place) (left : Body) : Prop where
  linked : left.code.linked = kept.map (Line.moveTargets start)
  detached : ∃ lines, lines.map Line.place = gone.map Line.place ∧
    left.code.detached = lines ++ b.code.detached
  clauses : left.clauses = b.clauses.map (Clause.moveBorders start stop)
  next : left.code.next = b.code.next
  locals : left.locals = b.locals
  initLocals : left.initLocals = b.initLocals
  points : left.points = b.points

/-- The place that references to a leaving line go to: the line after it, or else
the one before it. -/
def heir (before : List Line) (line : Line) (after : List Line) : Place :=
  ((after.head?.map Line.place).or (before.getLast?.map Line.place)).getD line.place

variable {b left : Body} {before after : List Line} {line : Line}

namespace Sheds

variable {kept gone : List Line} {start : Place → Place} {stop : Place → Option Place}

/-- Nothing leaves and nothing moves. The removal of no places at all comes to
this, and it is the start of the induction for any number of them. -/
theorem nothing (b : Body) : b.Sheds b.code.linked [] id some b where
  linked := by
    have same : Line.moveTargets id = id := funext Line.moveTargets_id
    rw [same, List.map_id]
  detached := ⟨[], rfl, rfl⟩
  clauses := by
    have same : Clause.moveBorders id some = id := funext Clause.moveBorders_id
    rw [same, List.map_id]
  next := rfl
  locals := rfl
  initLocals := rfl
  points := rfl

/-- What leaves later leaves a body that was moved before. The lines of the
second shedding are those that the first one kept, with their branches moved, and
so the moves compose. -/
theorem trans {middle : Body} {stay leave : List Line} {again : Place → Place}
    {later : Place → Option Place} (first : b.Sheds kept gone start stop middle)
    (second : middle.Sheds (stay.map (Line.moveTargets start)) leave again later left) :
    b.Sheds stay (leave ++ gone) (again ∘ start) (fun place => (stop place).bind later) left where
  linked := by
    rw [second.linked, List.map_map]
    exact List.map_congr_left fun line _ => line.moveTargets_moveTargets start again
  detached := by
    obtain ⟨early, earlyPlaces, earlyDetached⟩ := first.detached
    obtain ⟨late, latePlaces, lateDetached⟩ := second.detached
    exact ⟨late ++ early, by simp [earlyPlaces, latePlaces],
      by rw [lateDetached, earlyDetached, List.append_assoc]⟩
  clauses := by
    rw [second.clauses, first.clauses, List.map_map]
    exact List.map_congr_left fun clause _ =>
      Clause.moveBorders_moveBorders start again stop later clause
  next := second.next.trans first.next
  locals := second.locals.trans first.locals
  initLocals := second.initLocals.trans first.initLocals
  points := second.points.trans first.points

theorem places (sheds : b.Sheds kept gone start stop left) :
    left.code.places = kept.map Line.place := by
  rw [Code.places, sheds.linked, List.map_map]
  rfl

/-- Of the lines that leave only the places count, since no linked line and no
clause knows more of them. -/
theorem renamed {others : List Line} (sheds : b.Sheds kept gone start stop left)
    (same : gone.map Line.place = others.map Line.place) :
    b.Sheds kept others start stop left :=
  { sheds with
    detached := by
      obtain ⟨lines, places, detached⟩ := sheds.detached
      exact ⟨lines, places.trans same, detached⟩ }

/-- Moves that agree on everything that may be named describe the same shedding. -/
theorem congr {again : Place → Place} {later : Place → Option Place}
    (sheds : b.Sheds kept gone start stop left) (starts : ∀ place, start place = again place)
    (stops : ∀ place, stop place = later place) : b.Sheds kept gone again later left := by
  obtain rfl := funext starts
  obtain rfl := funext stops
  exact sheds

end Sheds

/-- Nothing in a body refers to a place that no branch and no clause names. The
check that guards the last removal looks at exactly these two. -/
theorem not_named {place : Place} (unnamed : b.refersTo place = false) :
    (∀ line ∈ b.code.linked, place ∉ line.instruction.targets) ∧
      ∀ clause ∈ b.clauses, place ∉ clause.borders := by
  simp only [refersTo, Bool.or_eq_false_iff, Code.isTarget, List.any_eq_false] at unnamed
  obtain ⟨targets, borders⟩ := unnamed
  constructor
  · intro line member named
    exact targets line member (List.contains_iff_mem.2 named)
  · intro clause member named
    exact borders clause member (List.contains_iff_mem.2 named)

theorem split_retarget (split : b.code.linked = before ++ line :: after) (start : Place)
    (stop : Option Place) :
    (b.retarget line.place start stop).code.linked =
      before.map (Line.moveTargets (single line.place start)) ++
        line.moveTargets (single line.place start) ::
          after.map (Line.moveTargets (single line.place start)) := by
  simp [retarget, Code.linked_retarget, split]

/-- A line with a neighbour leaves, and the neighbour inherits its references:
they are moved first, while the line is still linked, and then it is unlinked. -/
theorem sheds_unlink (split : b.code.linked = before ++ line :: after) (start : Place)
    (stop : Option Place) :
    b.Sheds (before ++ after) [line] (single line.place start) (singleEnd line.place stop)
      { b.retarget line.place start stop with
        code := (b.retarget line.place start stop).code.unlink line.place } where
  linked := (Code.linked_unlink (split_retarget split start stop)).trans List.map_append.symm
  detached := ⟨[line.moveTargets (single line.place start)], rfl,
    Code.detached_unlink (split_retarget split start stop)⟩
  clauses := List.map_congr_left fun clause _ =>
    clause.retarget_eq_moveBorders line.place start stop
  next := rfl
  locals := rfl
  initLocals := rfl
  points := rfl

/-- The outcome of removing a linked line. With a neighbour it always succeeds;
the only line leaves if nothing refers to it. -/
theorem remove_of_split (split : b.code.linked = before ++ line :: after) :
    b.remove line.place =
      match (after.head?.map Line.place).or (before.getLast?.map Line.place) with
      | none =>
          if b.refersTo line.place then .error (.lastReferenced line.place)
          else .ok (line.instruction, { b with code := b.code.unlink line.place })
      | some start =>
          .ok (line.instruction.moveTargets (single line.place start),
            { b.retarget line.place start (after.head?.map Line.place) with
              code := (b.retarget line.place start (after.head?.map Line.place)).code.unlink
                line.place }) := by
  simp only [remove, Code.contains_of_split split, Code.after?_of_split split,
    Code.before?_of_split split]
  cases (after.head?.map Line.place).or (before.getLast?.map Line.place) with
  | none =>
    simp only [instruction, Code.instruction?_of_split split]
    rfl
  | some start =>
    have moved := Code.instruction?_of_split
      (split_retarget split start (after.head?.map Line.place))
    rw [Line.place_moveTargets] at moved
    simp only [instruction, moved]
    rfl

/-- The only line of a body leaves only if nothing refers to it. In that case
nothing is moved when it leaves. -/
theorem unnamed_of_remove {result : Instruction × Body} (split : b.code.linked = [line])
    (removed : b.remove line.place = .ok result) : b.refersTo line.place = false := by
  have alone : b.code.linked = [] ++ line :: [] := split
  rw [remove_of_split alone] at removed
  cases referred : b.refersTo line.place with
  | true => simp [referred] at removed
  | false => rfl

/-- A line that leaves hands its references to the line after it, or to the one
before it; ends of regions never go backward.

The only line of a body has no neighbour. Nothing names it then, so that any move
of its place describes what happened, also the one that is stated here. -/
theorem sheds_of_remove {i : Instruction} (split : b.code.linked = before ++ line :: after)
    (removed : b.remove line.place = .ok (i, left)) :
    b.Sheds (before ++ after) [line] (single line.place (heir before line after))
      (singleEnd line.place (after.head?.map Line.place)) left := by
  rw [remove_of_split split] at removed
  unfold heir
  split at removed
  · next alone =>
    obtain ⟨noNext, noPrevious⟩ := Option.or_eq_none_iff.1 alone
    obtain rfl : after = [] := by simpa using noNext
    obtain rfl : before = [] := by simpa using noPrevious
    cases referred : b.refersTo line.place with
    | true => simp [referred] at removed
    | false =>
      obtain ⟨-, rfl⟩ := by simpa [referred] using removed
      obtain ⟨-, unnamed⟩ := not_named referred
      -- Nothing is left to name the place, so any move describes what happened.
      refine ⟨?_, ⟨[line], rfl, ?_⟩, ?_, rfl, rfl, rfl, rfl⟩
      · simpa using Code.linked_unlink split
      · simpa using Code.detached_unlink split
      · refine ((List.map_congr_left fun clause member => ?_).trans
          (List.map_id b.clauses)).symm
        refine (Clause.moveBorders_congr (fun place _ => ?_) fun place named => ?_).trans
          clause.moveBorders_id
        · simp +contextual [single, eq_comm]
        · have border := Clause.mem_borders.2 (.inr named)
          have other : place ≠ line.place := fun same => unnamed clause member (same ▸ border)
          simp [singleEnd, other]
  · next start found =>
    obtain ⟨-, rfl⟩ := by simpa using removed
    rw [found]
    exact sheds_unlink split start _

theorem contains_of_remove {place : Place} {result : Instruction × Body}
    (removed : b.remove place = .ok result) : b.code.contains place = true := by
  cases contained : b.code.contains place with
  | true => rfl
  | false => simp [remove, contained] at removed

/-- A line before another one hands its references to that one. With a line after
it the ends of regions move like everything else. -/
theorem takeOut_cons (split : b.code.linked = before ++ line :: after) {heir : Line}
    {rest : List Line} (followed : after = heir :: rest) (places : List Place) :
    ∃ left, Rewrite.takeOut b (line.place :: places) = Rewrite.takeOut left places ∧
      b.Sheds (before ++ after) [line] (single line.place heir.place)
        (fun place => some (single line.place heir.place place)) left := by
  subst followed
  have outcome := remove_of_split split
  simp only [List.head?_cons, Option.map_some, Option.some_or] at outcome
  refine ⟨_, by rw [Rewrite.takeOut, List.foldl_cons, outcome]; rfl, ?_⟩
  exact (sheds_of_remove split outcome).congr (fun place => rfl) fun place =>
    congrFun (singleEnd_some line.place heir.place) place

/-- Taking the run of lines before a call out of the body, from the call
backward, sends all references to these lines to the call.

By induction on the number of lines. The last line of the run leaves first, since
it is nearest to the call; for the others the call is next then, and their own
references were moved by what left before. -/
theorem sheds_takeOut {call : Line} {lines : List Line}
    (split : b.code.linked = before ++ lines ++ call :: after) :
    b.Sheds (before ++ call :: after) lines (gather (lines.map Line.place) call.place)
      (fun place => some (gather (lines.map Line.place) call.place place))
      (Rewrite.takeOut b (lines.map Line.place).reverse) := by
  -- The last line of the run leaves first; the lines before it were moved by then.
  generalize count : lines.length = n
  induction n generalizing b before lines call after with
  | zero =>
    obtain rfl : lines = [] := List.eq_nil_of_length_eq_zero count
    have same := Sheds.nothing b
    rw [split, List.append_nil] at same
    simp only [List.map_nil, gather_nil]
    exact same
  | succ n shed =>
    obtain ⟨front, last, rfl⟩ : ∃ front last, lines = front ++ [last] := by
      rcases List.eq_nil_or_concat' lines with rfl | found
      · simp at count
      · exact found
    have nearest : b.code.linked = before ++ front ++ last :: call :: after := by
      simpa using split
    obtain ⟨left, taken, first⟩ := takeOut_cons nearest rfl (front.map Line.place).reverse
    have again : left.code.linked =
        before.map (Line.moveTargets (single last.place call.place)) ++
          front.map (Line.moveTargets (single last.place call.place)) ++
          call.moveTargets (single last.place call.place) ::
            after.map (Line.moveTargets (single last.place call.place)) := by
      simp [first.linked]
    have rest := shed again (by simpa using count)
    have places : (front.map (Line.moveTargets (single last.place call.place))).map Line.place =
        front.map Line.place := by simp [Function.comp_def]
    rw [places] at rest
    have stay : (before ++ call :: after).map (Line.moveTargets (single last.place call.place)) =
        before.map (Line.moveTargets (single last.place call.place)) ++
          call.moveTargets (single last.place call.place) ::
            after.map (Line.moveTargets (single last.place call.place)) := by simp
    rw [Line.place_moveTargets, ← stay] at rest
    have whole := first.trans rest
    rw [List.map_append, List.reverse_append, List.map_singleton, List.reverse_singleton,
      List.singleton_append, taken]
    refine ((whole.renamed (by simp [places])).congr (fun place => ?_) fun place => ?_)
    · exact (gather_append _ _ _ place).symm
    · exact congrArg some (gather_append _ _ _ place).symm

/-- The instruction at a place is asked for with a fault or without one. -/
theorem instruction_eq_ok {place : Place} {i : Instruction} :
    b.instruction place = .ok i ↔ b.code.instruction? place = some i := by
  unfold instruction
  split <;> simp_all

/-- Overwriting a linked instruction changes nothing else: neither its place, nor
what refers to it, nor the clauses. -/
theorem eq_of_replace {place : Place} {i : Instruction} {result : Instruction × Body}
    (replaced : b.replace place i = .ok result) :
    result.2 = { b with code := b.code.overwrite place i } := by
  unfold replace at replaced
  split at replaced
  · obtain rfl := Except.ok.inj replaced
    rfl
  · simp at replaced

/-- Overwriting at a linked line succeeds and gives the old instruction. -/
theorem replace_of_split (split : b.code.linked = before ++ line :: after) (i : Instruction) :
    b.replace line.place i =
      .ok (line.instruction, { b with code := b.code.overwrite line.place i }) := by
  simp [replace, Code.instruction?_of_split split]

/-- A linked place is replaced by one that waits to be linked: the new line comes
in before the old one, which then leaves. Between the two all references to the
old place are moved, so none dangles. -/
theorem replaceWith_of_split (split : b.code.linked = before ++ line :: after) {new : Line}
    (waiting : new ∈ b.code.detached) :
    ∃ i left, b.replaceWith line.place new.place = .ok (i, left) ∧
      { b with code := b.code.linkBefore line.place new.place : Body }.Sheds
        (before ++ new :: after) [line] (single line.place new.place)
        (singleEnd line.place (some new.place)) left := by
  have found : (b.code.detachedInstruction? new.place).isNone = false := by
    simpa [Code.detachedInstruction?] using ⟨new, waiting, new.isAt_self⟩
  have linked : b.linkBefore line.place new.place =
      .ok { b with code := b.code.linkBefore line.place new.place } := by
    simp [linkBefore, Code.contains_of_split split, found]
  have both : { b with code := b.code.linkBefore line.place new.place : Body }.code.linked =
      (before ++ [new]) ++ line :: after := by
    simpa using Code.linked_linkBefore split waiting
  have moved := Code.instruction?_of_split (split_retarget both new.place (some new.place))
  rw [Line.place_moveTargets] at moved
  refine ⟨line.instruction.moveTargets (single line.place new.place), _, ?_,
    by simpa using sheds_unlink both new.place (some new.place)⟩
  simp only [replaceWith, linked, instruction, bind, Except.bind, moved]
  rfl

/-- Only a linked place is replaced, and only by one that waits to be linked.
Both are checked before anything is changed. -/
theorem waiting_of_replaceWith {old new : Place} {result : Instruction × Body}
    (replaced : b.replaceWith old new = .ok result) :
    b.code.contains old = true ∧ ∃ line ∈ b.code.detached, line.place = new := by
  unfold replaceWith linkBefore at replaced
  split at replaced
  · simp [bind, Except.bind] at replaced
  · next contained =>
    split at replaced
    · simp [bind, Except.bind] at replaced
    · next found =>
      refine ⟨by simpa using contained, ?_⟩
      simpa [Code.detachedInstruction?, Line.isAt] using found

end Body

end InlineCil
