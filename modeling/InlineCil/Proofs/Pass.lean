import InlineCil.Proofs.Order
import InlineCil.Proofs.Steps

/-!
# Steps of a pass

A rule of the pass is put together from small steps on the body, the labels and
the local variables. What each of them does when it succeeds is said here, as an
equation between the states before and after: a removal removes and an
overwriting overwrites, looking changes nothing, a located step is the step
itself, and collapsing debug points touches the debug points alone. A rule is
taken apart into these steps, so nothing else about a pass has to open them.

What a step of the pass may refuse is not of interest here. A refusal ends the
pass, and what the state is worth then is said where the outcome of weaving is.

A body is live if every branch and every border of a clause is at a linked place.
`Body.validate_ok` says that such a body passes the check that ends a pass, and
`finish_eq_ok` says what closing a pass comes to: the labels are all right,
nothing of the vocabulary is left, and the debug points are brought into order.
-/

namespace InlineCil

/-- Collapsing debug points changes nothing else, whether the site has points or
none. So most proofs need not know what becomes of points. -/
theorem PointMap.collapse_eq (b : Body) (site : List Place) (target : Option Place) :
    ∃ points, PointMap.collapse b site target = { b with points := points } := by
  unfold PointMap.collapse
  dsimp only
  split
  · split
    · exact ⟨_, rfl⟩
    · split <;> exact ⟨_, rfl⟩
  · exact ⟨_, rfl⟩

/-- Every branch and every border of a clause is at a linked place. -/
structure Body.Live (b : Body) : Prop where
  targets : ∀ line ∈ b.code.linked, ∀ place ∈ line.instruction.targets, place ∈ b.code.places
  borders : ∀ clause ∈ b.clauses, ∀ place ∈ clause.borders, place ∈ b.code.places

/-- Bodies without dangling references are valid. The check looks for the first
branch and then for the first border that is not linked, and finds neither. -/
theorem Body.validate_ok {b : Body} (live : b.Live) : b.validate = .ok () := by
  have contained {place : Place} (linked : place ∈ b.code.places) :
      (!b.code.contains place) = false := by
    obtain ⟨line, member, rfl⟩ := List.mem_map.1 linked
    have there : b.code.contains line.place = true :=
      List.any_eq_true.2 ⟨line, member, line.isAt_self⟩
    rw [there, Bool.not_true]
  have branches : b.code.linked.findSome? b.danglingTarget? = none := by
    refine List.findSome?_eq_none_iff.2 fun line member => ?_
    refine Option.map_eq_none_iff.2 (List.find?_eq_none.2 fun target goes => ?_)
    simp [contained (live.targets line member target goes)]
  have borders : b.clauses.findSome? b.danglingBorder? = none := by
    refine List.findSome?_eq_none_iff.2 fun clause member => ?_
    refine Option.map_eq_none_iff.2 (List.find?_eq_none.2 fun border held => ?_)
    simp [contained (live.borders clause member border held)]
  unfold validate
  rw [branches, borders]
  rfl

/-- An instruction that was checked is the one that was asked for: the check
compares the operand with the opcode and changes neither. -/
theorem Instruction.eq_of_checked {opcode : Opcode} {operand : Operand} {i : Instruction}
    (checked : Instruction.checked opcode operand = .ok i) : i = ⟨opcode, operand⟩ := by
  unfold Instruction.checked checked? at checked
  split at checked
  · next found =>
    split at found
    · obtain rfl := Except.ok.inj checked
      exact (Option.some.inj found).symm
    · simp at found
  · simp at checked

namespace Rewrite

variable {α : Type} {frame : Frame} {state final : Rewriting} {value : α}

@[simp] theorem run_body (state : Rewriting) : body.run state = .ok state.body state := rfl

/-- Setting the body leaves labels, local variables and symbols. -/
@[simp] theorem run_setBody (b : Body) (state : Rewriting) :
    (setBody b).run state = .ok ⟨⟩ { state with body := b } := rfl

theorem faultless_eq_ok {result : Except Fault α} :
    (faultless result).run state = .ok value final ↔ result = .ok value ∧ state = final := by
  cases result <;> simp [faultless]

theorem refusable_eq_ok {result : Except Cause α} :
    (refusable result).run state = .ok value final ↔ result = .ok value ∧ state = final := by
  cases result <;> simp [refusable]

theorem located_eq_ok {place : Place} {step : Pass α} :
    (located place step).run state = .ok value final ↔ step.run state = .ok value final :=
  Steps.run_rethrow_ok

/-- A removal succeeds exactly if the body allows it, and only the body changes.
What becomes of it is the matter of the lemmas on bodies. -/
theorem remove_eq_ok {place : Place} {done : Unit} :
    (remove place).run state = .ok done final ↔
      ∃ i b, state.body.remove place = .ok (i, b) ∧ final = { state with body := b } := by
  unfold remove
  simp only [Steps.run_bind_ok, run_body, faultless_eq_ok]
  constructor
  · rintro ⟨_, _, got, ⟨i, b⟩, _, ⟨removed, rfl⟩, put⟩
    obtain ⟨rfl, rfl⟩ := by simpa using got
    exact ⟨i, b, removed, by simpa using put.symm⟩
  · rintro ⟨i, b, removed, rfl⟩
    exact ⟨_, _, rfl, _, _, ⟨removed, rfl⟩, rfl⟩

/-- Overwriting succeeds exactly if the body allows it, and only the body
changes. -/
theorem replace_eq_ok {place : Place} {instruction : Instruction} {done : Unit} :
    (replace place instruction).run state = .ok done final ↔
      ∃ i b, state.body.replace place instruction = .ok (i, b) ∧
        final = { state with body := b } := by
  unfold replace
  simp only [Steps.run_bind_ok, run_body, faultless_eq_ok]
  constructor
  · rintro ⟨_, _, got, ⟨i, b⟩, _, ⟨replaced, rfl⟩, put⟩
    obtain ⟨rfl, rfl⟩ := by simpa using got
    exact ⟨i, b, replaced, by simpa using put.symm⟩
  · rintro ⟨i, b, replaced, rfl⟩
    exact ⟨_, _, rfl, _, _, ⟨replaced, rfl⟩, rfl⟩

/-- Maintaining debug points never fails and changes nothing else. If they are not
maintained, they stay as they are. -/
theorem run_mapPoints (frame : Frame) (site : List Place) (target : Option Place)
    (state : Rewriting) :
    ∃ points, (mapPoints frame site target).run state =
      .ok ⟨⟩ { state with body := { state.body with points := points } } := by
  unfold mapPoints
  cases frame.mapsPoints with
  | false => exact ⟨state.body.points, rfl⟩
  | true =>
    obtain ⟨points, collapsed⟩ := PointMap.collapse_eq state.body site target
    refine ⟨points, ?_⟩
    rw [← collapsed]
    rfl

/-- After maintaining debug points the state is the same up to the points, so
whatever does not speak of points may skip the step. -/
theorem mapPoints_eq_ok {site : List Place} {target : Option Place} {done : Unit}
    (ran : (mapPoints frame site target).run state = .ok done final) :
    ∃ points, final = { state with body := { state.body with points := points } } := by
  obtain ⟨points, run⟩ := run_mapPoints frame site target state
  rw [run] at ran
  exact ⟨points, by simpa using ran.symm⟩

/-- A number within bounds becomes an operand, and nothing changes. The upper
bound is not included. -/
theorem ranged_eq_ok {opcode : Opcode} {least bound number : Int} {make : Int → Operand}
    {operand : Operand} :
    (ranged opcode least bound number make).run state = .ok operand final ↔
      (least ≤ number ∧ number < bound) ∧ make number = operand ∧ state = final := by
  unfold ranged
  split
  · next within =>
    obtain ⟨low, high⟩ := by simpa using within
    simp [low, high]
  · next outside =>
    have refused : ¬(least ≤ number ∧ number < bound) := by simpa using outside
    simp [refused]

/-- Looking at the body changes nothing, so what comes next runs on the same
state. -/
theorem body_bind_eq_ok {next : Body → Pass α} :
    (body >>= next).run state = .ok value final ↔ (next state.body).run state = .ok value final :=
  Iff.rfl

theorem get_bind_eq_ok {next : Rewriting → Pass α} :
    (get >>= next).run state = .ok value final ↔ (next state).run state = .ok value final :=
  Iff.rfl

/-- Closing a pass checks labels, leftovers and references, and changes the debug
points only. The warnings about labels come first, then those about local
variables; a pass without a declaration has none of the latter. -/
theorem finish_eq_ok {warnings : List (Warning × Place)}
    (closed : (finish frame).run state = .ok warnings final) :
    (∃ unused, state.labels.finish = .ok unused ∧
      warnings = unused ++ (state.locals.map LocalTable.unused).getD []) ∧
      checkLeftovers (space frame) state.body = .ok () ∧
      final = { state with body := PointMap.finish state.body } ∧
      final.body.validate = .ok () := by
  unfold finish at closed
  simp only [Steps.run_bind_ok, Steps.run_liftExcept_eq_ok, faultless_eq_ok] at closed
  obtain ⟨_, _, got, unused, _, ⟨labels, rfl⟩, _, _, ⟨leftovers, rfl⟩, _, _, put, _, _, looked,
    _, _, ⟨valid, rfl⟩, given⟩ := closed
  obtain ⟨rfl, rfl⟩ := by simpa using got
  obtain rfl := by simpa using put
  obtain ⟨rfl, rfl⟩ := by simpa using looked
  obtain ⟨rfl, rfl⟩ := by simpa using given
  exact ⟨⟨unused, labels, rfl⟩, leftovers, rfl, valid⟩

end Rewrite

end InlineCil
