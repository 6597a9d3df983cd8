import InlineCil.Proofs.Encoding.Progress
import InlineCil.Proofs.Outcome

/-!
# Closing a pass over encoded code

When all statements have become items, the pass closes without complaint: labels
that are branched to are marked, what was emitted has nothing to do with the
vocabulary, and branches go to the lines of their labels.

Closing has three checks, each of which may refuse a method. The label table is
asked for labels that are used and not marked. The body is searched for what is
left of the vocabulary, in code, in clauses and in local variables. And the body
is validated, so each branch has to go to a line that is linked.

All three are read off the items. A label that is branched to is marked by some
item, and the line of this item is at the place of the label; so its target is
linked. The rest needs that lines stand for items and for nothing else.
-/

namespace InlineCil

namespace LabelTable

/-- There is nothing to refuse about labels of which those that are branched to
are marked. Labels that are marked and not branched to are only warned about. -/
theorem verdicts_ok {labels : List Label}
    (defined : ∀ label ∈ labels, label.firstUse.isSome → label.definedAt.isSome) :
    ∃ found, labels.mapM verdict = .ok found := by
  induction labels with
  | nil => exact ⟨[], rfl⟩
  | cons label rest ih =>
    obtain ⟨found, others⟩ := ih fun other member => defined other (List.mem_cons_of_mem _ member)
    have own := defined label List.mem_cons_self
    have single : ∃ warning?, verdict label = .ok warning? := by
      unfold verdict
      split
      · next used undefined => simp [used, undefined] at own
      · exact ⟨_, rfl⟩
      · exact ⟨_, rfl⟩
    obtain ⟨warning?, first⟩ := single
    refine ⟨warning? :: found, ?_⟩
    rw [List.mapM_cons, first, others]
    rfl

/-- The label table gives its warnings if there is nothing to refuse: every label
that is branched to is marked. -/
theorem finish_ok {t : LabelTable}
    (defined : ∀ label ∈ t.labels, label.firstUse.isSome → label.definedAt.isSome) :
    ∃ warnings, t.finish = .ok warnings := by
  obtain ⟨found, all⟩ := verdicts_ok defined
  refine ⟨found.filterMap id, ?_⟩
  unfold finish
  rw [all]
  rfl

end LabelTable

variable {frame : Frame} {original : Body} {added : List Local} {scope : Option Scope}
  {items : List Item} {symbols : Symbols} {state : Rewriting}

namespace Progress

/-- A label that was marked is at some line, the one that stands for the item
that marks it. -/
theorem line_of_mark (progress : Progress original added scope items [] symbols state)
    {name : String} (marked : name ∈ items.flatMap Item.marks) :
    ∃ line ∈ state.body.code.linked, state.labels.place? name = some line.place := by
  obtain ⟨done, split, stands⟩ := progress.parts
  obtain ⟨item, member, marks⟩ := List.mem_flatMap.1 marked
  obtain ⟨line, among, stands⟩ := Steps.exists_of_forall₂ stands member
  exact ⟨line, by simp [split, among], stands.marks marks⟩

/-- Every line stands for an item, as all that was pending is done. So what is
known of all items is known of all lines. -/
theorem item_of_line (progress : Progress original added scope items [] symbols state)
    {line : Line} (member : line ∈ state.body.code.linked) :
    ∃ item ∈ items, item.Stands state.labels.place? line := by
  obtain ⟨done, split, stands⟩ := progress.parts
  have flipped : List.Forall₂ (fun line item => Item.Stands state.labels.place? item line) done
      items := stands.flip
  rw [split, List.append_nil] at member
  exact Steps.exists_of_forall₂ flipped member

/-- The last check finds nothing if there is nothing in the items and in the local
variables. There are no clauses that could mention the vocabulary. -/
theorem clean (progress : Progress original added scope items [] symbols state) {space : String}
    (outside : ∀ item ∈ items, item.references space = false)
    (types : ∀ found ∈ original.locals ++ added, found.type.references space = false) :
    state.body.Clean space where
  operands line member := by
    obtain ⟨item, among, stands⟩ := progress.item_of_line member
    have nothing := outside item among
    cases item with
    | operation opcode operand =>
      rw [show line.instruction = ⟨opcode, operand⟩ from stands]
      exact nothing
    | branch opcode name =>
      obtain ⟨place, -, same⟩ := stands
      rw [same]
      rfl
    | switch opcode names =>
      obtain ⟨places, -, same⟩ := stands
      rw [same]
      rfl
    | label name =>
      rw [stands.2]
      rfl
  locals found member := types found (progress.locals ▸ member)

/-- The pass closes, and nothing but debug points changes any more. All labels in
use are marked, nothing mentions the vocabulary, and every branch goes to a label
that is linked; so none of the three checks fails. -/
theorem finish (progress : Progress original added scope items [] symbols state)
    (marked : ∀ name ∈ items.flatMap Item.uses, name ∈ items.flatMap Item.marks)
    (still : ∀ item ∈ items, item.Still)
    (outside : ∀ item ∈ items, item.references (Rewrite.space frame) = false)
    (types : ∀ found ∈ original.locals ++ added,
      found.type.references (Rewrite.space frame) = false) :
    ∃ warnings, (Rewrite.finish frame).run state =
      .ok warnings { state with body := PointMap.finish state.body } := by
  have defined : ∀ label ∈ state.labels.labels, label.firstUse.isSome → label.definedAt.isSome :=
    fun label member used => (progress.labelled.defined label member).2
      (marked _ (progress.labelled.used label member used))
  obtain ⟨unused, labels⟩ := LabelTable.finish_ok defined
  have leftovers := Rewrite.checkLeftovers_eq_ok.2 (progress.clean outside types)
  have valid : (PointMap.finish state.body).validate = .ok () := by
    refine Body.validate_ok ⟨fun line member target goes => ?_, by
      simp [PointMap.finish, Body.prunePoints, progress.clauses]⟩
    obtain ⟨item, among, stands⟩ := progress.item_of_line member
    obtain ⟨name, uses, found⟩ := stands.uses (still item among) goes
    have used := marked name (List.mem_flatMap.2 ⟨item, among, uses⟩)
    obtain ⟨other, linked, there⟩ := progress.line_of_mark used
    exact List.mem_map.2 ⟨other, linked, Option.some.inj (there.symm.trans found)⟩
  refine ⟨unused ++ (state.locals.map LocalTable.unused).getD [], ?_⟩
  refine Steps.run_bind_ok.2 ⟨_, _, Steps.run_get _, ?_⟩
  refine Steps.run_bind_ok.2 ⟨_, _, Steps.run_liftExcept_eq_ok.2 ⟨labels, rfl⟩, ?_⟩
  refine Steps.run_bind_ok.2 ⟨(), _, Steps.run_liftExcept_eq_ok.2 ⟨leftovers, rfl⟩, ?_⟩
  refine Steps.run_bind_ok.2 ⟨(), _, Rewrite.run_setBody _ _, ?_⟩
  refine Steps.run_bind_ok.2 ⟨_, _, Rewrite.run_body _, ?_⟩
  exact Steps.run_bind_ok.2 ⟨(), _, Rewrite.faultless_eq_ok.2 ⟨valid, rfl⟩, rfl⟩

end Progress

end InlineCil
