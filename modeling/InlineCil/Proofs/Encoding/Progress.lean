import InlineCil.Proofs.Blocks
import InlineCil.Proofs.Encoding.Operands

/-!
# Progress through encoded code

While a pass goes through encoded code, the lines before the pending ones stand
for the items described so far, and the pending ones are as they were encoded.
Each statement takes one step: its arguments leave, and its call becomes the line
of its item. Nothing that was rewritten before is touched again, because it
refers to labels only and labels are at new places.

`Progress` is the invariant. The part on branches is what makes the proofs short.
All targets in the code are places of labels, hence not original, so lines that
leave were not named, and the code after a removal is the code without the lines,
branches untouched.

The lemmas here are the changes of the body that rules make: lines leave (`shed`,
`reading`), a call is overwritten (`emitted`), a label comes in (`replaced`,
`marked`), or something is only noted (`noted`). The rules themselves are
composed of them in the next module.
-/

namespace InlineCil

/-- A pass has come as far as the pending lines of encoded code. -/
structure Progress (original : Body) (added : List Local) (scope : Option Scope)
    (items : List Item) (pending : List Line) (symbols : Symbols) (state : Rewriting) :
    Prop where
  parts : ∃ done, state.body.code.linked = done ++ pending ∧
    List.Forall₂ (Item.Stands state.labels.place?) items done
  untouched : ∃ before, original.code.linked = before ++ pending
  targets : ∀ line ∈ state.body.code.linked, ∀ target ∈ line.instruction.targets,
    original.code.next ≤ target.index
  clauses : state.body.clauses = []
  locals : state.body.locals = original.locals ++ added
  scope : state.locals.map LocalTable.scope = scope
  symbols : state.symbols = symbols
  labelled : Labelled original.code.next (items.flatMap Item.uses) (items.flatMap Item.marks)
    state.labels state.body.code

/-- Lines leave a body as they are if the move of starts is of no concern to their
branches. -/
theorem Body.Sheds.still {b left : Body} {kept gone : List Line} {start : Place → Place}
    {stop : Place → Option Place} (sheds : b.Sheds kept gone start stop left)
    (fixed : ∀ line ∈ kept, ∀ target ∈ line.instruction.targets, start target = target) :
    left.code.linked = kept := by
  refine (sheds.linked.trans (List.map_congr_left fun line member => ?_)).trans (List.map_id kept)
  exact (Line.moveTargets_congr (fixed line member)).trans line.moveTargets_id

variable {frame : Frame} {original left : Body} {added : List Local} {scope : Option Scope}
  {items : List Item} {item : Item} {args rest pending done gone : List Line} {call line : Line}
  {symbols found : Symbols} {state final : Rewriting}

namespace Progress

/-- The place of a pending line was handed out for the original code, so no label
is there. -/
theorem index_lt (progress : Progress original added scope items pending symbols state)
    (member : line ∈ pending) : line.place.index < original.code.next := by
  obtain ⟨before, split⟩ := progress.untouched
  refine original.code.index_lt (List.mem_append_left _ ?_)
  rw [split]
  exact List.mem_append_right _ member

/-- Debug points do not matter: items say nothing about them. So the collapsing
of points between two statements can be left out of the argument. -/
theorem points (progress : Progress original added scope items pending symbols state)
    (points : List DebugPoint) :
    Progress original added scope items pending symbols
      { state with body := { state.body with points := points } } where
  parts := progress.parts
  untouched := progress.untouched
  targets := progress.targets
  clauses := progress.clauses
  locals := progress.locals
  scope := progress.scope
  symbols := progress.symbols
  labelled := progress.labelled

/-- Symbols are found on the way. What was described before does not depend on
them any more. -/
theorem looked (progress : Progress original added scope items pending symbols state)
    (found : Symbols) :
    Progress original added scope items pending found { state with symbols := found } where
  parts := progress.parts
  untouched := progress.untouched
  targets := progress.targets
  clauses := progress.clauses
  locals := progress.locals
  scope := progress.scope
  symbols := rfl
  labelled := progress.labelled

/-- The first of the pending lines leave. References to them go elsewhere, but
there are none: all branches go to new places. -/
theorem shed (progress : Progress original added scope items (gone ++ rest) symbols state)
    (split : state.body.code.linked = done ++ (gone ++ rest))
    (stands : List.Forall₂ (Item.Stands state.labels.place?) items done)
    {start : Place → Place} {stop : Place → Option Place}
    (sheds : state.body.Sheds (done ++ rest) gone start stop left)
    (fixed : ∀ place, original.code.next ≤ place.index → start place = place) :
    Progress original added scope items rest symbols { state with body := left } := by
  have among {line : Line} (member : line ∈ done ++ rest) : line ∈ state.body.code.linked := by
    rw [split]
    rcases List.mem_append.1 member with early | late
    · exact List.mem_append_left _ early
    · exact List.mem_append_right _ (List.mem_append_right _ late)
  have still := sheds.still fun line member target goes =>
    fixed target (progress.targets line (among member) target goes)
  obtain ⟨before, untouched⟩ := progress.untouched
  obtain ⟨lines, -, detached⟩ := sheds.detached
  exact
    { parts := ⟨done, still, stands⟩
      untouched := ⟨before ++ gone, by rw [untouched, List.append_assoc]⟩
      targets := fun line member => progress.targets line (among (still ▸ member))
      clauses := by rw [sheds.clauses, progress.clauses]; rfl
      locals := sheds.locals.trans progress.locals
      scope := progress.scope
      symbols := progress.symbols
      labelled := progress.labelled.congr (Nat.le_of_eq sheds.next.symm) fun line waiting _ =>
        detached ▸ List.mem_append_right _ waiting }

/-- References to original places go elsewhere without moving those to labels. -/
theorem gather_fixed (progress : Progress original added scope items pending symbols state)
    (part : ∀ line ∈ gone, line ∈ pending) (target : Place) {place : Place}
    (fresh : original.code.next ≤ place.index) :
    gather (gone.map Line.place) target place = place := by
  refine if_neg fun among => ?_
  obtain ⟨line, member, rfl⟩ := List.mem_map.1 among
  have inside := progress.index_lt (part line member)
  omega

/-- The arguments of a call leave when they are read. They end no block and
nothing is named, so they are in the block of the call, and a reader that follows
their code gives what they mean. -/
theorem reading {α : Type} (reader : Site → Nat → Reader α) {code : List Instruction}
    {meaning : Resolving α} {value : α}
    (progress : Progress original added scope items (args ++ call :: rest) symbols state)
    (blocks : frame.blocks = Blocks.ofBody original) (nameless : Blocks.namedPlaces original = [])
    (held : args.map Line.instruction = code) (part : Argumental (Rewrite.space frame) code)
    (follows : ∀ bound, code.length ≤ bound →
      Reader.Follows (Rewrite.siteOf frame call) (reader (Rewrite.siteOf frame call) bound)
        code meaning)
    (means : meaning.run symbols = .ok value found) :
    ∃ left taken, (Rewrite.reading frame call.place reader).run state =
        .ok (value, taken) { state with body := left, symbols := found } ∧
      Progress original added scope items (call :: rest) found
        { state with body := left, symbols := found } := by
  obtain ⟨done, split, stands⟩ := progress.parts
  obtain ⟨before, untouched⟩ := progress.untouched
  have together : ∀ line ∈ args, frame.blocks.sameBlock line.place call.place = true := by
    intro line member
    rw [blocks]
    refine Blocks.sameBlock_of_run nameless (by simpa using untouched) ?_ member
    intro other among
    have inCode : other.instruction ∈ code := held ▸ List.mem_map_of_mem among
    exact Opcode.endsBlock_of_isArgumental (part _ inCode).isArgumental
  have room : code.length ≤ (done ++ args).length := by
    rw [← held]
    simp
  have yields := Rewrite.reading_of_follows (by simpa using split) held together
    (follows _ room)
  unfold Rewrite.Yields at yields
  rw [progress.symbols, means] at yields
  obtain ⟨left, took, run⟩ := yields
  have fixed (place : Place) (fresh : original.code.next ≤ place.index) :
      gather (args.map Line.place) call.place place = place :=
    progress.gather_fixed (fun line member => List.mem_append_left _ member) _ fresh
  have shed := progress.shed split stands took fixed
  exact ⟨left, _, run, shed.looked found⟩

/-- The call of an emitting statement becomes the line of its item. It keeps its
original place, and its branches go to labels. -/
theorem emitted (progress : Progress original added scope items (call :: rest) symbols state)
    (notes : state.Notes final) {i : Instruction} (unmarked : item.marks = [])
    (labelled : Labelled original.code.next (items.flatMap Item.uses ++ item.uses)
      (items.flatMap Item.marks) final.labels final.body.code)
    (stands : item.Stands final.labels.place? ⟨call.place, i⟩)
    (fresh : ∀ target ∈ i.targets, original.code.next ≤ target.index) :
    Progress original added scope (items ++ [item]) rest symbols
      { final with
        body := { final.body with code := final.body.code.overwrite call.place i } } := by
  obtain ⟨done, split, earlier⟩ := progress.parts
  obtain ⟨before, untouched⟩ := progress.untouched
  have linked := Code.linked_overwrite (notes.linked.trans split) i
  exact
    { parts := by
        refine ⟨done ++ [⟨call.place, i⟩], by rw [linked, List.append_assoc]; rfl, ?_⟩
        exact List.rel_append (earlier.imp fun item line held => held.mono notes.labels)
          (.cons stands .nil)
      untouched := ⟨before ++ [call], by simp [untouched]⟩
      targets := by
        intro line member
        rw [linked] at member
        rcases List.mem_append.1 member with early | late
        · exact progress.targets line (by simp [split, early])
        · rcases List.mem_cons.1 late with rfl | later
          · exact fresh
          · exact progress.targets line (by simp [split, later])
      clauses := notes.clauses.trans progress.clauses
      locals := notes.locals.trans progress.locals
      scope := notes.scope.trans progress.scope
      symbols := notes.symbols.trans progress.symbols
      labelled := by
        have noted : Labelled _ _ _ _ (final.body.code.overwrite call.place i) :=
          labelled.congr (Nat.le_refl _) fun line waiting _ => waiting
        simpa [unmarked] using noted }

/-- Labels that were mentioned only leave the items as they are. Their
instructions wait outside the code, so no line has moved, and the places that
labels had before are the same. -/
theorem noted (progress : Progress original added scope items pending symbols state)
    (notes : state.Notes final)
    (labelled : Labelled original.code.next (items.flatMap Item.uses) (items.flatMap Item.marks)
      final.labels final.body.code) :
    Progress original added scope items pending symbols final where
  parts := by
    obtain ⟨done, split, earlier⟩ := progress.parts
    exact ⟨done, notes.linked.trans split, earlier.imp fun item line held => held.mono notes.labels⟩
  untouched := progress.untouched
  targets line member := progress.targets line (notes.linked ▸ member)
  clauses := notes.clauses.trans progress.clauses
  locals := notes.locals.trans progress.locals
  scope := notes.scope.trans progress.scope
  symbols := notes.symbols.trans progress.symbols
  labelled := labelled

/-- The instruction of a label that was mentioned takes the position of the call
that marks it. It waits to be linked, since the label was not marked before. -/
theorem replaced (progress : Progress original added scope items (call :: rest) symbols state)
    {label : Label} (known : state.labels.find? label.name = some label)
    (unmarked : label.name ∉ items.flatMap Item.marks) :
    ∃ i left, state.body.replaceWith call.place label.place = .ok (i, left) ∧
      Progress original added scope (items ++ [.label label.name]) rest symbols
        { state with labels := state.labels.define label.name call.place, body := left } ∧
      left.code.after? label.place = rest.head?.map Line.place := by
  obtain ⟨member, -⟩ := LabelTable.mem_of_find? known
  obtain ⟨done, split, earlier⟩ := progress.parts
  obtain ⟨before, untouched⟩ := progress.untouched
  have waiting := progress.labelled.waiting label member unmarked
  obtain ⟨i, left, replaces, sheds⟩ := Body.replaceWith_of_split split waiting
  have below : call.place.index < original.code.next := progress.index_lt List.mem_cons_self
  have fresh : ∀ line ∈ done ++ (⟨label.place, ⟨.nop, .none⟩⟩ : Line) :: rest,
      ∀ target ∈ line.instruction.targets, original.code.next ≤ target.index := by
    intro line among
    rcases List.mem_append.1 among with early | late
    · exact progress.targets line (by simp [split, early])
    · rcases List.mem_cons.1 late with rfl | later
      · intro target goes
        simp [Instruction.targets, Operand.targets] at goes
      · exact progress.targets line (by simp [split, later])
  have linked := sheds.still fun line among target goes => if_neg fun same => by
    have high := fresh line among target goes
    rw [same] at high
    omega
  obtain ⟨lines, -, detached⟩ := sheds.detached
  have still (label : Label) :
      ({ label with definedAt := some call.place } : Label).name = label.name ∧
        ({ label with definedAt := some call.place } : Label).place = label.place := ⟨rfl, rfl⟩
  have found : state.labels.place? label.name = some label.place :=
    Option.map_eq_some_iff.2 ⟨label, known, rfl⟩
  have there : (state.labels.define label.name call.place).place? label.name =
      some label.place := (LabelTable.place?_update _ _ _ still).trans found
  refine ⟨i, left, replaces, ?_, Code.after?_of_split linked⟩
  exact
    { parts := by
        refine ⟨done ++ [⟨label.place, ⟨.nop, .none⟩⟩], by simp [linked], ?_⟩
        refine List.rel_append (earlier.imp fun item line held => ?_) (.cons ⟨there, rfl⟩ .nil)
        exact held.mono (LabelTable.extends_update _ _ still)
      untouched := ⟨before ++ [call], by simp [untouched]⟩
      targets := fun line among => fresh line (linked ▸ among)
      clauses := by rw [sheds.clauses, progress.clauses]; rfl
      locals := sheds.locals.trans progress.locals
      scope := progress.scope
      symbols := progress.symbols
      labelled := by
        have isKnown : (state.labels.find? label.name).isSome := by simp [known]
        have linkedLabel := (progress.labelled.define isKnown call.place).link there (by simp)
          sheds.next fun line waits other => detached ▸ List.mem_append_right _
            (Code.mem_detached_linkBefore waits other)
        simpa [Item.uses, Item.marks] using linkedLabel }

/-- A label that was not marked yet takes the position of the call that marks it,
whether it was mentioned before or is met for the first time. -/
theorem marked (progress : Progress original added scope items (call :: rest) symbols state)
    {name : String} (named : name ≠ "") (unmarked : name ∉ items.flatMap Item.marks) :
    ∃ place final, (Rewrite.defineLabel name call.place).run state = .ok place final ∧
      Progress original added scope (items ++ [.label name]) rest symbols final ∧
      final.body.code.after? place = rest.head?.map Line.place := by
  obtain ⟨place, middle, mentioning, notes, labelled, found⟩ :=
    Rewrite.run_labelPlace progress.labelled named
  obtain ⟨label, known, rfl⟩ := Option.map_eq_some_iff.1 found
  obtain ⟨member, rfl⟩ := LabelTable.mem_of_find? known
  obtain ⟨i, left, replaces, done, next⟩ := (progress.noted notes labelled).replaced known unmarked
  have undefined : label.definedAt.isSome = false := by
    simpa using (labelled.defined label member).not.2 unmarked
  refine ⟨label.place, _, ?_, done, next⟩
  refine Steps.run_bind_ok.2 ⟨_, _, mentioning, ?_⟩
  refine Steps.run_bind_ok.2 ⟨_, _, Steps.run_get _, ?_⟩
  dsimp only
  rw [known, Option.bind_some, undefined]
  refine Steps.run_bind_ok.2 ⟨_, _, rfl, ?_⟩
  refine Steps.run_bind_ok.2 ⟨_, _, rfl, ?_⟩
  exact Steps.run_bind_ok.2 ⟨_, _, Rewrite.faultless_eq_ok.2 ⟨replaces, rfl⟩, rfl⟩

end Progress

end InlineCil
