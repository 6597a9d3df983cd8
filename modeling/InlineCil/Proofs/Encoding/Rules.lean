import InlineCil.Proofs.Encoding.Progress

/-!
# The rules on encoded code

Each statement of encoded code is one visit of its call: the rule for the call
succeeds and takes the pass one item further. Arguments are passed over on the
way to their call.

A pass visits every line, those of arguments included. They call builders at
most, which no rule acts on, so a scan goes through them without any change, and
`run_scan_of_site` reduces the scan of a whole statement to the rule for its
call. The number of visits left is kept track of, because a scan is given only as
many as there are lines.

The rules succeed without side conditions on the state. What each of them needs
is given by the description of the statement: the value that the arguments
denote, and the item that the value is for the opcode.
-/

namespace InlineCil

variable {frame : Frame} {original : Body} {added : List Local} {scope : Option Scope}
  {items : List Item} {item : Item} {args before rest pending : List Line} {call line : Line}
  {symbols found : Symbols} {state final : Rewriting}

namespace Rewrite

/-- A visit of a linked line is told by the marker that it calls. Every other
lemma on a visit starts from here: a call that is not classified fails, an
ordinary instruction is passed over, and a marker is handed to its rule. -/
theorem run_visit (split : state.body.code.linked = before ++ line :: rest) :
    (visit frame line.place).run state =
      match line.instruction.marker? (space frame) with
      | .error failure => .error (failure.locatedAt line.place) state
      | .ok none => .ok (rest.head?.map Line.place) state
      | .ok (some marker) => (rewriteCall frame line.place marker).run state := by
  have here : state.body.instruction line.place = .ok line.instruction :=
    Body.instruction_eq_ok.2 (Code.instruction?_of_split split)
  have next := Code.after?_of_split split
  change (faultless (state.body.instruction line.place) >>= _).run state = _
  rw [here]
  change EStateM.run (match line.instruction.marker? (space frame) with
    | .error failure => throw (failure.locatedAt line.place)
    | .ok none => body >>= fun b => pure (b.code.after? line.place)
    | .ok (some marker) => rewriteCall frame line.place marker) state = _
  split
  · rfl
  · rw [← next]
    rfl
  · rfl

/-- A line that may be part of an argument is passed over. It calls a builder or
nothing, and no rule acts on either. -/
theorem run_visit_of_part (split : state.body.code.linked = before ++ line :: rest)
    (part : line.instruction.IsPart (space frame)) :
    (visit frame line.place).run state = .ok (rest.head?.map Line.place) state := by
  rw [run_visit split]
  rcases part with passive | ⟨b, calls⟩
  · have silent : line.instruction.marker? (space frame) = .ok none := by
      simp [Instruction.marker?, Instruction.calledMethod?, Opcode.isCall_of_isPassive passive]
    rw [silent]
  · rw [show line.instruction.marker? (space frame) = .ok (some (.builder b)) from calls]
    rw [← Code.after?_of_split split]
    rfl

/-- Parts of arguments are passed over, several as one, by induction on the
lines. They are visited before the call that takes them is reached, and each
costs one visit. -/
theorem run_scan_of_parts (split : state.body.code.linked = before ++ (args ++ call :: rest))
    (parts : ∀ line ∈ args, line.instruction.IsPart (space frame)) (visits : Nat) :
    (scan frame (args.length + visits) ((args ++ call :: rest).head?.map Line.place)).run state =
      (scan frame visits (some call.place)).run state := by
  induction args generalizing before with
  | nil => simp
  | cons line args ih =>
    have next : state.body.code.linked = (before ++ [line]) ++ (args ++ call :: rest) := by
      simpa using split
    have rest := ih next fun other member => parts other (List.mem_cons_of_mem _ member)
    have visited := run_visit_of_part split (parts line List.mem_cons_self)
    rw [List.length_cons, Nat.add_right_comm]
    change ((visit frame line.place) >>= fun cursor => scan frame (args.length + visits) cursor).run
      state = _
    rw [Steps.run_bind, visited]
    exact rest

/-- The arguments of a call are passed over, then its rule runs, and there are
enough visits left for what comes after it. -/
theorem run_scan_of_site {marker : Marker}
    (split : state.body.code.linked = before ++ (args ++ call :: rest))
    (parts : Argumental (space frame) (args.map Line.instruction))
    (marks : call.instruction.marker? (space frame) = .ok (some marker))
    {visits : Nat} (enough : (args ++ call :: rest).length ≤ visits) :
    ∃ left, rest.length ≤ left ∧
      (scan frame visits ((args ++ call :: rest).head?.map Line.place)).run state =
        (rewriteCall frame call.place marker >>= scan frame left).run state := by
  obtain ⟨more, rfl⟩ := Nat.exists_eq_add_of_le enough
  have atCall : state.body.code.linked = (before ++ args) ++ call :: rest := by simpa using split
  have visited := @run_visit frame _ _ _ _ atCall
  rw [marks] at visited
  have counted : (args ++ call :: rest).length + more = args.length + (rest.length + more + 1) := by
    simp
    omega
  refine ⟨rest.length + more, Nat.le_add_right _ _, ?_⟩
  rw [counted, run_scan_of_parts split fun line member => parts _ (List.mem_map_of_mem member)]
  change ((visit frame call.place) >>= scan frame (rest.length + more)).run state = _
  rw [Steps.run_bind, visited, Steps.run_bind]

end Rewrite

namespace Progress

/-- A call that nothing refers to leaves. Nothing does, since all branches go to
labels: these have places beyond those of the original code, and there are no
clauses. -/
theorem removed (progress : Progress original added scope items (call :: rest) symbols state) :
    ∃ i left, state.body.remove call.place = .ok (i, left) ∧
      Progress original added scope items rest symbols { state with body := left } := by
  obtain ⟨done, split, stands⟩ := progress.parts
  have below : call.place.index < original.code.next := progress.index_lt List.mem_cons_self
  have unnamed : state.body.refersTo call.place = false := by
    have aside : state.body.code.isTarget call.place = false := by
      refine List.any_eq_false.2 fun line member => ?_
      simp only [List.contains_iff_mem]
      intro goes
      have fresh := progress.targets line member _ goes
      omega
    simp [Body.refersTo, aside, progress.clauses]
  have leaves : ∃ i left, state.body.remove call.place = .ok (i, left) := by
    rw [Body.remove_of_split split, unnamed]
    split
    · exact ⟨_, _, rfl⟩
    · exact ⟨_, _, rfl⟩
  obtain ⟨i, left, removal⟩ := leaves
  refine ⟨i, left, removal, ?_⟩
  have part : Progress original added scope items ([call] ++ rest) symbols state := progress
  refine part.shed split stands (Body.sheds_of_remove split removal) fun place fresh => ?_
  exact if_neg fun same => by
    rw [same] at fresh
    omega

/-- The rule that removes its call succeeds, and the pass goes on with the next
statement. -/
theorem removeCall (progress : Progress original added scope items (call :: rest) symbols state)
    (frame : Frame) (taken : List Place) :
    ∃ final, (Rewrite.removeCall frame call.place taken).run state =
        .ok (rest.head?.map Line.place) final ∧
      Progress original added scope items rest symbols final := by
  obtain ⟨done, split, stands⟩ := progress.parts
  obtain ⟨i, left, removal, after⟩ := progress.removed
  obtain ⟨points, mapping⟩ := Rewrite.run_mapPoints frame (taken ++ [call.place])
    (state.body.code.after? call.place) { state with body := left }
  refine ⟨_, ?_, after.points points⟩
  rw [← Code.after?_of_split split]
  refine Steps.run_bind_ok.2 ⟨_, _, Rewrite.run_body _, ?_⟩
  refine Steps.run_bind_ok.2 ⟨(), _, Rewrite.remove_eq_ok.2 ⟨i, left, removal, rfl⟩, ?_⟩
  exact Steps.run_bind_ok.2 ⟨_, _, mapping, rfl⟩

/-- An emitting call becomes the line of its item: its argument is read, the
value is composed into an instruction, and the call is overwritten with it. -/
theorem emit {opcode : Opcode} {parameter : EmitParameter} {value : Argument}
    {argument : EmitArgument (Rewrite.space frame) parameter}
    (progress : Progress original added scope items (args ++ call :: rest) symbols state)
    (blocks : frame.blocks = Blocks.ofBody original) (nameless : Blocks.namedPlaces original = [])
    (held : args.map Line.instruction = argument.code)
    (denotes : argument.denote.run symbols = .ok value found)
    (emits : opcode.Emits frame.method scope value item)
    (named : ∀ name ∈ item.uses, name ≠ "") :
    ∃ final, (Rewrite.emit frame call.place opcode parameter).run state =
        .ok (rest.head?.map Line.place) final ∧
      Progress original added scope (items ++ [item]) rest found final := by
  obtain ⟨left, taken, reads, ready⟩ := progress.reading
    (fun site bound => Reader.argument site bound parameter) blocks nameless held
    (Marker.Reads.emitted opcode argument).argumental
    (@Reader.follows_argument (Rewrite.siteOf frame call) parameter argument) denotes
  obtain ⟨i, composed, composing, notes, labelled, stands⟩ :=
    Rewrite.run_instruction emits ready.scope ready.labelled named
  have fresh := labelled.targets_fresh (stands call.place) emits.still
  have done := ready.emitted notes emits.marks labelled (stands call.place) fresh
  obtain ⟨before, split, -⟩ := ready.parts
  have linked := notes.linked.trans split
  have next : (composed.body.code.overwrite call.place i).after? call.place =
      rest.head?.map Line.place :=
    (Code.after?_mapLinked _ _).trans (Code.after?_of_split linked)
  obtain ⟨points, mapping⟩ := Rewrite.run_mapPoints frame (taken ++ [call.place])
    (some call.place)
    { composed with
      body := { composed.body with code := composed.body.code.overwrite call.place i } }
  refine ⟨_, ?_, done.points points⟩
  refine Steps.run_bind_ok.2 ⟨_, _, reads, ?_⟩
  refine Steps.run_bind_ok.2 ⟨_, _, Rewrite.located_eq_ok.2 composing, ?_⟩
  refine Steps.run_bind_ok.2 ⟨(), _, Rewrite.replace_eq_ok.2
    ⟨_, _, Body.replace_of_split linked i, rfl⟩, ?_⟩
  refine Steps.run_bind_ok.2 ⟨(), _, mapping, ?_⟩
  refine Steps.run_bind_ok.2 ⟨_, _, Rewrite.run_body _, ?_⟩
  rw [← next]
  rfl

/-- A call that marks a label becomes the line of the label. The name is one that
was not marked before, and not empty. -/
theorem markLabel {name : String}
    (progress : Progress original added scope items (args ++ call :: rest) symbols state)
    (blocks : frame.blocks = Blocks.ofBody original) (nameless : Blocks.namedPlaces original = [])
    (held : args.map Line.instruction = [⟨.ldstr, .string name⟩]) (named : name ≠ "")
    (unmarked : name ∉ items.flatMap Item.marks) :
    ∃ final, (Rewrite.markLabel frame call.place).run state =
        .ok (rest.head?.map Line.place) final ∧
      Progress original added scope (items ++ [.label name]) rest symbols final := by
  have told : (pure name : Resolving String).run symbols = .ok name symbols := rfl
  obtain ⟨left, taken, reads, ready⟩ := progress.reading (fun site _ => Reader.string site)
    blocks nameless held (Expression.text name).argumental
    (fun _ _ => Reader.follows_text name) told
  obtain ⟨place, defined, defining, done, next⟩ := ready.marked named unmarked
  obtain ⟨points, mapping⟩ := Rewrite.run_mapPoints frame (taken ++ [call.place]) (some place)
    defined
  refine ⟨_, ?_, done.points points⟩
  refine Steps.run_bind_ok.2 ⟨_, _, reads, ?_⟩
  refine Steps.run_bind_ok.2 ⟨_, _, Rewrite.located_eq_ok.2 defining, ?_⟩
  refine Steps.run_bind_ok.2 ⟨(), _, mapping, ?_⟩
  refine Steps.run_bind_ok.2 ⟨_, _, Rewrite.run_body _, ?_⟩
  rw [← next]
  rfl

/-- The call that declares local variables leaves, and the variables are there.

The arguments denote the declarations, and what fits is admitted, since nothing
is declared yet and the body still has the local variables it began with. -/
theorem declareLocals {d : Declaration (Rewrite.space frame)} {declared : List LocalDeclaration}
    {init : Bool}
    (progress : Progress original [] none [] (args ++ call :: rest) symbols state)
    (blocks : frame.blocks = Blocks.ofBody original) (nameless : Blocks.namedPlaces original = [])
    (held : args.map Line.instruction = d.arguments.code)
    (denotes : d.arguments.denote.run symbols = .ok (declared, init) found)
    (fit : LocalDeclaration.Fit original.locals.length declared)
    (adds : List.Forall₂ LocalDeclaration.Adds declared added) :
    ∃ final, (Rewrite.declareLocals frame call.place d.hasInitFlag).run state =
        .ok (rest.head?.map Line.place) final ∧
      Progress original added
        (some ⟨original.locals.length, declared.map LocalDeclaration.name⟩) [] rest found
        final := by
  obtain ⟨left, taken, reads, ready⟩ := progress.reading (Rewrite.declarations d.hasInitFlag)
    blocks nameless held (Marker.Reads.declarations d.arguments).argumental
    (@Reader.follows_declarations (Rewrite.siteOf frame call) d.hasInitFlag d.arguments) denotes
  have base : left.locals = original.locals := by simpa using ready.locals
  have undeclared : state.locals = none := Option.map_eq_none_iff.1 progress.scope
  have admits : Rewriting.Admits { state with body := left, symbols := found } declared :=
    ⟨undeclared, base ▸ fit⟩
  obtain ⟨others, same, declares⟩ := Rewrite.run_declare admits init call.place
  obtain rfl : others = added := by
    rw [LocalDeclaration.forall₂_adds_iff.1 same, LocalDeclaration.forall₂_adds_iff.1 adds]
  have done : Progress original others
      (some ⟨original.locals.length, declared.map LocalDeclaration.name⟩) [] (call :: rest) found
      (Rewrite.declaredAfter { state with body := left, symbols := found } declared others init
        call.place) :=
    { parts := ready.parts
      untouched := ready.untouched
      targets := ready.targets
      clauses := ready.clauses
      locals := by simp [Rewrite.declaredAfter, base]
      scope := by simp [Rewrite.declaredAfter, LocalTable.scope, base, Function.comp_def]
      symbols := rfl
      labelled := ready.labelled }
  obtain ⟨final, removing, after⟩ := done.removeCall frame taken
  exact ⟨final, Steps.run_bind_ok.2 ⟨_, _, reads, Steps.run_bind_ok.2 ⟨_, _, declares, removing⟩⟩,
    after⟩

/-- Declared variables for which there is no room, or two of one name, are
refused: where the rule succeeds, they fit. So the condition in a description is
not stronger than it has to be. -/
theorem fit_of_declareLocals {d : Declaration (Rewrite.space frame)}
    {declared : List LocalDeclaration} {init : Bool} {cursor : Option Place}
    (progress : Progress original [] none [] (args ++ call :: rest) symbols state)
    (blocks : frame.blocks = Blocks.ofBody original) (nameless : Blocks.namedPlaces original = [])
    (held : args.map Line.instruction = d.arguments.code)
    (denotes : d.arguments.denote.run symbols = .ok (declared, init) found)
    (ran : (Rewrite.declareLocals frame call.place d.hasInitFlag).run state = .ok cursor final) :
    LocalDeclaration.Fit original.locals.length declared := by
  obtain ⟨left, taken, reads, ready⟩ := progress.reading (Rewrite.declarations d.hasInitFlag)
    blocks nameless held (Marker.Reads.declarations d.arguments).argumental
    (@Reader.follows_declarations (Rewrite.siteOf frame call) d.hasInitFlag d.arguments) denotes
  have base : left.locals = original.locals := by simpa using ready.locals
  obtain ⟨_, _, reading, ran⟩ := Steps.run_bind_ok.1 ran
  rw [reads] at reading
  obtain ⟨rfl, rfl⟩ := by simpa using reading
  obtain ⟨_, _, declaring, -⟩ := Steps.run_bind_ok.1 ran
  exact base ▸ (Rewrite.declare_eq_ok declaring).1.fit

/-- A plain line stands for itself and is passed over. Its operand has no
targets, so as an item it is complete. -/
theorem plain (progress : Progress original added scope items (line :: rest) symbols state) :
    Progress original added scope
      (items ++ [.operation line.instruction.opcode line.instruction.operand]) rest symbols
      state := by
  obtain ⟨done, split, stands⟩ := progress.parts
  obtain ⟨before, untouched⟩ := progress.untouched
  exact
    { progress with
      parts := ⟨done ++ [line], by simp [split], List.rel_append stands (.cons rfl .nil)⟩
      untouched := ⟨before ++ [line], by simp [untouched]⟩
      labelled := by simpa [Item.uses, Item.marks] using progress.labelled }

end Progress

end InlineCil
