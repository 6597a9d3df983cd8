import InlineCil.Proofs.Labels.Rules

/-!
# What a visit keeps about labels

Whatever a visit mentions is recorded, and what was mentioned before keeps its
line: branches go on going to the places of their labels, and labels that were
marked stand where they were put.

A line that stands for a call lasts: no rule takes it as an argument, removes or
overwrites it. Its branches go to places of labels, which no rule vacates. So the
lines laid so far stay through the rest of the pass without being moved, and only
the rule that adds a line needs a closer look.

The order of the code is kept by taking every label for the call that marked it.
When a label is marked its place is not yet in the order, and it comes to stand
where the call stood; so the list of places, read in this way, is the same before
and after.
-/

namespace InlineCil

variable {frame : Frame} {original : Body} {calls : List LabelCall} {state middle final : Rewriting}
  {call place : Place} {name : String}

namespace Laid

/-- In the beginning no call has laid a line, and the code is in its own order. -/
theorem initial (original : Body) (symbols : Symbols) :
    Laid original [] { body := original, symbols } where
  known := by simp
  lines := by simp
  lasting := by simp
  order := ⟨id, fun _ _ => rfl, by simp, by simp⟩

/-- The lines of calls go to places of labels only. So they are among the lines
that are spared as long as labels are. -/
theorem anchored (laid : Laid original calls state)
    (anchored : ∀ label ∈ state.labels.labels, state.body.Anchors label.place) {c : LabelCall}
    (member : c ∈ calls) :
    ∀ target ∈ (c.line state.labels.placeOf).instruction.targets, state.body.Anchors target := by
  intro target goes
  obtain ⟨name, among, rfl⟩ := LabelCall.exists_of_target goes
  obtain ⟨place, found⟩ := Option.isSome_iff_exists.1 (laid.known c member name among)
  obtain ⟨label, known, rfl⟩ := Option.map_eq_some_iff.1 found
  rw [LabelTable.placeOf_eq found]
  exact anchored label (LabelTable.mem_of_find? known).1

/-- Labels that have places keep them, so the lines of calls stay the same. -/
theorem line_eq (laid : Laid original calls state) {later : LabelTable}
    (grows : state.labels.Extends later) {c : LabelCall} (member : c ∈ calls) :
    c.line later.placeOf = c.line state.labels.placeOf :=
  LabelCall.line_congr fun name among => grows.placeOf (laid.known c member name among)

/-- What was put into the code stays when labels are added and lines leave that
do not last. The instruction of a label is the anchor of the branches to it, and
anchors are spared. -/
theorem kept (laid : Laid original calls state)
    (anchored : ∀ label ∈ state.labels.labels, state.body.Anchors label.place)
    (spares : state.body.Spares final.body) (grows : state.labels.Extends final.labels) :
    Laid original calls final where
  known c member name among := grows.isSome_place? (laid.known c member name among)
  lines c member := by
    rw [laid.line_eq grows member]
    exact spares.lines _ (laid.lines c member) (laid.lasting c member)
      (laid.anchored anchored member)
  lasting c member := by
    rw [laid.line_eq grows member]
    exact laid.lasting c member
  order := by
    obtain ⟨stood, originals, marks, order⟩ := laid.order
    refine ⟨stood, originals, fun call name member => ?_, (spares.places.map stood).trans order⟩
    rw [grows.placeOf (laid.known _ member name (List.mem_singleton_self _))]
    exact marks call name member

/-- A new branch or switch is put into the code. It marks nothing, so the order
is as before. -/
theorem emitted (laid : Laid original calls state) {c : LabelCall}
    (known : ∀ name ∈ c.names, (state.labels.place? name).isSome)
    (linked : c.line state.labels.placeOf ∈ state.body.code.linked)
    (lasts : (c.line state.labels.placeOf).instruction.opcode.isLasting = true)
    (emits : ∀ call name, c ≠ .mark call name) : Laid original (calls ++ [c]) state where
  known := by simpa [or_imp, forall_and] using ⟨laid.known, known⟩
  lines := by simpa [or_imp, forall_and] using ⟨laid.lines, linked⟩
  lasting := by simpa [or_imp, forall_and] using ⟨laid.lasting, lasts⟩
  order := by
    obtain ⟨stood, originals, marks, order⟩ := laid.order
    refine ⟨stood, originals, fun call name member => ?_, order⟩
    rcases List.mem_append.1 member with earlier | new
    · exact marks call name earlier
    · exact absurd (List.mem_singleton.1 new).symm (emits call name)

end Laid

namespace Charts

theorem initial (original : Body) (symbols : Symbols) :
    Charts original [] { body := original, symbols } where
  ledger := .initial original symbols
  laid := .initial original symbols

/-- A step that mentions no labels keeps all that holds of them. -/
theorem quiet (charts : Charts original calls state) (quiet : state.Quiet final) :
    Charts original calls final where
  ledger := charts.ledger.spared quiet.labels quiet.spares
  laid := charts.laid.kept charts.ledger.anchored quiet.spares (quiet.labels ▸ .refl _)

end Charts

theorem Body.Calls.congr {b left : Body} (calls : b.Calls place)
    (same : left.code.linked = b.code.linked) : left.Calls place := by
  obtain ⟨opcode, ⟨line, member, there, runs⟩, isCall⟩ := calls
  exact ⟨opcode, ⟨line, same ▸ member, there, runs⟩, isCall⟩

theorem LabelCall.ne_mark_of_argument {c : LabelCall} {opcode : Opcode} {value : Argument}
    (mentioned : ofArgument? call opcode value = some c) :
    ∀ call name, c ≠ .mark call name := by
  rintro there name rfl
  cases value <;> simp [ofArgument?] at mentioned

namespace Charts

variable {cursor : Option Place}

theorem argument_of_reading {α : Type} {reader : Site → Nat → Reader α} {value : α}
    {taken : List Place}
    (ran : (Rewrite.reading frame call reader).run state = .ok (value, taken) final) :
    Rewrite.argument? frame call state reader = some value := by
  unfold Rewrite.argument?
  rw [ran]

/-- The labels of an emitted instruction are recorded, and it goes to their
places. If its argument names no label, emitting is like a quiet step. -/
theorem emit {opcode : Opcode} {parameter : EmitParameter} (charts : Charts original calls state)
    (linked : state.body.Calls call)
    (ran : (Rewrite.emit frame call opcode parameter).run state = .ok cursor final) :
    ∃ value, Rewrite.argument? frame call state
        (fun site bound => Reader.argument site bound parameter) = some value ∧
      Charts original (calls ++ (LabelCall.ofArgument? call opcode value).toList) final := by
  obtain ⟨⟨value, taken⟩, read, reading, ran⟩ := Steps.run_bind_ok.1 ran
  obtain ⟨quiet, still⟩ := Rewriting.Quiet.reading linked
    (fun site bound _ => Framed.readsFor_argument site bound opcode parameter) reading
  obtain ⟨i, composed, composing, ran⟩ := Steps.run_bind_ok.1 ran
  replace composing := Rewrite.located_eq_ok.1 composing
  obtain ⟨_, _, replacing, ran⟩ := Steps.run_bind_ok.1 ran
  obtain ⟨old, b, replaced, rfl⟩ := Rewrite.replace_eq_ok.1 replacing
  obtain rfl := Body.eq_of_replace replaced
  obtain ⟨_, mapped, mapping, ran⟩ := Steps.run_bind_ok.1 ran
  have points := Rewriting.Quiet.mapped mapping
  obtain ⟨rfl, rfl⟩ := by simpa using Rewrite.body_bind_eq_ok.1 ran
  refine ⟨value, argument_of_reading reading, ?_⟩
  have before := charts.quiet quiet
  have overwritten (runs : composed.body.Calls call) : composed.Quiet { composed with
      body := { composed.body with code := composed.body.code.overwrite call i } } := by
    obtain ⟨_, runs, isCall⟩ := runs
    exact ⟨rfl, (Body.spares_overwrite runs (Opcode.isLasting_of_isCall isCall) i).1⟩
  cases mentioned : LabelCall.ofArgument? call opcode value with
  | none =>
    obtain ⟨body, labels⟩ := LabelCall.instruction_still mentioned composing
    have same : composed.body.code = read.body.code := congrArg Body.code body
    have runs := still.congr (congrArg Code.linked same)
    rw [Option.toList_none, List.append_nil]
    exact (before.quiet ((overwritten runs).after labels same)).quiet points
  | some c =>
    obtain ⟨ledger, notes, known, line, lasts⟩ := before.ledger.instruction mentioned composing
    have after := overwritten (still.congr notes.linked)
    obtain ⟨_, runs, isCall⟩ := still.congr notes.linked
    have there := (Body.spares_overwrite runs (Opcode.isLasting_of_isCall isCall) i).2.1
    have noted := before.laid.kept before.ledger.anchored notes.spares notes.labels
    have laid := noted.kept ledger.anchored after.spares (.refl _)
    have recorded := ledger.spared after.labels after.spares
    have written : Charts original (calls ++ [c]) _ :=
      ⟨by simpa using recorded,
        laid.emitted known (line ▸ there) (line ▸ lasts) (LabelCall.ne_mark_of_argument mentioned)⟩
    exact written.quiet points

end Charts

theorem Instruction.isCall_of_marker? {space : String} {i : Instruction} {marker : Marker}
    (marks : i.marker? space = .ok (some marker)) : i.opcode.isCall = true := by
  unfold marker? calledMethod? at marks
  by_contra other
  simp [other] at marks

/-- Replacing an element changes nothing for a function that does not tell the
two apart. -/
theorem map_replace {α β : Type} [BEq α] [LawfulBEq α] {items : List α} {old new : α}
    {f g : α → β} (same : g new = f old) (others : ∀ item ∈ items, g item = f item) :
    (items.replace old new).map g = items.map f := by
  induction items with
  | nil => rfl
  | cons first rest ih =>
    obtain ⟨here, later⟩ := List.forall_mem_cons.1 others
    rw [List.replace_cons]
    split
    · next found =>
      rw [List.map_cons, List.map_cons, same, List.map_congr_left later, beq_iff_eq.1 found]
    · rw [List.map_cons, List.map_cons, here, ih later]

section Marking

variable {mentions : List Mention} {names : List String} {label : Label} {i : Instruction}
  {left : Body}

theorem LabelTable.extends_define (t : LabelTable) (name : String) (call : Place) :
    t.Extends (t.define name call) :=
  extends_update t name fun label => by exact ⟨rfl, rfl⟩

/-- A label that is not marked yet was not mentioned as marked, and its
instruction waits. -/
theorem Ledger.unmarked (ledger : Ledger original names mentions state)
    (member : label ∈ state.labels.labels) (undefined : label.definedAt = none) :
    markedAt? mentions label.name = none ∧
      ⟨label.place, ⟨.nop, .none⟩⟩ ∈ state.body.code.detached := by
  refine ⟨ledger.records.marks label member ▸ undefined,
    ledger.labelled.waiting label member fun marked => ?_⟩
  simpa [undefined] using (ledger.labelled.defined label member).2 marked

/-- The table records that a label is marked, whose instruction takes the place
of a call. The labels that are not marked wait as before, each with its own
instruction. -/
theorem Ledger.marked (ledger : Ledger original names mentions state)
    (found : state.labels.find? name = some label) (undefined : label.definedAt = none)
    (linked : state.body.Calls call)
    (replaced : state.body.replaceWith call label.place = .ok (i, left)) :
    Ledger original names (mentions ++ [.mark name call])
      { state with labels := state.labels.define name call, body := left } := by
  obtain ⟨member, rfl⟩ := LabelTable.mem_of_find? found
  obtain ⟨unmarked, waits⟩ := ledger.unmarked member undefined
  obtain ⟨_, runs, isCall⟩ := linked
  obtain ⟨lines, there, waiting, next⟩ :=
    Body.spares_replaceWith runs (Opcode.isLasting_of_isCall isCall) waits replaced
  have place : state.labels.place? label.name = some label.place := by
    simp [LabelTable.place?, found]
  have labelled := (ledger.labelled.define (by rw [found]; rfl) call).link
    (LabelTable.extends_define _ _ _ _ _ place) (by simp) next waiting
  have still (label : Label) : ({ label with definedAt := some call } : Label).name = label.name ∧
      ({ label with definedAt := some call } : Label).place = label.place := ⟨rfl, rfl⟩
  refine ⟨ledger.records.define unmarked call, ledger.named_update _ still,
    by simpa [Mention.uses, Mention.marks] using labelled, fun other among => ?_⟩
  rcases List.mem_append.1 (ledger.anchored_update _ still other among) with stands | waits
  · exact List.mem_append_left _
      (lines _ stands rfl (by simp [Instruction.targets, Operand.targets]))
  · by_cases same : other.place = label.place
    · exact same ▸ List.mem_append_left _ there
    · exact List.mem_append_right _ (waiting _ waits same)

/-- The label is taken for the call whose place it takes, and all others for what
they were taken for before. Its place is new, so no other line is taken for
another one by that. -/
theorem Laid.order_marked (laid : Laid original calls state)
    (ledger : Ledger original names mentions state)
    (place : state.labels.place? label.name = some label.place)
    (unmarked : markedAt? mentions label.name = none)
    (waits : ⟨label.place, ⟨.nop, .none⟩⟩ ∈ state.body.code.detached)
    (inside : call ∈ original.code.places)
    (earlier : ∀ call name, .mark call name ∈ calls → .mark name call ∈ mentions)
    (replaced : state.body.replaceWith call label.place = .ok (i, left)) :
    ∃ stood : Place → Place, (∀ place ∈ original.code.places, stood place = place) ∧
      (∀ there name, .mark there name ∈ calls → stood (state.labels.placeOf name) = there) ∧
      stood label.place = call ∧ (left.code.places.map stood).Sublist original.code.places := by
  obtain ⟨stood, originals, marks, order⟩ := laid.order
  refine ⟨Function.update stood label.place call, fun other among => ?_,
    fun there other among => ?_, Function.update_self _ _ _, ?_⟩
  · have new := ledger.labelled.le_index place
    have apart : other ≠ label.place := by
      rintro rfl
      exact absurd (index_lt_of_mem among) (by omega)
    rw [Function.update_of_ne apart, originals other among]
  · have known := laid.known _ among other (List.mem_singleton_self _)
    have apart : state.labels.placeOf other ≠ label.place := by
      rw [← LabelTable.placeOf_eq place]
      intro same
      obtain rfl := ledger.labelled.eq_of_placeOf known (by simp [place]) same
      simpa [unmarked] using isSome_markedAt? (earlier there _ among)
    rw [Function.update_of_ne apart, marks there other among]
  · have moved : left.code.places.map (Function.update stood label.place call) =
        state.body.code.places.map stood := by
      rw [(Body.shape_replaceWith replaced).1]
      refine map_replace (by rw [Function.update_self, originals call inside])
        fun other among => Function.update_of_ne ?_ _ _
      obtain ⟨line, stands, rfl⟩ := List.mem_map.1 among
      exact Code.place_ne stands waits
    rw [moved]
    exact order

/-- The instruction of the label stands where the call stood, and the lines of
earlier calls stay. Branches to it were composed with its place before and need
no change. -/
theorem Laid.marked (laid : Laid original calls state)
    (ledger : Ledger original names mentions state)
    (found : state.labels.find? name = some label) (undefined : label.definedAt = none)
    (linked : state.body.Calls call) (inside : call ∈ original.code.places)
    (earlier : ∀ call name, .mark call name ∈ calls → .mark name call ∈ mentions)
    (replaced : state.body.replaceWith call label.place = .ok (i, left)) :
    Laid original (calls ++ [.mark call name])
      { state with labels := state.labels.define name call, body := left } := by
  obtain ⟨member, rfl⟩ := LabelTable.mem_of_find? found
  obtain ⟨unmarked, waits⟩ := ledger.unmarked member undefined
  obtain ⟨_, runs, isCall⟩ := linked
  obtain ⟨lines, there, -, -⟩ :=
    Body.spares_replaceWith runs (Opcode.isLasting_of_isCall isCall) waits replaced
  have place : state.labels.place? label.name = some label.place := by
    simp [LabelTable.place?, found]
  have grows := state.labels.extends_define label.name call
  have own := LabelTable.placeOf_eq (grows _ _ place)
  have same {c : LabelCall} (among : c ∈ calls) := laid.line_eq grows among
  refine ⟨List.forall_mem_append.2 ⟨fun c among other mentioned => ?_,
      List.forall_mem_singleton.2 fun other mentioned => ?_⟩,
    List.forall_mem_append.2 ⟨fun c among => ?_, List.forall_mem_singleton.2 ?_⟩,
    List.forall_mem_append.2 ⟨fun c among => ?_, List.forall_mem_singleton.2 rfl⟩, ?_⟩
  · exact grows.isSome_place? (laid.known c among other mentioned)
  · obtain rfl := List.mem_singleton.1 mentioned
    exact grows.isSome_place? (by simp [place])
  · rw [same among]
    exact lines _ (laid.lines c among) (laid.lasting c among)
      (laid.anchored ledger.anchored among)
  · rw [LabelCall.line, own]
    exact there
  · rw [same among]
    exact laid.lasting c among
  · obtain ⟨stood, originals, marks, here, order⟩ :=
      laid.order_marked ledger place unmarked waits inside earlier replaced
    refine ⟨stood, originals, fun there other among => ?_, order⟩
    rcases List.mem_append.1 among with among | new
    · rw [grows.placeOf (laid.known _ among other (List.mem_singleton_self _)),
        marks there other among]
    · obtain ⟨rfl, rfl⟩ := by simpa using new
      rw [own, here]

end Marking

namespace Charts

variable {cursor : Option Place}

/-- The instruction of a label takes the place of the call that marks it, and the
mention is recorded. Proof: the label gets its place first, and then the two
lemmas on marking apply. -/
theorem defineLabel (charts : Charts original calls state) (linked : state.body.Calls call)
    (inside : call ∈ original.code.places)
    (ran : (Rewrite.defineLabel name call).run state = .ok place final) :
    Charts original (calls ++ [.mark call name]) final := by
  obtain ⟨found, middle, registering, ran⟩ := Steps.run_bind_ok.1 ran
  obtain ⟨known, notes, has⟩ := charts.ledger.labelPlace registering (m := .mark name call) rfl
  have laid := charts.laid.kept charts.ledger.anchored notes.spares notes.labels
  obtain ⟨label, held, rfl⟩ := Option.map_eq_some_iff.1 has
  replace ran := Rewrite.get_bind_eq_ok.1 ran
  dsimp only at ran
  rw [held, Option.bind_some] at ran
  split at ran
  · simp at ran
  next undefined =>
  have undefined : label.definedAt = none := by simpa using undefined
  obtain ⟨_, _, noting, ran⟩ := Steps.run_bind_ok.1 ran
  obtain rfl := by simpa using noting
  obtain ⟨⟨i, left⟩, _, replacing, ran⟩ := Steps.run_bind_ok.1 (Rewrite.body_bind_eq_ok.1 ran)
  obtain ⟨replaced, rfl⟩ := Rewrite.faultless_eq_ok.1 replacing
  obtain ⟨rfl, rfl⟩ := by simpa using ran
  have stands := linked.congr notes.linked
  have ledger := known.marked held undefined stands replaced
  have earlier : ∀ call name, .mark call name ∈ calls →
      .mark name call ∈ calls.flatMap LabelCall.mentions :=
    fun call name member => List.mem_flatMap.2 ⟨_, member, List.mem_singleton_self _⟩
  exact ⟨by simpa [LabelCall.mentions] using ledger,
    laid.marked known held undefined stands inside earlier replaced⟩

/-- A label is marked by a name that was read before the call. The name is the
one that the state before the visit determines. -/
theorem markLabel (charts : Charts original calls state) (linked : state.body.Calls call)
    (inside : call ∈ original.code.places)
    (ran : (Rewrite.markLabel frame call).run state = .ok cursor final) :
    ∃ name, Rewrite.argument? frame call state (fun site _ => Reader.string site) = some name ∧
      Charts original (calls ++ [.mark call name]) final := by
  obtain ⟨⟨name, taken⟩, _, reading, ran⟩ := Steps.run_bind_ok.1 ran
  obtain ⟨quiet, still⟩ :=
    Rewriting.Quiet.reading linked (fun site _ _ => Framed.readsFor_string site) reading
  obtain ⟨place, _, defining, ran⟩ := Steps.run_bind_ok.1 ran
  obtain ⟨_, mapped, mapping, ran⟩ := Steps.run_bind_ok.1 ran
  obtain ⟨-, rfl⟩ := by simpa using Rewrite.body_bind_eq_ok.1 ran
  have marked := (charts.quiet quiet).defineLabel still inside (Rewrite.located_eq_ok.1 defining)
  exact ⟨name, argument_of_reading reading, marked.quiet (Rewriting.Quiet.mapped mapping)⟩

/-- Whatever a visit mentions is recorded, and what was mentioned before keeps
its line. By the marker that is called: it marks, emits, or is quiet. -/
theorem visit (charts : Charts original calls state) (inside : place ∈ original.code.places)
    (ran : (Rewrite.visit frame place).run state = .ok cursor final) :
    Charts original (calls ++ (Rewrite.labelCall? frame place state).toList) final := by
  obtain ⟨i, _, looking, visited⟩ := Steps.run_bind_ok.1 (Rewrite.body_bind_eq_ok.1 ran)
  obtain ⟨found, rfl⟩ := Rewrite.faultless_eq_ok.1 looking
  rw [Body.instruction_eq_ok] at found
  unfold Rewrite.labelCall?
  rw [found, Option.map_some]
  split at visited
  · simp at visited
  · next plain =>
    obtain ⟨-, rfl⟩ := by simpa using Rewrite.body_bind_eq_ok.1 visited
    simpa [plain] using charts
  · next marker marks =>
    have linked : state.body.Calls place :=
      ⟨i.opcode, Body.runs_of_instruction? found, Instruction.isCall_of_marker? marks⟩
    rw [marks]
    cases marker with
    | primitive p =>
      cases p with
      | push | pushInRef | pushOutRef => simpa using charts.quiet (.push linked visited)
      | pop => simpa using charts.quiet (.pop linked visited)
      | unreachable => simpa using charts.quiet (.unreachable linked visited)
      | returnValue | returnRef | returnPointer =>
        simpa using charts.quiet (.returnValue linked visited)
      | markLabel =>
        obtain ⟨name, read, marked⟩ := charts.markLabel linked inside visited
        simpa [read] using marked
      | declareLocals hasInitFlag => simpa using charts.quiet (.declareLocals linked visited)
    | emit opcode parameter =>
      obtain ⟨value, read, emitted⟩ := charts.emit linked visited
      simpa [read] using emitted
    | builder b =>
      obtain ⟨-, rfl⟩ := by simpa using Rewrite.body_bind_eq_ok.1 visited
      simpa using charts

end Charts

end InlineCil
