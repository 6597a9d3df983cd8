import InlineCil.Proofs.Encoding.Operands
import InlineCil.Proofs.Framing.Rules
import InlineCil.Proofs.Labels
import InlineCil.Proofs.Labels.Lasting

/-!
# What a visit does with labels

A visit mentions labels if it emits a branch or a switch, or marks a label; every
other visit leaves the table of labels alone and spares what lasts. So the table
always records what was mentioned, every emitted branch goes to the places of its
labels, and every marked label stands where the call stood that marked it.

What a visit mentions is told by `Rewrite.labelCall?` from the state before it,
by reading the argument of the call. It does not look at what the rule does with
the argument, so that rule and mentions can be compared.

`Charts` is the invariant, in two parts. `Ledger` is about the table and the
places of labels, `Laid` about the lines that stand for the calls so far. Rules
that mention nothing are treated together: they are quiet, which means that
labels stay as they are and that lines with lasting opcodes stay.
-/

namespace InlineCil

/-- A marker call that mentions labels: it emits a branch to one or a switch over
several, or it marks one. -/
inductive LabelCall where
  | branch (call : Place) (opcode : Opcode) (name : String)
  | switch (call : Place) (opcode : Opcode) (names : List String)
  | mark (call : Place) (name : String)
  deriving DecidableEq, Repr

namespace LabelCall

/-- The labels it mentions, in order. -/
def mentions : LabelCall → List Mention
  | .branch call _ name => [.use name call]
  | .switch call _ names => names.map (.use · call)
  | .mark call name => [.mark name call]

/-- The names of the labels. -/
def names : LabelCall → List String
  | .branch _ _ name | .mark _ name => [name]
  | .switch _ _ names => names

/-- The line that stands for the call when labels have places. -/
def line (place : String → Place) : LabelCall → Line
  | .branch call opcode name => ⟨call, ⟨opcode, .target (place name)⟩⟩
  | .switch call opcode names => ⟨call, ⟨opcode, .switch (names.map place)⟩⟩
  | .mark _ name => ⟨place name, ⟨.nop, .none⟩⟩

/-- What an emitting call mentions, given its argument. -/
def ofArgument? (call : Place) (opcode : Opcode) : Argument → Option LabelCall
  | .string name => if opcode.kind.isTarget then some (.branch call opcode name) else none
  | .labels names => if opcode.kind = .switch then some (.switch call opcode names) else none
  | _ => none

end LabelCall

namespace Rewrite

/-- What is read before a call, if anything can be. -/
def argument? {α : Type} (frame : Frame) (call : Place) (state : Rewriting)
    (reader : Site → Nat → Reader α) : Option α :=
  match (reading frame call reader).run state with
  | .ok (value, _) _ => some value
  | .error _ _ => none

/-- The labels that a visit of a place mentions. -/
def labelCall? (frame : Frame) (call : Place) (state : Rewriting) : Option LabelCall :=
  match (state.body.code.instruction? call).map (Instruction.marker? (space frame)) with
  | some (.ok (some (.primitive .markLabel))) =>
      (argument? frame call state fun site _ => Reader.string site).map (.mark call)
  | some (.ok (some (.emit opcode parameter))) =>
      (argument? frame call state fun site bound => Reader.argument site bound parameter).bind
        (LabelCall.ofArgument? call opcode)
  | _ => none

/-- The labels that visits mention, one visit after the other; the last one may
fail. -/
def labelCalls (frame : Frame) : (visits : Nat) → Option Place → Rewriting → List LabelCall
  | visits + 1, some place, state =>
      (labelCall? frame place state).toList ++
        match (visit frame place).run state with
        | .ok cursor left => labelCalls frame visits cursor left
        | .error _ _ => []
  | _, _, _ => []

/-- The labels that a pass over a body mentions. -/
def labelCallsOf (frame : Frame) (original : Body) (symbols : Symbols) : List LabelCall :=
  labelCalls frame original.code.linked.length original.code.first? { body := original, symbols }

end Rewrite

/-- The place of a label, once it was mentioned. -/
def LabelTable.placeOf (t : LabelTable) (name : String) : Place := (t.place? name).getD ⟨0⟩

namespace LabelCall

variable {c : LabelCall} {place other : String → Place}

theorem mark_mem {name : String} {call : Place} :
    .mark name call ∈ c.mentions ↔ c = .mark call name := by
  cases c <;> simp [mentions, and_comm, eq_comm]

/-- Only the places of its own labels matter to the line of a call. -/
theorem line_congr (same : ∀ name ∈ c.names, place name = other name) :
    c.line place = c.line other := by
  cases c with
  | branch call opcode name => simp [line, same name (List.mem_singleton_self _)]
  | switch call opcode names => simpa [line, LabelCall.names] using same
  | mark call name => simp [line, same name (List.mem_singleton_self _)]

/-- The line of a call goes to the places of its labels only. A mark goes
nowhere; it is gone to. -/
theorem exists_of_target {target : Place} (goes : target ∈ (c.line place).instruction.targets) :
    ∃ name ∈ c.names, place name = target := by
  cases c with
  | branch call opcode name =>
    exact ⟨name, List.mem_singleton_self _, (List.mem_singleton.1 goes).symm⟩
  | switch call opcode names => exact List.mem_map.1 goes
  | mark call name => simp [line, Instruction.targets, Operand.targets] at goes

end LabelCall

namespace LabelTable

variable {t later : LabelTable} {name : String} {place : Place}

theorem placeOf_eq (found : t.place? name = some place) : t.placeOf name = place := by
  simp [placeOf, found]

theorem Extends.isSome_place? (grows : t.Extends later) (known : (t.place? name).isSome) :
    (later.place? name).isSome := by
  obtain ⟨place, found⟩ := Option.isSome_iff_exists.1 known
  simp [grows name place found]

/-- Labels that have places keep them, also where a place is given for every
name. -/
theorem Extends.placeOf (grows : t.Extends later) (known : (t.place? name).isSome) :
    later.placeOf name = t.placeOf name := by
  obtain ⟨place, found⟩ := Option.isSome_iff_exists.1 known
  rw [placeOf_eq found, placeOf_eq (grows name place found)]

end LabelTable

/-- Labels of different names have different places. So a place tells which label
is meant, as long as both names are in the table. -/
theorem Labelled.eq_of_placeOf {first : Nat} {uses marks : List String} {t : LabelTable}
    {code : Code} (labelled : Labelled first uses marks t code) {name other : String}
    (known : (t.place? name).isSome) (also : (t.place? other).isSome)
    (same : t.placeOf name = t.placeOf other) : name = other := by
  obtain ⟨place, found⟩ := Option.isSome_iff_exists.1 known
  obtain ⟨there, again⟩ := Option.isSome_iff_exists.1 also
  rw [LabelTable.placeOf_eq found, LabelTable.placeOf_eq again] at same
  obtain ⟨label, held, rfl⟩ := Option.map_eq_some_iff.1 found
  obtain ⟨another, kept, rfl⟩ := Option.map_eq_some_iff.1 again
  obtain ⟨member, rfl⟩ := LabelTable.mem_of_find? held
  obtain ⟨among, rfl⟩ := LabelTable.mem_of_find? kept
  exact labelled.apart label member another among same

/-- More was noted about labels, and the linked code is the same. -/
structure Rewriting.Noted (state final : Rewriting) : Prop where
  linked : final.body.code.linked = state.body.code.linked
  spares : state.body.Spares final.body
  labels : state.labels.Extends final.labels

/-- The table records what was mentioned, and the instruction of each label is at
its place. -/
structure Ledger (original : Body) (names : List String) (mentions : List Mention)
    (state : Rewriting) : Prop where
  records : state.labels.Records names mentions
  named : ∀ label ∈ state.labels.labels, label.name ≠ ""
  labelled : Labelled original.code.next (mentions.flatMap Mention.uses)
    (mentions.flatMap Mention.marks) state.labels state.body.code
  anchored : ∀ label ∈ state.labels.labels, state.body.Anchors label.place

/-- The lines that stand for calls that mentioned labels are linked. If every
label is taken for the call that marked it, what is linked is in the order of the
original code. -/
structure Laid (original : Body) (calls : List LabelCall) (state : Rewriting) : Prop where
  known : ∀ c ∈ calls, ∀ name ∈ c.names, (state.labels.place? name).isSome
  lines : ∀ c ∈ calls, c.line state.labels.placeOf ∈ state.body.code.linked
  lasting : ∀ c ∈ calls, (c.line state.labels.placeOf).instruction.opcode.isLasting = true
  order : ∃ stood : Place → Place, (∀ place ∈ original.code.places, stood place = place) ∧
    (∀ call name, .mark call name ∈ calls → stood (state.labels.placeOf name) = call) ∧
    (state.body.code.places.map stood).Sublist original.code.places

/-- What holds of labels whenever a pass has met calls that mention labels. -/
structure Charts (original : Body) (calls : List LabelCall) (state : Rewriting) : Prop where
  ledger : Ledger original (labelNames (calls.flatMap LabelCall.mentions))
    (calls.flatMap LabelCall.mentions) state
  laid : Laid original calls state

variable {frame : Frame} {original : Body} {names : List String} {mentions : List Mention}
  {calls : List LabelCall} {state middle final : Rewriting} {call place : Place} {name : String}

namespace Rewriting.Noted

theorem refl (state : Rewriting) : state.Noted state := ⟨rfl, .refl _, .refl _⟩

theorem trans (first : state.Noted middle) (second : middle.Noted final) : state.Noted final :=
  ⟨second.linked.trans first.linked, first.spares.trans second.spares,
    first.labels.trans second.labels⟩

end Rewriting.Noted

namespace Ledger

/-- In the beginning nothing was mentioned, and there are no labels. -/
theorem initial (original : Body) (symbols : Symbols) :
    Ledger original [] [] { body := original, symbols } where
  records := .initial
  named := by simp
  labelled := .initial _
  anchored := by simp

/-- Nothing is lost when lines leave that do not last, for the instructions of
labels do. -/
theorem spared (ledger : Ledger original names mentions state)
    (same : final.labels = state.labels) (spares : state.body.Spares final.body) :
    Ledger original names mentions final where
  records := same ▸ ledger.records
  named := same ▸ ledger.named
  labelled := same ▸ ledger.labelled.congr spares.next
    fun line member _ => spares.waiting line member
  anchored label member := spares.anchors (ledger.anchored label (same ▸ member))

/-- A name gets a label when it is first mentioned, and has one from then on.
Which kind of mention it is does not matter here: the caller says under which
mention the name is to be listed. -/
theorem labelPlace (ledger : Ledger original (labelNames mentions) mentions state)
    (ran : (Rewrite.labelPlace name).run state = .ok place final) {m : Mention}
    (named : m.name = name) :
    Ledger original (labelNames (mentions ++ [m])) mentions final ∧ state.Noted final ∧
      final.labels.place? name = some place := by
  subst named
  unfold Rewrite.labelPlace at ran
  split at ran
  · simp at ran
  next spelled =>
  replace ran := Rewrite.get_bind_eq_ok.1 ran
  split at ran
  · next label found =>
    obtain ⟨rfl, rfl⟩ := by simpa using ran
    have known : m.name ∈ labelNames mentions := by
      obtain ⟨among, named⟩ := LabelTable.mem_of_find? found
      exact ledger.records.names ▸ named ▸ List.mem_map_of_mem among
    rw [labelNames_of_mem known]
    exact ⟨ledger, .refl _, by simp [LabelTable.place?, found]⟩
  · next missing =>
    obtain ⟨rfl, rfl⟩ := by simpa using ran
    have new : m.name ∉ labelNames mentions :=
      ledger.records.names ▸ LabelTable.find?_eq_none_iff.1 missing
    have spares := Body.spares_create state.body ⟨.nop, .none⟩
    rw [labelNames_of_not_mem new]
    refine ⟨⟨ledger.records.add missing _, ?_, ledger.labelled.add missing, ?_⟩,
      ⟨rfl, spares, LabelTable.extends_add _ _ _⟩, LabelTable.place?_add_self missing⟩
    · intro label member
      rcases List.mem_append.1 member with earlier | member
      · exact ledger.named label earlier
      · obtain rfl := List.mem_singleton.1 member
        simpa using spelled
    · intro label member
      rcases List.mem_append.1 member with earlier | member
      · exact spares.anchors (ledger.anchored label earlier)
      · obtain rfl := List.mem_singleton.1 member
        exact List.mem_append_right _ (state.body.mem_create _)

section Updates

variable {change : Label → Label}

/-- Noting something about a label changes no name, so all labels have names.
Empty ones are refused when they are first mentioned. -/
theorem named_update (ledger : Ledger original names mentions state) (name : String)
    (still : ∀ label, (change label).name = label.name ∧ (change label).place = label.place) :
    ∀ label ∈ (state.labels.update name change).labels, label.name ≠ "" := by
  intro label member
  obtain ⟨old, earlier, rfl⟩ := List.mem_map.1 member
  split
  · rw [(still old).1]
    exact ledger.named old earlier
  · exact ledger.named old earlier

/-- Nor does it move a label: its instruction stays where it is, linked or
waiting to be. -/
theorem anchored_update (ledger : Ledger original names mentions state) (name : String)
    (still : ∀ label, (change label).name = label.name ∧ (change label).place = label.place) :
    ∀ label ∈ (state.labels.update name change).labels, state.body.Anchors label.place := by
  intro label member
  obtain ⟨old, earlier, rfl⟩ := List.mem_map.1 member
  split
  · rw [(still old).2]
    exact ledger.anchored old earlier
  · exact ledger.anchored old earlier

end Updates

/-- A branch to a label is noted and goes to its place. The branch that is noted
is the place of the call, where the emitted instruction will stand. -/
theorem useLabel (ledger : Ledger original (labelNames mentions) mentions state)
    (ran : (Rewrite.useLabel name call).run state = .ok place final) :
    Ledger original (labelNames (mentions ++ [.use name call])) (mentions ++ [.use name call])
        final ∧ state.Noted final ∧ final.labels.place? name = some place := by
  obtain ⟨_, noted, registering, ran⟩ := Steps.run_bind_ok.1 ran
  obtain ⟨known, notes, found⟩ := ledger.labelPlace registering (m := .use name call) rfl
  obtain ⟨rfl, rfl⟩ := by simpa using ran
  have still (label : Label) :
      ({ label with firstUse := label.firstUse.or (some call) } : Label).name = label.name ∧
        ({ label with firstUse := label.firstUse.or (some call) } : Label).place = label.place :=
    ⟨rfl, rfl⟩
  have labelled := known.labelled.use name call
  refine ⟨⟨known.records.use name call, known.named_update _ still,
      by simpa [Mention.uses, Mention.marks] using labelled, known.anchored_update _ still⟩,
    notes.trans ⟨rfl, .refl _, LabelTable.extends_update _ _ still⟩,
    (LabelTable.place?_update _ _ _ still).trans found⟩

/-- So are the branches of a switch, one after the other, by induction on the
names. The places are given by the labels as they are in the end, since no label
ever changes its place. -/
theorem useLabels {names : List String} {places : List Place}
    (ledger : Ledger original (labelNames mentions) mentions state)
    (ran : (names.mapM (Rewrite.useLabel · call)).run state = .ok places final) :
    Ledger original (labelNames (mentions ++ names.map (.use · call)))
        (mentions ++ names.map (.use · call)) final ∧ state.Noted final ∧
      (∀ name ∈ names, (final.labels.place? name).isSome) ∧
      places = names.map final.labels.placeOf := by
  induction names generalizing mentions state places with
  | nil =>
    obtain ⟨rfl, rfl⟩ := by simpa using ran
    exact ⟨by simpa using ledger, .refl _, by simp, rfl⟩
  | cons name names ih =>
    rw [List.mapM_cons] at ran
    obtain ⟨place, used, noting, ran⟩ := Steps.run_bind_ok.1 ran
    obtain ⟨others, left, remaining, ran⟩ := Steps.run_bind_ok.1 ran
    obtain ⟨rfl, rfl⟩ := by simpa using ran
    obtain ⟨first, notes, found⟩ := ledger.useLabel noting
    obtain ⟨all, further, known, rfl⟩ := ih first remaining
    have stays := further.labels _ _ found
    refine ⟨by simpa using all, notes.trans further, ?_, ?_⟩
    · exact List.forall_mem_cons.2 ⟨by simp [stays], known⟩
    · rw [List.map_cons, LabelTable.placeOf_eq stays]

end Ledger

namespace LabelCall

variable {opcode : Opcode} {value : Argument} {operand : Operand} {i : Instruction}

/-- Without labels in its argument, an operand is composed without a change of
labels or code. Proof: by the kind of the opcode and the form of the value,
leaving aside those that name labels. -/
theorem operand_still (nothing : ofArgument? call opcode value = none)
    (ran : (Rewrite.operand frame call opcode value).run state = .ok operand final) :
    final = state := by
  unfold Rewrite.operand at ran
  split at ran
  -- Branches, then switches, name labels.
  case h_16 name takes | h_17 name takes =>
    simp [ofArgument?, takes, OperandKind.isTarget] at nothing
  case h_18 names takes => simp [ofArgument?, takes] at nothing
  -- Numbers have to be within bounds and parameters have to exist.
  case h_2 | h_3 | h_4 | h_21 | h_22 => exact (Rewrite.ranged_eq_ok.1 ran).2.2.symm
  case h_19 | h_20 =>
    obtain ⟨index, _, lifting, ran⟩ := Steps.run_bind_ok.1 ran
    obtain ⟨-, rfl⟩ := Steps.run_liftExcept_eq_ok.1 lifting
    obtain ⟨-, same⟩ := by simpa using ran
    exact same.symm
  case h_23 => simp at ran
  all_goals
    obtain ⟨-, same⟩ := by simpa using ran
    exact same.symm

theorem localSlot_still {find : Option LocalTable → Except Cause (UInt16 × Option LocalTable)}
    {slot : UInt16} (ran : (Rewrite.localSlot find).run state = .ok slot final) :
    final.body = state.body ∧ final.labels = state.labels := by
  obtain ⟨⟨index, table⟩, _, found, ran⟩ := Steps.run_bind_ok.1 (Rewrite.get_bind_eq_ok.1 ran)
  obtain ⟨-, rfl⟩ := Rewrite.refusable_eq_ok.1 found
  obtain ⟨-, rfl⟩ := by simpa using ran
  exact ⟨rfl, rfl⟩

/-- Without labels in its argument, an instruction is composed without a change
of labels or code. An access to a local variable may mark it as used, which is
neither. -/
theorem instruction_still (nothing : ofArgument? call opcode value = none)
    (ran : (Rewrite.instruction frame call opcode value).run state = .ok i final) :
    final.body = state.body ∧ final.labels = state.labels := by
  have accessed {find : Option LocalTable → Except Cause (UInt16 × Option LocalTable)}
      {access : UInt16 → Except Failure Instruction}
      (ran : (Rewrite.localSlot find >>= fun slot => liftExcept (access slot)).run state =
        .ok i final) : final.body = state.body ∧ final.labels = state.labels := by
    obtain ⟨slot, _, finding, ran⟩ := Steps.run_bind_ok.1 ran
    obtain ⟨-, rfl⟩ := Steps.run_liftExcept_eq_ok.1 ran
    exact localSlot_still finding
  unfold Rewrite.instruction at ran
  split at ran
  · replace ran := Rewrite.get_bind_eq_ok.1 ran
    split at ran
    · obtain ⟨-, rfl⟩ := by simpa using ran
      exact ⟨rfl, rfl⟩
    · exact accessed ran
  · split at ran
    · exact accessed ran
    · exact accessed ran
    · obtain ⟨operand, _, composing, ran⟩ := Steps.run_bind_ok.1 ran
      obtain ⟨-, rfl⟩ := Steps.run_liftExcept_eq_ok.1 ran
      rw [operand_still nothing composing]
      exact ⟨rfl, rfl⟩

end LabelCall

namespace Rewrite

variable {opcode : Opcode} {i : Instruction}

/-- A branch is composed from the place of its label. So composing it fails only
where mentioning the label does. -/
theorem exists_of_branch (takes : opcode.kind.isTarget = true)
    (ran : (instruction frame call opcode (.string name)).run state = .ok i final) :
    ∃ place, (useLabel name call).run state = .ok place final ∧ i = ⟨opcode, .target place⟩ := by
  have kinds : opcode.kind = .shortTarget ∨ opcode.kind = .target := by
    simpa [OperandKind.isTarget] using takes
  have explicit : opcode.kind ≠ .none := by rcases kinds with kind | kind <;> simp [kind]
  rw [instruction_of_explicit (Opcode.implicitLocal_of_kind explicit)] at ran
  rcases kinds with kind | kind
  all_goals
    rw [kind] at ran
    obtain ⟨operand, _, composing, ran⟩ := Steps.run_bind_ok.1 ran
    obtain ⟨checked, rfl⟩ := Steps.run_liftExcept_eq_ok.1 ran
    obtain rfl := Instruction.eq_of_checked checked
    unfold Rewrite.operand at composing
    rw [kind] at composing
    obtain ⟨place, _, noting, composing⟩ := Steps.run_bind_ok.1 composing
    obtain ⟨rfl, rfl⟩ := by simpa using composing
    exact ⟨place, noting, rfl⟩

/-- A switch is composed from the places of its labels. They are mentioned in
order, and the switch goes to them in the same order. -/
theorem exists_of_switch {names : List String} (takes : opcode.kind = .switch)
    (ran : (instruction frame call opcode (.labels names)).run state = .ok i final) :
    ∃ places, (names.mapM (useLabel · call)).run state = .ok places final ∧
      i = ⟨opcode, .switch places⟩ := by
  rw [instruction_of_explicit (Opcode.implicitLocal_of_kind (by simp [takes])), takes] at ran
  obtain ⟨operand, _, composing, ran⟩ := Steps.run_bind_ok.1 ran
  obtain ⟨checked, rfl⟩ := Steps.run_liftExcept_eq_ok.1 ran
  obtain rfl := Instruction.eq_of_checked checked
  unfold Rewrite.operand at composing
  rw [takes] at composing
  obtain ⟨places, _, noting, composing⟩ := Steps.run_bind_ok.1 composing
  obtain ⟨rfl, rfl⟩ := by simpa using composing
  exact ⟨places, noting, rfl⟩

end Rewrite

/-- With labels in its argument, an instruction is composed that goes to their
places, and they are noted. It is the line that stands for the call. -/
theorem Ledger.instruction {opcode : Opcode} {value : Argument} {c : LabelCall} {i : Instruction}
    (ledger : Ledger original (labelNames mentions) mentions state)
    (mentioned : LabelCall.ofArgument? call opcode value = some c)
    (ran : (Rewrite.instruction frame call opcode value).run state = .ok i final) :
    Ledger original (labelNames (mentions ++ c.mentions)) (mentions ++ c.mentions) final ∧
      state.Noted final ∧ (∀ name ∈ c.names, (final.labels.place? name).isSome) ∧
      c.line final.labels.placeOf = ⟨call, i⟩ ∧ i.opcode.isLasting = true := by
  unfold LabelCall.ofArgument? at mentioned
  split at mentioned
  · next name =>
    obtain ⟨takes, same⟩ := Option.ite_none_right_eq_some.1 mentioned
    obtain rfl := Option.some.inj same
    obtain ⟨place, noting, rfl⟩ := Rewrite.exists_of_branch takes ran
    obtain ⟨noted, notes, found⟩ := ledger.useLabel noting
    refine ⟨noted, notes, by simp [LabelCall.names, found], ?_, Opcode.isLasting_of_isTarget takes⟩
    simp [LabelCall.line, LabelTable.placeOf_eq found]
  · next names =>
    obtain ⟨takes, same⟩ := Option.ite_none_right_eq_some.1 mentioned
    obtain rfl := Option.some.inj same
    obtain ⟨places, noting, rfl⟩ := Rewrite.exists_of_switch takes ran
    obtain ⟨noted, notes, known, rfl⟩ := ledger.useLabels noting
    exact ⟨noted, notes, known, rfl, Opcode.isLasting_of_switch takes⟩
  · simp at mentioned

/-- Labels are left alone, and what lasts is spared. -/
structure Rewriting.Quiet (state final : Rewriting) : Prop where
  labels : final.labels = state.labels
  spares : state.body.Spares final.body

/-- A linked call is at the place. -/
def Body.Calls (b : Body) (place : Place) : Prop :=
  ∃ opcode, b.Runs place opcode ∧ opcode.isCall = true

namespace Rewriting.Quiet

variable {cursor : Option Place} {taken : List Place} {marker : Marker} {i : Instruction}

theorem trans (first : state.Quiet middle) (second : middle.Quiet final) : state.Quiet final :=
  ⟨second.labels.trans first.labels, first.spares.trans second.spares⟩

/-- Before a quiet step, something else may change than labels and code. -/
theorem after (quiet : middle.Quiet final) (labels : middle.labels = state.labels)
    (code : middle.body.code = state.body.code) : state.Quiet final :=
  ⟨quiet.labels.trans labels, (Body.Spares.of_code code).trans quiet.spares⟩

/-- Removing a line that does not last is quiet, and the other lines keep their
opcodes. -/
theorem removed {opcode : Opcode} {done : Unit} (runs : state.body.Runs place opcode)
    (perishes : opcode.isLasting = false)
    (ran : (Rewrite.remove place).run state = .ok done final) :
    state.Quiet final ∧ ∀ other opcode, other ≠ place → state.body.Runs other opcode →
      final.body.Runs other opcode := by
  obtain ⟨i, b, removed, rfl⟩ := Rewrite.remove_eq_ok.1 ran
  obtain ⟨spares, others⟩ := Body.spares_remove runs perishes removed
  exact ⟨⟨rfl, spares⟩, others⟩

theorem mapped {site : List Place} {target : Option Place} {done : Unit}
    (ran : (Rewrite.mapPoints frame site target).run state = .ok done final) :
    state.Quiet final := by
  obtain ⟨points, rfl⟩ := Rewrite.mapPoints_eq_ok ran
  exact ⟨rfl, .of_code rfl⟩

/-- Removing a call is quiet, as calls do not last. The same goes for the
collapsing of points that follows it. -/
theorem removeCall (calls : state.body.Calls call)
    (ran : (Rewrite.removeCall frame call taken).run state = .ok cursor final) :
    state.Quiet final := by
  obtain ⟨opcode, runs, isCall⟩ := calls
  obtain ⟨_, _, removing, ran⟩ := Steps.run_bind_ok.1 (Rewrite.body_bind_eq_ok.1 ran)
  obtain ⟨_, _, mapping, ran⟩ := Steps.run_bind_ok.1 ran
  obtain ⟨-, rfl⟩ := by simpa using ran
  exact (removed runs (Opcode.isLasting_of_isCall isCall) removing).1.trans (mapped mapping)

/-- Pushing is quiet: the call leaves, and what it pushes stays in the code. -/
theorem push (calls : state.body.Calls call)
    (ran : (Rewrite.push frame call).run state = .ok cursor final) : state.Quiet final := by
  unfold Rewrite.push at ran
  split at ran
  · replace ran := Rewrite.body_bind_eq_ok.1 ran
    dsimp only at ran
    split at ran
    · simp at ran
    · exact removeCall calls ran
  · exact removeCall calls ran

theorem returnValue (calls : state.body.Calls call)
    (ran : (Rewrite.returnValue frame call).run state = .ok cursor final) :
    state.Quiet final := by
  replace ran := Rewrite.body_bind_eq_ok.1 ran
  split at ran
  · simp at ran
  · exact removeCall calls ran

/-- The load of an address becomes a store, and the call leaves. Neither lasts,
so pop is quiet: it touches nothing that earlier calls have put into the code. -/
theorem pop (calls : state.body.Calls call)
    (ran : (Rewrite.pop frame call).run state = .ok cursor final) : state.Quiet final := by
  obtain ⟨opcode, runs, isCall⟩ := calls
  replace ran := Rewrite.body_bind_eq_ok.1 ran
  split at ran
  · simp at ran
  next address before =>
  split at ran
  · simp at ran
  obtain ⟨loading, _, found, ran⟩ := Steps.run_bind_ok.1 (Rewrite.body_bind_eq_ok.1 ran)
  obtain ⟨loads, rfl⟩ := Rewrite.faultless_eq_ok.1 found
  split at ran
  · simp at ran
  next store stores =>
  obtain ⟨j, _, checking, ran⟩ := Steps.run_bind_ok.1 ran
  obtain ⟨-, rfl⟩ := Steps.run_liftExcept_eq_ok.1 checking
  obtain ⟨_, _, replacing, ran⟩ := Steps.run_bind_ok.1 ran
  obtain ⟨old, b, replaced, rfl⟩ := Rewrite.replace_eq_ok.1 replacing
  obtain rfl := Body.eq_of_replace replaced
  obtain ⟨_, _, removing, ran⟩ := Steps.run_bind_ok.1 (Rewrite.body_bind_eq_ok.1 ran)
  obtain ⟨_, _, mapping, ran⟩ := Steps.run_bind_ok.1 ran
  obtain ⟨-, rfl⟩ := by simpa using ran
  have loaded := Body.runs_of_instruction? (Body.instruction_eq_ok.1 loads)
  have apart : call ≠ address := by
    rintro rfl
    obtain rfl := runs.unique loaded
    simp [Opcode.storeFor?_of_isCall isCall] at stores
  obtain ⟨spares, -, others⟩ :=
    Body.spares_overwrite loaded (Opcode.isLasting_of_storeFor? stores) j
  have leaves :=
    removed (others call opcode apart runs) (Opcode.isLasting_of_isCall isCall) removing
  exact Quiet.trans ⟨leaves.1.labels, spares.trans leaves.1.spares⟩ (mapped mapping)

/-- The call leaves and the throw after it, which are no lasting lines. So
nothing that an earlier call has put into the code is touched. -/
theorem unreachable (calls : state.body.Calls call)
    (ran : (Rewrite.unreachable frame call).run state = .ok cursor final) :
    state.Quiet final := by
  obtain ⟨opcode, runs, isCall⟩ := calls
  replace ran := Rewrite.body_bind_eq_ok.1 ran
  split at ran
  · simp at ran
  next thrown follows =>
  split at ran
  · simp at ran
  next throws =>
  obtain ⟨_, _, calling, ran⟩ := Steps.run_bind_ok.1 (Rewrite.body_bind_eq_ok.1 ran)
  obtain ⟨_, _, removing, ran⟩ := Steps.run_bind_ok.1 ran
  obtain ⟨_, _, mapping, ran⟩ := Steps.run_bind_ok.1 ran
  obtain ⟨-, rfl⟩ := by simpa using ran
  have throws : thrown.instruction.opcode = .throw := by simpa using throws
  obtain ⟨without, others⟩ := removed runs (Opcode.isLasting_of_isCall isCall) calling
  have linked : state.body.Runs thrown.place .throw := by
    have after := List.mem_of_mem_tail (List.mem_of_head? follows)
    exact ⟨thrown, (List.dropWhile_sublist _).subset after, rfl, throws⟩
  have apart : thrown.place ≠ call := by
    rintro rfl
    obtain rfl := runs.unique linked
    exact Bool.noConfusion isCall
  have leaves := removed (others _ _ apart linked) (by decide) removing
  exact (without.trans leaves.1).trans (mapped mapping)

/-- Arguments leave; the call that reads them stays. Parts of arguments do not
last, since none of them is a branch or the instruction of a label. -/
theorem reading {α : Type} {reader : Site → Nat → Reader α} {result : α × List Place}
    (calls : state.body.Calls call)
    (reads : ∀ site bound, site.space = Rewrite.space frame →
      Framed.ReadsFor site marker (reader site bound))
    (ran : (Rewrite.reading frame call reader).run state = .ok result final) :
    state.Quiet final ∧ final.body.Calls call := by
  obtain ⟨opcode, runs, isCall⟩ := calls
  obtain ⟨before, line, after, rfl, rfl, split⟩ := runs.split
  obtain ⟨value, taken⟩ := result
  obtain ⟨left, run, places, rfl⟩ := Rewrite.taken_of_reading split ran
  obtain ⟨lines, took, read⟩ := reads _ _ rfl _ _ _ run
  obtain ⟨parts, -, sheds⟩ := Rewrite.takenFrom_of_took split took
  rw [places] at sheds
  subst parts
  have stays : line.moveTargets (gather (lines.map Line.place) line.place) ∈
      (Rewrite.takeOut state.body taken).code.linked := by
    rw [sheds.linked]
    exact List.mem_map_of_mem (by simp)
  refine ⟨⟨rfl, .of_sheds sheds ?_ ?_ ?_ fun place apart => if_neg apart⟩,
    line.instruction.opcode, ⟨_, stays, rfl, rfl⟩, isCall⟩
  · intro other member
    rw [split] at member
    simp only [List.mem_append, List.mem_cons] at member ⊢
    tauto
  · rw [Code.places, split]
    exact (((List.sublist_append_left _ _).append_right _)).map Line.place
  · intro other leaves
    have part := read.argumental _ (List.mem_map_of_mem leaves)
    exact ⟨by simp [split, leaves], Opcode.isLasting_of_isArgumental part.isArgumental⟩

/-- Declaring local variables is quiet: arguments and the call leave, and
variables are no labels. -/
theorem declareLocals {hasInitFlag : Bool} (calls : state.body.Calls call)
    (ran : (Rewrite.declareLocals frame call hasInitFlag).run state = .ok cursor final) :
    state.Quiet final := by
  obtain ⟨⟨⟨declared, init⟩, taken⟩, _, taking, ran⟩ := Steps.run_bind_ok.1 ran
  obtain ⟨quiet, calls⟩ := reading calls
    (fun site bound _ => Framed.readsFor_declarations site bound hasInitFlag) taking
  obtain ⟨_, _, declaring, ran⟩ := Steps.run_bind_ok.1 ran
  obtain ⟨-, _, -, rfl⟩ := Rewrite.declare_eq_ok declaring
  have leaves := removeCall (by exact calls) ran
  exact quiet.trans (leaves.after rfl rfl)

end Rewriting.Quiet

end InlineCil
