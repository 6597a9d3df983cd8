import InlineCil.Proofs.Encoding.Labels

/-!
# Composing described instructions

An emitting call is composed into the instruction that its statement describes:
labels are noted as they are named, declared local variables as they are
accessed, and nothing else changes on the way.

A step that composes an instruction is followed by hand only where it looks
something up. For everything else `Rewriting.Notes` says what may change: the
linked code, the clauses and the symbols stay, the names of declared variables
stay, and labels keep their places. It is a preorder, so several steps are
composed by `trans`.

`run_instruction` is what the module comes to. From a description of the value it
gives the instruction and that it stands for the item, at whatever place. Its
cases are those of `Opcode.Emits`: a branch, a switch, an access to a local
variable in one of its forms, and any other operand.
-/

namespace InlineCil

theorem Instruction.checked_of_fits {opcode : Opcode} {operand : Operand}
    (fits : operand.fits opcode.kind = true) :
    Instruction.checked opcode operand = .ok ⟨opcode, operand⟩ := by
  simp [Instruction.checked, checked?, fits]

namespace Opcode

variable {opcode general : Opcode} {index slot : UInt16}

/-- An opcode that names a local variable itself takes no operand, and its full
form does. -/
theorem full_of_implicitLocal (implicit : opcode.implicitLocal = some index) :
    opcode.kind = .none ∧ ∃ general, opcode.generalLocalForm = some general ∧
      general.kind = .localSlot := by
  cases opcode <;> first | (cases implicit; done) | exact ⟨rfl, _, rfl, rfl⟩

/-- An opcode that takes an operand does not name a local variable itself. -/
theorem implicitLocal_of_kind (takes : opcode.kind ≠ .none) : opcode.implicitLocal = none := by
  cases implicit : opcode.implicitLocal with
  | none => rfl
  | some index => exact absurd (full_of_implicitLocal implicit).1 takes

/-- An opcode that takes a slot does not name a local variable itself, so one of
the two rules for local variables applies at most. -/
theorem implicitLocal_of_isLocalSlot (takes : opcode.kind.isLocalSlot = true) :
    opcode.implicitLocal = none :=
  implicitLocal_of_kind fun nothing => by simp [nothing, OperandKind.isLocalSlot] at takes

/-- A short access has a full form, to which it is widened where the slot is out
of its reach. -/
theorem full_of_short (takes : opcode.kind = .shortLocalSlot) :
    ∃ general, opcode.generalLocalForm = some general ∧ general.kind = .localSlot := by
  cases opcode <;> first | (cases takes; done) | exact ⟨_, rfl, rfl⟩

theorem full_of_long (takes : opcode.kind = .localSlot) : opcode.generalLocalForm = none := by
  cases opcode <;> first | rfl | cases takes

/-- The form that reaches a slot takes it: the short form up to 255, the full one
for every slot. -/
theorem fits_reaching (takes : opcode.kind.isLocalSlot = true) (slot : UInt16) :
    (Operand.localSlot slot).fits (opcode.reaching slot).kind = true := by
  have kinds : opcode.kind = .shortLocalSlot ∨ opcode.kind = .localSlot := by
    simpa [OperandKind.isLocalSlot] using takes
  unfold reaching
  rcases kinds with short | long
  · obtain ⟨general, full, wide⟩ := full_of_short short
    split
    · simp [full, wide, Operand.fits]
    · next near => simpa [short, Operand.fits] using near
  · simp [full_of_long long, long, Operand.fits]

/-- An access to a local variable is composed in the form that reaches its slot.
A short form that does not reach it gives way to the full form of the same
access, so composing never fails. -/
theorem localAccess_eq (takes : opcode.kind.isLocalSlot = true) (slot : UInt16) :
    Rewrite.localAccess opcode slot = .ok ⟨opcode.reaching slot, .localSlot slot⟩ := by
  have fits := fits_reaching takes slot
  unfold Rewrite.localAccess
  unfold reaching at fits ⊢
  cases full : opcode.generalLocalForm with
  | none =>
    rw [full, Option.getD_none, ite_self] at fits
    rw [Option.getD_none, ite_self]
    exact Instruction.checked_of_fits fits
  | some general =>
    rw [full, Option.getD_some] at fits
    exact Instruction.checked_of_fits fits

end Opcode

/-- An operand that a value stands for names no local variable. Slots are given
by the rules for local variables alone. -/
theorem Argument.Gives.not_local {m : MethodDef} {value : Argument} {operand : Operand}
    {kind : OperandKind} (gives : value.Gives m operand) (fits : operand.fits kind = true) :
    kind.isLocalSlot = false := by
  cases gives <;> cases kind <;> first | rfl | cases fits

/-- An opcode without an operand has none, whatever value it is emitted with. -/
theorem Argument.Gives.eq_none {m : MethodDef} {value : Argument} {operand : Operand}
    (gives : value.Gives m operand) (fits : operand.fits .none = true) : operand = .none := by
  cases gives <;> first | rfl | cases fits

/-- Operands that values stand for do not branch. Texts become targets only
through the rules for labels. -/
theorem Argument.Gives.targets {m : MethodDef} {value : Argument} {operand : Operand}
    (gives : value.Gives m operand) : operand.targets = [] := by
  cases gives <;> rfl

namespace Opcode.Emits

variable {m : MethodDef} {opcode : Opcode} {scope : Option Scope} {value : Argument} {item : Item}

/-- Emitting marks no label: labels are marked by calls of their own. -/
theorem marks (emits : opcode.Emits m scope value item) : item.marks = [] := by
  cases emits <;> rfl

/-- Emitted operations go nowhere, so a line can go somewhere only through the
labels of its item. -/
theorem still (emits : opcode.Emits m scope value item) : item.Still := by
  cases emits with
  | operation gives => exact gives.targets
  | branch | switch => exact trivial
  | namedLocal | indexedLocal | numberedLocal | implicitLocal => rfl

end Opcode.Emits

namespace Rewrite

variable {frame : Frame} {state : Rewriting} {call : Place} {opcode : Opcode} {value : Argument}

/-- A parameter is found by its name: its index is its position, one further on
if the method has an implicit argument. An index that is too large for an operand
is a fault. -/
theorem parameterIndex_of_found {m : MethodDef} {name : String} {position index : Nat}
    (found : m.parameters.findIdx? (·.name = name) = some position)
    (shifted : index = if m.isStatic then position else position + 1) (within : index < 0x10000) :
    parameterIndex m name = .ok (.ofNat index) := by
  have counted : position + m.hasThis.toNat = index := by
    rw [shifted, MethodDef.hasThis]
    cases m.isStatic <;> rfl
  unfold parameterIndex
  rw [found]
  dsimp only
  rw [counted, if_pos within]

/-- A value that stands for an operand becomes that operand, without any change
of the state. -/
theorem run_operand {operand : Operand} (gives : value.Gives frame.method operand)
    (fits : operand.fits opcode.kind = true) :
    (Rewrite.operand frame call opcode value).run state = .ok operand state := by
  unfold Rewrite.operand
  generalize opcode.kind = kind at fits ⊢
  cases gives <;> cases kind <;>
    first
      | (cases fits; done)
      | rfl
      | exact ranged_eq_ok.2 ⟨⟨by assumption, by assumption⟩, rfl, rfl⟩
      | exact Steps.run_bind_ok.2 ⟨_, _, Steps.run_liftExcept_eq_ok.2
          ⟨parameterIndex_of_found (by assumption) (by assumption) (by assumption), rfl⟩, rfl⟩

end Rewrite

/-- What the table of declared local variables says about names. -/
def LocalTable.scope (t : LocalTable) : Scope := ⟨t.base, t.slots.map DeclaredLocal.name⟩

/-- Noting an access leaves the names, and with them the slots. So references
mean the same variables before and after each other. -/
theorem LocalTable.scope_markUsed (t : LocalTable) (index : Nat) :
    (t.markUsed index).scope = t.scope := by
  have names : (t.slots.modify index fun slot => { slot with used := true }).map
      DeclaredLocal.name = t.slots.map DeclaredLocal.name := by
    refine List.ext_getElem? fun position => ?_
    rw [List.getElem?_map, List.getElem?_map, List.getElem?_modify]
    cases t.slots[position]? with
    | none => rfl
    | some slot => by_cases here : index = position <;> simp [here]
  exact congrArg (Scope.mk t.base) names

/-- A pass has noted more about labels and local variables, and the linked code
is the same. -/
structure Rewriting.Notes (state final : Rewriting) : Prop where
  linked : final.body.code.linked = state.body.code.linked
  clauses : final.body.clauses = state.body.clauses
  locals : final.body.locals = state.body.locals
  scope : final.locals.map LocalTable.scope = state.locals.map LocalTable.scope
  symbols : final.symbols = state.symbols
  labels : state.labels.Extends final.labels

namespace Rewriting.Notes

theorem refl (state : Rewriting) : state.Notes state :=
  ⟨rfl, rfl, rfl, rfl, rfl, .refl _⟩

theorem trans {state middle final : Rewriting} (first : state.Notes middle)
    (second : middle.Notes final) : state.Notes final :=
  ⟨second.linked.trans first.linked, second.clauses.trans first.clauses,
    second.locals.trans first.locals, second.scope.trans first.scope,
    second.symbols.trans first.symbols, first.labels.trans second.labels⟩

end Rewriting.Notes

namespace Rewrite

variable {frame : Frame} {state : Rewriting} {call branch : Place} {opcode : Opcode}
  {value : Argument} {name : String} {first : Nat} {uses marks : List String}

/-- A label has a place from its first mention on. If it was mentioned before,
that is the place; if not, its instruction is created there and waits. -/
theorem run_labelPlace (labelled : Labelled first uses marks state.labels state.body.code)
    (named : name ≠ "") :
    ∃ place final, (labelPlace name).run state = .ok place final ∧ state.Notes final ∧
      Labelled first uses marks final.labels final.body.code ∧
      final.labels.place? name = some place := by
  have spelled : name.isEmpty = false := by simpa using named
  unfold labelPlace
  rw [spelled]
  cases known : state.labels.find? name with
  | some label =>
    refine ⟨label.place, state, ?_, .refl _, labelled, by simp [LabelTable.place?, known]⟩
    refine Steps.run_bind_ok.2 ⟨_, _, Steps.run_get _, ?_⟩
    rw [known]
    rfl
  | none =>
    refine ⟨⟨state.body.code.next⟩, { state with
      body := { state.body with code := state.body.code.create ⟨.nop, .none⟩ }
      labels := state.labels.add name ⟨state.body.code.next⟩ }, ?_,
      ⟨rfl, rfl, rfl, rfl, rfl, LabelTable.extends_add _ _ _⟩, labelled.add known,
      LabelTable.place?_add_self known⟩
    refine Steps.run_bind_ok.2 ⟨_, _, Steps.run_get _, ?_⟩
    rw [known]
    rfl

/-- A branch to a label goes to its place, and the table notes that the label is
used. The first mention of a name is what hands out the place, whether it is a
branch or a mark. -/
theorem run_useLabel (labelled : Labelled first uses marks state.labels state.body.code)
    (named : name ≠ "") (branch : Place) :
    ∃ place final, (useLabel name branch).run state = .ok place final ∧ state.Notes final ∧
      Labelled first (uses ++ [name]) marks final.labels final.body.code ∧
      final.labels.place? name = some place := by
  obtain ⟨place, middle, run, notes, mentioned, found⟩ := run_labelPlace labelled named
  have still (label : Label) :
      ({ label with firstUse := label.firstUse.or (some branch) } : Label).name = label.name ∧
        ({ label with firstUse := label.firstUse.or (some branch) } : Label).place =
          label.place := ⟨rfl, rfl⟩
  refine ⟨place, { middle with labels := middle.labels.use name branch },
    Steps.run_bind_ok.2 ⟨_, _, run, rfl⟩, notes.trans ⟨rfl, rfl, rfl, rfl, rfl, ?_⟩,
    mentioned.use name branch, ?_⟩
  · exact LabelTable.extends_update _ _ still
  · exact (LabelTable.place?_update _ _ _ still).trans found

/-- So do several branches, one after the other, by induction on the names. Labels
mentioned early keep their places, so all names have theirs in the end. -/
theorem run_useLabels {names : List String}
    (labelled : Labelled first uses marks state.labels state.body.code)
    (named : ∀ name ∈ names, name ≠ "") (branch : Place) :
    ∃ places final, (names.mapM (useLabel · branch)).run state = .ok places final ∧
      state.Notes final ∧ Labelled first (uses ++ names) marks final.labels final.body.code ∧
      List.Forall₂ (fun name place => final.labels.place? name = some place) names places := by
  induction names generalizing state uses with
  | nil => exact ⟨[], state, rfl, .refl _, by simpa using labelled, .nil⟩
  | cons name names ih =>
    obtain ⟨place, middle, run, notes, used, found⟩ :=
      run_useLabel labelled (named name List.mem_cons_self) branch
    obtain ⟨places, final, others, further, allUsed, allFound⟩ :=
      ih used fun other member => named other (List.mem_cons_of_mem _ member)
    refine ⟨place :: places, final, ?_, notes.trans further, by simpa using allUsed,
      .cons (further.labels _ _ found) allFound⟩
    rw [List.mapM_cons]
    exact Steps.run_bind_ok.2 ⟨_, _, run, Steps.run_bind_ok.2 ⟨_, _, others, rfl⟩⟩

/-- The slot of a local variable is found, and its access is noted. -/
theorem run_localSlot (find : Option LocalTable → Except Cause (UInt16 × Option LocalTable))
    {slot : UInt16} {table : Option LocalTable} (found : find state.locals = .ok (slot, table))
    (same : table.map LocalTable.scope = state.locals.map LocalTable.scope) :
    (localSlot find).run state = .ok slot { state with locals := table } ∧
      state.Notes { state with locals := table } := by
  refine ⟨?_, rfl, rfl, rfl, same, rfl, .refl _⟩
  refine Steps.run_bind_ok.2 ⟨_, _, Steps.run_get _, ?_⟩
  exact Steps.run_bind_ok.2 ⟨_, _, refusable_eq_ok.2 ⟨found, rfl⟩, rfl⟩

/-- A name is found among declared variables as it is among their names, since
names in a table differ. -/
theorem byName_of_scope {table : LocalTable} {name : String} {index : Nat}
    (found : table.scope.names.findIdx? (· = some name) = some index) :
    LocalTable.byName (some table) name =
      .ok (table.scope.slot index, some (table.markUsed index)) := by
  have position : table.slots.findIdx? (·.name = some name) = some index := by
    rw [LocalTable.scope, List.findIdx?_map] at found
    exact found
  simp [LocalTable.byName, position, LocalTable.slot, Scope.slot, LocalTable.scope]

/-- An index among declared variables is relative to their declaration: the slot
counts the variables of the body before them. -/
theorem byIndex_of_scope {table : LocalTable} {index : Nat}
    (within : index < table.scope.names.length) :
    LocalTable.byIndex (some table) index =
      .ok (table.scope.slot index, some (table.markUsed index)) := by
  have room : index < table.slots.length := by simpa [LocalTable.scope] using within
  simp [LocalTable.byIndex, room, LocalTable.slot, Scope.slot, LocalTable.scope]

/-- An opcode that does not name a local variable itself is composed with its
operand, or with a slot if it takes one. -/
theorem instruction_of_explicit (explicit : opcode.implicitLocal = none) :
    instruction frame call opcode value =
      match opcode.kind.isLocalSlot, value with
      | true, .string name =>
          localSlot (LocalTable.byName · name) >>= fun slot =>
            liftExcept (localAccess opcode slot)
      | true, .integer index =>
          localSlot (LocalTable.byIndex · index) >>= fun slot =>
            liftExcept (localAccess opcode slot)
      | _, _ =>
          operand frame call opcode value >>= fun operand =>
            liftExcept (Instruction.checked opcode operand) := by
  unfold instruction
  rewrite [explicit]
  rfl

/-- An access to a local variable is composed with its slot, in the form that
reaches it. -/
theorem run_localAccess (find : Option LocalTable → Except Cause (UInt16 × Option LocalTable))
    {slot : UInt16} {table : Option LocalTable} (found : find state.locals = .ok (slot, table))
    (same : table.map LocalTable.scope = state.locals.map LocalTable.scope)
    (takes : opcode.kind.isLocalSlot = true) :
    (localSlot find >>= fun slot => liftExcept (localAccess opcode slot)).run state =
        .ok ⟨opcode.reaching slot, .localSlot slot⟩ { state with locals := table } ∧
      state.Notes { state with locals := table } := by
  obtain ⟨run, notes⟩ := run_localSlot find found same
  exact ⟨Steps.run_bind_ok.2 ⟨_, _, run, Steps.run_liftExcept_eq_ok.2
    ⟨Opcode.localAccess_eq takes slot, rfl⟩⟩, notes⟩

/-- A branch is composed with the place of its label, marked or not. The distance
is not known yet and does not matter, since both branch kinds take any place. -/
theorem run_branch (labelled : Labelled first uses marks state.labels state.body.code)
    (takes : opcode.kind.isTarget = true) (named : name ≠ "") :
    ∃ place final, (instruction frame call opcode (.string name)).run state =
        .ok ⟨opcode, .target place⟩ final ∧ state.Notes final ∧
      Labelled first (uses ++ [name]) marks final.labels final.body.code ∧
      final.labels.place? name = some place := by
  obtain ⟨place, final, run, notes, used, found⟩ := run_useLabel labelled named call
  have kinds : opcode.kind = .shortTarget ∨ opcode.kind = .target := by
    simpa [OperandKind.isTarget] using takes
  have fits : (Operand.target place).fits opcode.kind = true := takes
  have explicit : opcode.kind ≠ .none := by
    rintro nothing
    simp [nothing, OperandKind.isTarget] at takes
  refine ⟨place, final, ?_, notes, used, found⟩
  rw [instruction_of_explicit (Opcode.implicitLocal_of_kind explicit)]
  have target : (operand frame call opcode (.string name)).run state =
      .ok (.target place) final := by
    unfold operand
    rcases kinds with kind | kind <;> rw [kind] <;>
      exact Steps.run_bind_ok.2 ⟨_, _, run, rfl⟩
  rcases kinds with kind | kind <;> rw [kind] <;>
    exact Steps.run_bind_ok.2 ⟨_, _, target,
      Steps.run_liftExcept_eq_ok.2 ⟨Instruction.checked_of_fits fits, rfl⟩⟩

/-- A switch is composed with the places of its labels, in the order of the
names. A name that occurs twice has one place, mentioned at its first occurrence. -/
theorem run_switch {names : List String}
    (labelled : Labelled first uses marks state.labels state.body.code)
    (takes : opcode.kind = .switch) (named : ∀ name ∈ names, name ≠ "") :
    ∃ places final, (instruction frame call opcode (.labels names)).run state =
        .ok ⟨opcode, .switch places⟩ final ∧ state.Notes final ∧
      Labelled first (uses ++ names) marks final.labels final.body.code ∧
      List.Forall₂ (fun name place => final.labels.place? name = some place) names places := by
  obtain ⟨places, final, run, notes, used, found⟩ := run_useLabels labelled named call
  have fits : (Operand.switch places).fits opcode.kind = true := by rw [takes]; rfl
  refine ⟨places, final, ?_, notes, used, found⟩
  rw [instruction_of_explicit (Opcode.implicitLocal_of_kind (by simp [takes]))]
  have targets : (operand frame call opcode (.labels names)).run state =
      .ok (.switch places) final := by
    unfold operand
    rw [takes]
    exact Steps.run_bind_ok.2 ⟨_, _, run, rfl⟩
  rw [takes]
  exact Steps.run_bind_ok.2 ⟨_, _, targets,
    Steps.run_liftExcept_eq_ok.2 ⟨Instruction.checked_of_fits fits, rfl⟩⟩

/-- An operand that is neither a label nor a local variable is composed as it is,
and nothing is noted. An opcode that names a local variable itself counts as such
an operation as long as no variables are declared. -/
theorem run_operation {operand : Operand} (gives : value.Gives frame.method operand)
    (fits : operand.fits opcode.kind = true)
    (explicit : state.locals = none ∨ opcode.implicitLocal = none) :
    (instruction frame call opcode value).run state = .ok ⟨opcode, operand⟩ state := by
  cases implicit : opcode.implicitLocal with
  | none =>
    rw [instruction_of_explicit implicit, gives.not_local fits]
    exact Steps.run_bind_ok.2 ⟨_, _, run_operand gives fits,
      Steps.run_liftExcept_eq_ok.2 ⟨Instruction.checked_of_fits fits, rfl⟩⟩
  | some index =>
    have undeclared : state.locals = none := explicit.resolve_right (by simp [implicit])
    obtain ⟨kind, general, full, -⟩ := Opcode.full_of_implicitLocal implicit
    obtain rfl := gives.eq_none (kind ▸ fits)
    unfold instruction
    rw [implicit, full]
    refine Steps.run_bind_ok.2 ⟨_, _, Steps.run_get _, ?_⟩
    rw [undeclared]
    rfl

/-- An opcode that names a declared variable itself is composed in its full form,
because the variable may have been moved to another slot. -/
theorem run_implicitLocal {table : LocalTable} {index : UInt16} {general : Opcode}
    (declared : state.locals = some table) (implicit : opcode.implicitLocal = some index)
    (full : opcode.generalLocalForm = some general)
    (within : index.toNat < table.scope.names.length) :
    (instruction frame call opcode value).run state =
        .ok ⟨general, .localSlot (table.scope.slot index.toNat)⟩
          { state with locals := some (table.markUsed index.toNat) } ∧
      state.Notes { state with locals := some (table.markUsed index.toNat) } := by
  obtain ⟨-, _, found, wide⟩ := Opcode.full_of_implicitLocal implicit
  obtain rfl := Option.some.inj (full.symm.trans found)
  have search : LocalTable.byIndex state.locals index.toNat =
      .ok (table.scope.slot index.toNat, some (table.markUsed index.toNat)) := by
    rw [declared]
    exact byIndex_of_scope within
  obtain ⟨run, notes⟩ := run_localSlot (LocalTable.byIndex · index.toNat) search
    (by simp [declared, LocalTable.scope_markUsed])
  refine ⟨?_, notes⟩
  unfold instruction
  rw [implicit, full]
  refine Steps.run_bind_ok.2 ⟨_, _, Steps.run_get _, ?_⟩
  rw [declared]
  have fits : (Operand.localSlot (table.scope.slot index.toNat)).fits general.kind = true := by
    simp [wide, Operand.fits]
  exact Steps.run_bind_ok.2 ⟨_, _, run,
    Steps.run_liftExcept_eq_ok.2 ⟨Instruction.checked_of_fits fits, rfl⟩⟩

/-- What a statement describes is composed: the instruction stands for its item
at any place, and the labels that it goes to have places then. By cases on why
the value is an item for the opcode. -/
theorem run_instruction {item : Item} {scope : Option Scope}
    (emits : opcode.Emits frame.method scope value item)
    (known : state.locals.map LocalTable.scope = scope)
    (labelled : Labelled first uses marks state.labels state.body.code)
    (named : ∀ name ∈ item.uses, name ≠ "") :
    ∃ i final, (instruction frame call opcode value).run state = .ok i final ∧
      state.Notes final ∧ Labelled first (uses ++ item.uses) marks final.labels final.body.code ∧
      ∀ place, item.Stands final.labels.place? ⟨place, i⟩ := by
  have unused : Labelled first (uses ++ []) marks state.labels state.body.code := by
    simpa using labelled
  cases emits with
  | operation gives fits explicit =>
    have without := explicit.imp_left fun undeclared =>
      Option.map_eq_none_iff.1 (known.trans undeclared)
    exact ⟨_, state, run_operation gives fits without, .refl _, unused, fun place => rfl⟩
  | @branch _ label takes =>
    obtain ⟨place, final, run, notes, used, found⟩ :=
      run_branch labelled takes (named label (by simp [Item.uses]))
    exact ⟨_, final, run, notes, used, fun _ => ⟨place, found, rfl⟩⟩
  | switch takes =>
    obtain ⟨places, final, run, notes, used, found⟩ := run_switch labelled takes named
    exact ⟨_, final, run, notes, used, fun _ => ⟨places, found, rfl⟩⟩
  | @namedLocal scope name index takes found =>
    obtain ⟨table, declared, rfl⟩ := Option.map_eq_some_iff.1 known
    have search : LocalTable.byName state.locals name =
        .ok (table.scope.slot index, some (table.markUsed index)) := by
      rw [declared]
      exact byName_of_scope found
    obtain ⟨run, notes⟩ := run_localAccess (LocalTable.byName · name) search
      (by simp [declared, LocalTable.scope_markUsed]) takes
    refine ⟨_, _, ?_, notes, unused, fun place => rfl⟩
    rw [instruction_of_explicit (Opcode.implicitLocal_of_isLocalSlot takes), takes]
    exact run
  | @indexedLocal scope index takes within =>
    obtain ⟨table, declared, rfl⟩ := Option.map_eq_some_iff.1 known
    have search : LocalTable.byIndex state.locals index =
        .ok (table.scope.slot index, some (table.markUsed index)) := by
      rw [declared]
      exact byIndex_of_scope within
    obtain ⟨run, notes⟩ := run_localAccess (LocalTable.byIndex · index) search
      (by simp [declared, LocalTable.scope_markUsed]) takes
    refine ⟨_, _, ?_, notes, unused, fun place => rfl⟩
    rw [instruction_of_explicit (Opcode.implicitLocal_of_isLocalSlot takes), takes]
    exact run
  | @numberedLocal index takes within =>
    have undeclared : state.locals = none := Option.map_eq_none_iff.1 known
    have search : LocalTable.byIndex state.locals index = .ok (.ofNat index, none) := by
      simp [undeclared, LocalTable.byIndex, within]
    obtain ⟨run, notes⟩ := run_localAccess (LocalTable.byIndex · index) search
      (by rw [undeclared]) takes
    refine ⟨_, _, ?_, notes, unused, fun place => rfl⟩
    rw [instruction_of_explicit (Opcode.implicitLocal_of_isLocalSlot takes), takes]
    exact run
  | implicitLocal implicit full within =>
    obtain ⟨table, declared, rfl⟩ := Option.map_eq_some_iff.1 known
    obtain ⟨run, notes⟩ := run_implicitLocal declared implicit full within
    exact ⟨_, _, run, notes, unused, fun place => rfl⟩

end Rewrite

end InlineCil
