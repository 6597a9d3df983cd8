import InlineCil.Proofs.Encoding.Code
import InlineCil.Proofs.Expression.Restraint
import InlineCil.Proofs.Integrity

/-!
# Every rule keeps a pass in order

A rule that comes to its end leaves the state in order. On a fair method a rule
fails only for reasons in the code, or because the last line would leave while a
clause still names it. Both are carried from step to step through the text of the
rule; that what a step meets is linked follows from the order of the state before
it.

`Upholds` combines the two. Its composition lemmas have the text of a rule on
their left: a bind asks for its first step and then for the rest from the states
that the step may leave. Where more than the invariant has to be known of a
result, such as that an operand goes to used labels, `Steps.Meets` is used
directly.

A fault can come from a place that is not linked, from an index that does not
fit, or from the one refused removal. The frame of the pass gives the first, for
the rule runs at a pending line and that is linked. Fairness gives the second,
and the third is what `Tolerable` allows.
-/

namespace InlineCil

/-- A failure that may end a pass over a fair method: one for a reason in the
code, or the refusal to remove the last line while a clause names it. -/
def Tolerable (failure : Failure) (left : Rewriting) : Prop :=
  failure.isRecoverable = true ∨
    ∃ place, failure = .ofFault (.lastReferenced place) ∧ left.body.code.places = [place] ∧
      ∃ clause ∈ left.body.clauses, clause.names place = true

/-- A step keeps the state of a pass in order, and fails tolerably on fair
methods. -/
def Upholds {α : Type} (fair : Prop) (original : Body) (step : Pass α) (state : Rewriting) :
    Prop :=
  Steps.Meets step state (fun _ final => Intact fair original final)
    fun failure left => fair → Tolerable failure left

variable {α β : Type} {fair : Prop} {frame : Frame} {original : Body} {occ : Occupancy}
  {line : Line} {unread pending rest before after : List Line} {state : Rewriting}

theorem Tolerable.locatedAt {failure : Failure} {left : Rewriting}
    (tolerable : Tolerable failure left) (place : Place) :
    Tolerable (failure.locatedAt place) left := by
  rcases tolerable with recoverable | ⟨last, rfl, alone⟩
  · exact .inl (by rwa [Failure.isRecoverable_locatedAt])
  · exact .inr ⟨last, rfl, alone⟩

section Looking

variable {good : α → Rewriting → Prop} {tolerated : Failure → Rewriting → Prop}

theorem Rewrite.meets_body {next : Body → Pass α}
    (meets : Steps.Meets (next state.body) state good tolerated) :
    Steps.Meets (body >>= next) state good tolerated := meets

theorem Rewrite.meets_setBody {b : Body} {next : Unit → Pass α}
    (meets : Steps.Meets (next ⟨⟩) { state with body := b } good tolerated) :
    Steps.Meets (setBody b >>= next) state good tolerated := meets

end Looking

theorem upholds_pure (intact : Intact fair original state) (value : α) :
    Upholds fair original (pure value) state := intact

theorem upholds_throw {failure : Failure} (recoverable : failure.isRecoverable = true) :
    Upholds fair original (throw failure : Pass α) state := fun _ => .inl recoverable

/-- Steps that keep the state in order may follow each other. The second one is
asked for in the states that the first can leave. -/
theorem Upholds.bind {step : Pass α} {next : α → Pass β} (first : Upholds fair original step state)
    (later : ∀ value left, step.run state = .ok value left → Intact fair original left →
      Upholds fair original (next value) left) : Upholds fair original (step >>= next) state :=
  Steps.Meets.bind first later

theorem upholds_body {next : Body → Pass α} (later : Upholds fair original (next state.body) state) :
    Upholds fair original (Rewrite.body >>= next) state := Rewrite.meets_body later

theorem upholds_get {next : Rewriting → Pass α} (later : Upholds fair original (next state) state) :
    Upholds fair original (get >>= next) state := Steps.meets_get later

theorem upholds_liftExcept {outcome : Except Failure α} (intact : Intact fair original state)
    (blames : OfCode outcome) : Upholds fair original (liftExcept outcome) state :=
  Steps.meets_liftExcept (fun _ _ => intact) fun failure failed _ => .inl (blames failure failed)

theorem upholds_faultless {result : Except Fault α} {value : α}
    (intact : Intact fair original state) (succeeds : result = .ok value) :
    Upholds fair original (Rewrite.faultless result) state := by
  subst succeeds
  exact upholds_pure intact value

theorem Steps.Meets.located {step : Pass α} {good : α → Rewriting → Prop}
    (meets : Meets step state good fun failure left => fair → Tolerable failure left)
    (place : Place) :
    Meets (Rewrite.located place step) state good
      fun failure left => fair → Tolerable failure left :=
  meets_rethrow (meets.mono (fun _ _ held => held)
    fun _ _ tolerable holds => (tolerable holds).locatedAt place)

namespace Intact

theorem upholds_mapPoints (intact : Intact fair original state) (site : List Place)
    (target : Option Place) : Upholds fair original (Rewrite.mapPoints frame site target) state := by
  obtain ⟨points, run⟩ := Rewrite.run_mapPoints frame site target state
  unfold Upholds Steps.Meets
  rw [run]
  exact intact.points points

/-- A line that branches nowhere leaves; the last one does not while a clause
names it. That refusal is the one fault that a pass over a fair body may end
with. -/
theorem upholds_remove (intact : Intact fair original state)
    (split : state.body.code.linked = before ++ line :: after)
    (early : line.place.index < original.code.next)
    (still : fair → line.instruction.targets = []) :
    Upholds fair original (Rewrite.remove line.place) state := by
  refine upholds_body ?_
  cases removed : state.body.remove line.place with
  | ok result => exact intact.removed split early removed
  | error fault =>
    refine fun holds => .inr ?_
    rw [Body.remove_of_split split] at removed
    split at removed
    · next alone =>
      obtain ⟨noNext, noPrevious⟩ := Option.or_eq_none_iff.1 alone
      obtain rfl : after = [] := by simpa using noNext
      obtain rfl : before = [] := by simpa using noPrevious
      split at removed
      · next referred =>
        obtain rfl := Except.error.inj removed
        refine ⟨line.place, rfl, by simp [Code.places, split], ?_⟩
        have nowhere : state.body.code.isTarget line.place = false := by
          simp [Code.isTarget, split, still holds]
        simpa [Body.refersTo, nowhere] using referred
      · simp at removed
    · simp at removed

/-- Arguments before a call are read, and nothing else leaves. If the reading
fails, it fails for a reason in the code. -/
theorem upholds_reading {call : Line} {reader : Site → Nat → Reader α}
    (intact : Intact fair original state)
    (split : state.body.code.linked = before ++ call :: after)
    (early : ∀ place, frame.blocks.sameBlock place call.place = true →
      place.index < original.code.next)
    (restrained : ∀ site bound, (Reader.restraint site).KeptBy (reader site bound)) :
    Upholds fair original (Rewrite.reading frame call.place reader) state := by
  have kept := restrained (Rewrite.siteOf frame call) before.length
    ⟨before.reverse, [], state.symbols⟩
  unfold Upholds
  unfold Steps.Meets at kept ⊢
  rw [Rewrite.run_reading split reader]
  generalize (reader _ _).run _ = result at kept ⊢
  cases result with
  | ok value left =>
    obtain ⟨⟨lines, took⟩, loads⟩ := kept
    obtain ⟨parts, -, taken⟩ := Rewrite.takenFrom_of_took split took
    exact intact.taken (parts ▸ split) (fun other member => early _ (took.together other member))
      taken fun holds => loads (intact.loader holds)
  | error failure left => exact fun holds => .inl (by simpa using kept.2 (intact.loader holds))

/-- A label has a place from its first mention on, and labels that were used
still are. An empty name is refused, which is a failure of the code and not a
fault. -/
theorem meets_labelPlace (framed : Framed frame original occ unread pending state)
    (intact : Intact fair original state) (name : String) :
    Steps.Meets (Rewrite.labelPlace name) state
      (fun place final => Intact fair original final ∧
        (∃ label, final.labels.find? name = some label ∧ label.place = place) ∧
          ∀ place, state.labels.Used place → final.labels.Used place)
      fun failure left => fair → Tolerable failure left := by
  unfold Rewrite.labelPlace
  split
  · exact Steps.meets_throw fun _ => .inl rfl
  · refine Steps.meets_get ?_
    cases known : state.labels.find? name with
    | some label => exact ⟨intact, ⟨label, known, rfl⟩, fun _ used => used⟩
    | none =>
      have found : (state.labels.add name ⟨state.body.code.next⟩).find? name =
          some { name, place := ⟨state.body.code.next⟩ } := by
        simp [LabelTable.find?_add, known]
      exact ⟨intact.mentioned known framed.stocked.next, ⟨_, found, rfl⟩,
        fun _ used => used.add _ _⟩

/-- A branch to a label goes to a place that is used from then on, and those that
were used before still are. -/
theorem meets_useLabel (framed : Framed frame original occ unread pending state)
    (intact : Intact fair original state) (name : String) (branch : Place) :
    Steps.Meets (Rewrite.useLabel name branch) state
      (fun place final => Intact fair original final ∧ final.labels.Used place ∧
        ∀ place, state.labels.Used place → final.labels.Used place)
      fun failure left => fair → Tolerable failure left := by
  refine (intact.meets_labelPlace framed name).bind fun place left _ held => ?_
  obtain ⟨mentioned, ⟨label, found, rfl⟩, still⟩ := held
  obtain ⟨member, rfl⟩ := LabelTable.mem_of_find? found
  exact ⟨mentioned.used label.name branch, LabelTable.used_use member branch,
    fun place used => (still place used).update _ (fun _ => rfl) fun _ _ => by simp⟩

/-- So do several branches, one after the other, by induction on the names.
Labels that were used by the first names are still used after the last. -/
theorem meets_useLabels (framed : Framed frame original occ unread pending state)
    (intact : Intact fair original state) (names : List String) (branch : Place) :
    Steps.Meets (names.mapM (Rewrite.useLabel · branch)) state
      (fun places final => Intact fair original final ∧
        (∀ place ∈ places, final.labels.Used place) ∧
          ∀ place, state.labels.Used place → final.labels.Used place)
      fun failure left => fair → Tolerable failure left := by
  induction names generalizing state with
  | nil => exact ⟨intact, by simp, fun _ used => used⟩
  | cons name names ih =>
    rw [List.mapM_cons]
    refine (intact.meets_useLabel framed name branch).bind fun place middle noting held => ?_
    obtain ⟨noted, used, still⟩ := held
    refine (ih (framed.useLabel noting).1 noted).bind fun places final _ others => ?_
    obtain ⟨done, allUsed, kept⟩ := others
    exact ⟨done, by simpa using ⟨kept place used, allUsed⟩,
      fun place used => kept place (still place used)⟩

/-- The instruction of a label comes into the place of the next line. A label
that is marked already is refused, for a reason in the code. -/
theorem upholds_defineLabel (framed : Framed frame original occ unread (line :: rest) state)
    (intact : Intact fair original state) (name : String) :
    Upholds fair original (Rewrite.defineLabel name line.place) state := by
  refine (intact.meets_labelPlace framed name).bind fun place middle registering held => ?_
  obtain ⟨mentioned, ⟨label, found, rfl⟩, -⟩ := held
  obtain ⟨registered, fresh⟩ := framed.labelPlace registering
  obtain ⟨member, rfl⟩ := LabelTable.mem_of_find? found
  refine Steps.meets_get ?_
  dsimp only
  rw [found, Option.bind_some]
  cases defined : label.definedAt with
  | some call => exact upholds_throw rfl
  | none =>
    obtain ⟨done, split⟩ := registered.placed.split
    have code := registered.placed.code split
    obtain ⟨new, waiting, there⟩ := mentioned.tied.waiting label member defined
    obtain ⟨i, left, replaced, -⟩ := Body.replaceWith_of_split code waiting
    rw [Line.place_moveTargets, there] at replaced
    have nop := registered.stocked.waiting new waiting (there ▸ fresh)
    have early : line.place.index < original.code.next := registered.index_lt List.mem_cons_self
    have marked := mentioned.marked code early member waiting there nop replaced
    refine .of_run label.place ?_ marked
    refine Steps.run_bind_ok.2 ⟨_, _, rfl, ?_⟩
    refine Steps.run_bind_ok.2 ⟨_, _, rfl, ?_⟩
    exact Steps.run_bind_ok.2 ⟨_, _, Rewrite.faultless_eq_ok.2 ⟨replaced, rfl⟩, rfl⟩

/-- An instruction that was checked has an operand that fits. -/
theorem isWellTyped_of_checked {opcode : Opcode} {operand : Operand} {i : Instruction}
    (checked : Instruction.checked opcode operand = .ok i) : i.isWellTyped = true := by
  obtain rfl := Instruction.eq_of_checked checked
  unfold Instruction.checked Instruction.checked? at checked
  split at checked
  · next found =>
    split at found
    · assumption
    · simp at found
  · simp at checked

/-- Looking a local variable up declares none. -/
def Finds (find : Option LocalTable → Except Cause (UInt16 × Option LocalTable)) : Prop :=
  ∀ table slot found, find table = .ok (slot, found) → found.isSome = table.isSome

/-- Looking a variable up by its name declares none. There have to be
declarations for a name to be found, and the use that is noted leaves them. -/
theorem finds_byName (name : String) : Finds (LocalTable.byName · name) := by
  intro table slot found named
  unfold LocalTable.byName at named
  dsimp only at named
  split at named
  · next t index held =>
    obtain ⟨-, rfl⟩ := by simpa using named
    obtain ⟨t, rfl, -⟩ := Option.bind_eq_some_iff.1 held
    rfl
  · simp at named

/-- Looking a variable up by its index declares none. The table keeps its
declarations and at most notes a use, with a declaration as without one. -/
theorem finds_byIndex (index : Int) : Finds (LocalTable.byIndex · index) := by
  intro table slot found named
  dsimp only [LocalTable.byIndex] at named
  cases table with
  | none =>
    dsimp only at named
    split at named
    · obtain ⟨-, rfl⟩ := by simpa using named
      rfl
    · simp at named
  | some t =>
    dsimp only at named
    split at named
    · obtain ⟨-, rfl⟩ := by simpa using named
      rfl
    · simp at named

/-- Looking a local variable up changes nothing but the note that it is accessed. -/
theorem upholds_localSlot (intact : Intact fair original state)
    {find : Option LocalTable → Except Cause (UInt16 × Option LocalTable)} (finds : Finds find) :
    Upholds fair original (Rewrite.localSlot find) state := by
  refine upholds_get ?_
  cases found : find state.locals with
  | ok result => exact intact.accessed (finds _ _ _ found)
  | error cause => exact upholds_throw rfl

/-- An access to a local variable is composed, or its operand does not fit. It
goes nowhere, and the labels are as they were. -/
theorem meets_localAccess (intact : Intact fair original state)
    {find : Option LocalTable → Except Cause (UInt16 × Option LocalTable)} (finds : Finds find)
    {compose : UInt16 → Except Failure Instruction}
    (composes : ∀ slot, ∃ opcode, compose slot = Instruction.checked opcode (.localSlot slot)) :
    Steps.Meets (Rewrite.localSlot find >>= fun slot => liftExcept (compose slot)) state
      (fun i final => Intact fair original final ∧ i.isWellTyped = true ∧
        ∀ place ∈ i.targets, final.labels.Used place)
      fun failure left => fair → Tolerable failure left := by
  refine Steps.Meets.bind (intact.upholds_localSlot finds) fun slot left _ found => ?_
  obtain ⟨opcode, same⟩ := composes slot
  rw [same]
  refine Steps.meets_liftExcept (fun i checked => ⟨found, isWellTyped_of_checked checked, ?_⟩)
    fun failure failed _ => .inl (Instruction.ofCode_checked _ _ failure failed)
  rw [Instruction.eq_of_checked checked]
  simp [Instruction.targets, Operand.targets]

/-- A number within bounds becomes an operand that goes nowhere. -/
theorem meets_ranged (intact : Intact fair original state) {opcode : Opcode}
    {least bound value : Int} {make : Int → Operand} (quiet : (make value).targets = []) :
    Steps.Meets (Rewrite.ranged opcode least bound value make) state
      (fun operand final => Intact fair original final ∧
        ∀ place ∈ operand.targets, final.labels.Used place)
      fun failure left => fair → Tolerable failure left := by
  unfold Rewrite.ranged
  split
  · exact ⟨intact, by simp [quiet]⟩
  · exact Steps.meets_throw fun _ => .inl rfl

/-- A parameter of a method that has few enough of them has an index. So what may
fail is the name alone, which is told as a failure of the code. -/
theorem ofCode_parameterIndex {m : MethodDef} (few : m.parameters.length < 65535) (name : String) :
    OfCode (Rewrite.parameterIndex m name) := by
  unfold Rewrite.parameterIndex
  split
  · simp
  · next position found =>
    have within := (List.findIdx?_eq_some_iff_getElem.1 found).1
    have one := m.hasThis.toNat_le
    dsimp only
    rw [if_pos (by omega)]
    simp

/-- An operand goes to labels only. By the argument: texts are labels, parameters or
themselves, and all other arguments name no place. -/
theorem meets_operand (framed : Framed frame original occ unread pending state)
    (intact : Intact fair original state)
    (few : fair → frame.method.parameters.length < 65535) (call : Place) (opcode : Opcode)
    (value : Argument) :
    Steps.Meets (Rewrite.operand frame call opcode value) state
      (fun operand final => Intact fair original final ∧
        ∀ place ∈ operand.targets, final.labels.Used place)
      fun failure left => fair → Tolerable failure left := by
  have parameter (name : String) :
      Steps.Meets (liftExcept (Rewrite.parameterIndex frame.method name) >>= fun index =>
          return Operand.argument index) state
        (fun (operand : Operand) final => Intact fair original final ∧
          ∀ place ∈ operand.targets, final.labels.Used place)
        fun failure left => fair → Tolerable failure left :=
    Steps.Meets.bind (Steps.meets_liftExcept (fun _ _ => intact) fun failure failed holds =>
      .inl (ofCode_parameterIndex (few holds) name failure failed))
      fun index left _ kept => ⟨kept, by simp [Operand.targets]⟩
  unfold Rewrite.operand
  split
  -- Branches, then switches, name labels; nothing else has targets.
  case h_16 | h_17 =>
    refine (intact.meets_useLabel framed _ call).bind fun place left _ held => ?_
    exact ⟨held.1, by simpa [Operand.targets] using held.2.1⟩
  case h_18 =>
    refine (intact.meets_useLabels framed _ call).bind fun places left _ held => ?_
    exact ⟨held.1, by simpa [Operand.targets] using held.2.1⟩
  case h_19 | h_20 => exact parameter _
  case h_2 | h_3 | h_4 | h_21 | h_22 => exact intact.meets_ranged rfl
  case h_23 => exact Steps.meets_throw fun _ => .inl rfl
  all_goals exact ⟨intact, by simp [Operand.targets]⟩

/-- What an emitting call stands for has an operand that fits and goes to labels
only. Whatever does not fit is refused when the instruction is composed, before
the call is overwritten. -/
theorem meets_instruction (framed : Framed frame original occ unread pending state)
    (intact : Intact fair original state)
    (few : fair → frame.method.parameters.length < 65535) (call : Place) (opcode : Opcode)
    (value : Argument) :
    Steps.Meets (Rewrite.instruction frame call opcode value) state
      (fun i final => Intact fair original final ∧ i.isWellTyped = true ∧
        ∀ place ∈ i.targets, final.labels.Used place)
      fun failure left => fair → Tolerable failure left := by
  unfold Rewrite.instruction
  split
  · next index general implicit full =>
    refine Steps.meets_get ?_
    split
    · have kind := (Opcode.full_of_implicitLocal implicit).1
      exact ⟨intact, by simp [Instruction.isWellTyped, kind, Operand.fits],
        by simp [Instruction.targets, Operand.targets]⟩
    · exact intact.meets_localAccess (finds_byIndex _) fun slot => ⟨general, rfl⟩
  · split
    · exact intact.meets_localAccess (finds_byName _) fun slot => ⟨_, rfl⟩
    · exact intact.meets_localAccess (finds_byIndex _) fun slot => ⟨_, rfl⟩
    · refine (intact.meets_operand framed few call opcode _).bind fun operand left _ held => ?_
      refine Steps.meets_liftExcept (fun i checked => ⟨held.1, isWellTyped_of_checked checked, ?_⟩)
        fun failure failed _ => .inl (Instruction.ofCode_checked _ _ failure failed)
      rw [Instruction.eq_of_checked checked]
      exact held.2

variable {marker : Marker}

/-- What calls a marker branches nowhere, wherever its references were moved. -/
theorem targets_of_marks {space : String} (marks : line.Marks space marker)
    (move : Place → Place) : (line.moveTargets move).instruction.targets = [] := by
  rw [Line.instruction_moveTargets, Instruction.targets_moveTargets,
    Instruction.targets_of_marker? marks, List.map_nil]

/-- Removing a marker call upholds the order, since the call is a pending line that
branches nowhere. -/
theorem upholds_removeCall (framed : Framed frame original occ unread (line :: rest) state)
    (intact : Intact fair original state) (marks : line.Marks (Rewrite.space frame) marker)
    (taken : List Place) :
    Upholds fair original (Rewrite.removeCall frame line.place taken) state := by
  obtain ⟨done, split⟩ := framed.placed.split
  have early : line.place.index < original.code.next := framed.index_lt List.mem_cons_self
  refine upholds_body ?_
  refine (intact.upholds_remove (framed.placed.code split) early
    fun _ => targets_of_marks marks _).bind fun _ left _ removed => ?_
  exact (removed.upholds_mapPoints _ _).bind fun _ final _ kept => kept

/-- Push upholds the order: the check refuses for reasons in the code, and then
the call leaves. -/
theorem upholds_push (framed : Framed frame original occ unread (line :: rest) state)
    (intact : Intact fair original state) (marks : line.Marks (Rewrite.space frame) marker) :
    Upholds fair original (Rewrite.push frame line.place) state := by
  unfold Rewrite.push
  split
  · refine upholds_body ?_
    dsimp only
    split
    · exact upholds_throw rfl
    · exact intact.upholds_removeCall framed marks []
  · exact intact.upholds_removeCall framed marks []

/-- Return upholds the order: the check refuses for reasons in the code, and then
the call leaves. -/
theorem upholds_returnValue (framed : Framed frame original occ unread (line :: rest) state)
    (intact : Intact fair original state) (marks : line.Marks (Rewrite.space frame) marker) :
    Upholds fair original (Rewrite.returnValue frame line.place) state := by
  refine upholds_body ?_
  split
  · exact upholds_throw rfl
  · exact intact.upholds_removeCall framed marks []

/-- A linked instruction is overwritten with one whose operand fits. -/
theorem upholds_replace (intact : Intact fair original state)
    (split : state.body.code.linked = before ++ line :: after) {i : Instruction}
    (fits : i.isWellTyped = true)
    (goes : ∀ place ∈ i.targets, place ∈ line.instruction.targets ∨ state.labels.Used place) :
    Upholds fair original (Rewrite.replace line.place i) state := by
  refine .of_run ⟨⟩ ?_ (intact.overwritten split (fun _ => fits) goes)
  exact Rewrite.replace_eq_ok.2 ⟨_, _, Body.replace_of_split split i, rfl⟩

/-- The operand of an opcode that ends a block without a branch goes nowhere, so
a throw may leave like a call. -/
theorem targets_of_throw {i : Instruction} (throws : i.opcode = .throw)
    (fits : i.isWellTyped = true) : i.targets = [] := by
  unfold Instruction.isWellTyped at fits
  rw [throws] at fits
  exact Operand.targets_of_fits fits rfl (by decide)

/-- Pop upholds the order: a store has the operand of the load it replaces, and
the call leaves. Loads and stores of one kind of variable take the same kind of
operand. -/
theorem upholds_pop (framed : Framed frame original occ unread (line :: rest) state)
    (intact : Intact fair original state) (marks : line.Marks (Rewrite.space frame) marker) :
    Upholds fair original (Rewrite.pop frame line.place) state := by
  obtain ⟨done, split⟩ := framed.placed.split
  have code := framed.placed.code split
  have nearest := Code.before?_of_split code
  rw [Line.place_moveTargets] at nearest
  have early : line.place.index < original.code.next := framed.index_lt List.mem_cons_self
  refine upholds_body ?_
  split
  · exact upholds_throw rfl
  next address before =>
  split
  · exact upholds_throw rfl
  rw [before] at nearest
  obtain ⟨last, found, rfl⟩ := Option.map_eq_some_iff.1 nearest.symm
  obtain ⟨front, parts⟩ := List.getLast?_eq_some_iff.1 found
  rw [parts, List.append_assoc, List.singleton_append] at code
  have loads := Body.instruction_eq_ok.2 (Code.instruction?_of_split code)
  refine upholds_body (Upholds.bind (upholds_faultless intact loads) fun loading _ looking _ => ?_)
  obtain ⟨held, rfl⟩ := Rewrite.faultless_eq_ok.1 looking
  obtain rfl := Except.ok.inj (loads.symm.trans held)
  split
  · exact upholds_throw rfl
  next store stores =>
  refine (upholds_liftExcept intact (Instruction.ofCode_checked _ _)).bind fun i _ checking _ => ?_
  obtain ⟨checked, rfl⟩ := Steps.run_liftExcept_eq_ok.1 checking
  have fits := isWellTyped_of_checked checked
  obtain rfl := Instruction.eq_of_checked checked
  refine (intact.upholds_replace code fits fun place goes => .inl goes).bind
    fun _ stored replacing kept => ?_
  obtain ⟨old, b, replaced, rfl⟩ := Rewrite.replace_eq_ok.1 replacing
  obtain rfl := Body.eq_of_replace replaced
  have again := Code.linked_overwrite code ⟨store, last.instruction.operand⟩
  rw [← List.singleton_append, ← List.append_assoc] at again
  refine upholds_body ?_
  refine (kept.upholds_remove again early fun _ => targets_of_marks marks _).bind
    fun _ left _ removed => ?_
  exact (removed.upholds_mapPoints _ _).bind fun _ final _ mapped => mapped

/-- Unreachable upholds the order: the call leaves, and then the throw after it.
References to the call go to the throw first and from there to what follows. -/
theorem upholds_unreachable (framed : Framed frame original occ unread (line :: rest) state)
    (intact : Intact fair original state)
    (marks : line.Marks (Rewrite.space frame) (.primitive .unreachable)) :
    Upholds fair original (Rewrite.unreachable frame line.place) state := by
  obtain ⟨done, split⟩ := framed.placed.split
  have code := framed.placed.code split
  have following := Code.following?_of_split code
  rw [Line.place_moveTargets, List.head?_map] at following
  have early : line.place.index < original.code.next := framed.index_lt List.mem_cons_self
  refine upholds_body ?_
  rw [following]
  cases rest with
  | nil => exact upholds_throw rfl
  | cons thrown rest =>
    simp only [List.head?_cons, Option.map_some, Line.place_moveTargets]
    split
    · exact upholds_throw rfl
    next throws =>
    refine upholds_body ?_
    refine (intact.upholds_remove code early fun _ => targets_of_marks marks _).bind
      fun _ left removing kept => ?_
    have without := framed.removed (fun _ => .marker marks) removing
    obtain ⟨front, again⟩ := without.placed.split
    have rear := without.placed.code again
    have inside : thrown.place.index < original.code.next := without.index_lt List.mem_cons_self
    refine (kept.upholds_remove rear inside fun holds => ?_).bind fun _ final _ removed => ?_
    · exact targets_of_throw (by simpa using throws) (kept.fitting holds _ (by simp [rear]))
    · exact (removed.upholds_mapPoints _ _).bind fun _ final _ mapped => mapped

/-- Lines in the block of the next line are original ones, since places of labels
are in no block. -/
theorem early_of_sameBlock (framed : Framed frame original occ unread (line :: rest) state)
    (place : Place) (together : frame.blocks.sameBlock place line.place = true) :
    place.index < original.code.next :=
  index_lt_of_mem (Blocks.mem_of_sameBlock (framed.blocks ▸ together))

/-- Arguments before the next line are read, and nothing else leaves. -/
theorem upholds_arguments {reader : Site → Nat → Reader α}
    (framed : Framed frame original occ unread (line :: rest) state) (intact : Intact fair original state)
    (restrained : ∀ site bound, (Reader.restraint site).KeptBy (reader site bound)) :
    Upholds fair original (Rewrite.reading frame line.place reader) state := by
  obtain ⟨done, split⟩ := framed.placed.split
  have reads := intact.upholds_reading (framed.placed.code split)
    (fun place together => early_of_sameBlock framed place together) restrained
  exact reads

/-- Marking a label upholds the order: the name is read, and the instruction of
the label comes into the place of the call. -/
theorem upholds_markLabel (framed : Framed frame original occ (line :: rest) (line :: rest) state)
    (intact : Intact fair original state)
    (marks : line.Marks (Rewrite.space frame) (.primitive .markLabel)) :
    Upholds fair original (Rewrite.markLabel frame line.place) state := by
  refine (intact.upholds_arguments framed fun _ _ => Reader.inherited_restraint.string).bind
    fun read middle reading kept => ?_
  obtain ⟨_, without⟩ :=
    framed.reading marks (fun site _ _ => Framed.readsFor_string site) reading
  have defines := kept.upholds_defineLabel without read.1
  refine Upholds.bind (defines.located line.place) fun place left _ defined => ?_
  exact (defined.upholds_mapPoints _ _).bind fun _ final _ mapped => mapped

/-- Declaring refuses what it does not admit, and leaves an intact body intact:
it only adds local variables. That the body is full is a fault, but then some
variables were declared before, which is refused earlier, or the original had no
room. -/
theorem upholds_declare (intact : Intact fair original state)
    (room : fair → original.locals.length < LocalTable.capacity)
    (declared : List LocalDeclaration) (init : Bool) (call : Place) :
    Upholds fair original (Rewrite.declare declared init call) state := by
  rcases Rewrite.declare_outcome state declared init call with
    ⟨failure, ran, rejects⟩ | ⟨-, added, -, ran⟩
  · rw [Upholds, Steps.Meets, ran]
    intro holds
    cases rejects with
    | again earlier => exact .inl rfl
    | full undeclared occupied =>
      rw [intact.undeclared undeclared] at occupied
      exact absurd occupied (Nat.not_le.2 (room holds))
    | crowded excess => exact .inl rfl
    | repeated twice => exact .inl rfl
  · rw [Upholds, Steps.Meets, ran]
    exact intact.declared added init _

/-- Declaring local variables upholds the order: declarations are read, admitted or
refused, and the call leaves. -/
theorem upholds_declareLocals {hasInitFlag : Bool}
    (framed : Framed frame original occ (line :: rest) (line :: rest) state) (intact : Intact fair original state)
    (room : fair → original.locals.length < LocalTable.capacity)
    (marks : line.Marks (Rewrite.space frame) (.primitive (.declareLocals hasInitFlag))) :
    Upholds fair original (Rewrite.declareLocals frame line.place hasInitFlag) state := by
  refine (intact.upholds_arguments framed fun _ _ => Reader.inherited_restraint.declarations).bind
    fun read middle reading kept => ?_
  obtain ⟨_, without⟩ := framed.reading marks
    (fun site bound _ => Framed.readsFor_declarations site bound hasInitFlag) reading
  obtain ⟨⟨declared, init⟩, taken⟩ := read
  refine Upholds.bind (kept.upholds_declare room declared init line.place)
    fun _ left declaring declares => ?_
  obtain ⟨-, _, -, rfl⟩ := Rewrite.declare_eq_ok declaring
  exact declares.upholds_removeCall (without.declared _ _ _) marks taken

/-- Emitting upholds the order: the argument is read, and the call is overwritten
with an instruction that fits and goes to used labels. -/
theorem upholds_emit {opcode : Opcode} {parameter : EmitParameter}
    (framed : Framed frame original occ (line :: rest) (line :: rest) state) (intact : Intact fair original state)
    (few : fair → frame.method.parameters.length < 65535)
    (marks : line.Marks (Rewrite.space frame) (.emit opcode parameter)) :
    Upholds fair original (Rewrite.emit frame line.place opcode parameter) state := by
  refine (intact.upholds_arguments framed fun _ _ =>
    Reader.inherited_restraint.argument parameter).bind fun read middle reading kept => ?_
  obtain ⟨_, without⟩ := framed.reading marks
    (fun site bound _ => Framed.readsFor_argument site bound opcode parameter) reading
  obtain ⟨value, taken⟩ := read
  have composes := kept.meets_instruction without few line.place opcode value
  refine (composes.located line.place).bind fun i left composing held => ?_
  obtain ⟨noted, fits, used⟩ := held
  obtain ⟨composed, -⟩ := without.instruction (Rewrite.located_eq_ok.1 composing)
  obtain ⟨done, split⟩ := composed.placed.split
  refine Upholds.bind (noted.upholds_replace (composed.placed.code split) fits
    fun place goes => .inr (used place goes)) fun _ written _ replaced => ?_
  exact (replaced.upholds_mapPoints _ _).bind fun _ final _ mapped => mapped

variable (few : fair → frame.method.parameters.length < 65535)
  (room : fair → original.locals.length < LocalTable.capacity)

include few room

/-- Every rule keeps the state in order, by the marker that its call is
classified as. A builder that stands alone is left, so it changes nothing. -/
theorem upholds_rewriteCall (framed : Framed frame original occ (line :: rest) (line :: rest) state)
    (intact : Intact fair original state) (marks : line.Marks (Rewrite.space frame) marker) :
    Upholds fair original (Rewrite.rewriteCall frame line.place marker) state := by
  cases marker with
  | primitive p =>
    cases p with
    | push => exact intact.upholds_push framed marks
    | pushInRef => exact intact.upholds_push framed marks
    | pushOutRef => exact intact.upholds_push framed marks
    | pop => exact intact.upholds_pop framed marks
    | unreachable => exact intact.upholds_unreachable framed marks
    | returnValue => exact intact.upholds_returnValue framed marks
    | returnRef => exact intact.upholds_returnValue framed marks
    | returnPointer => exact intact.upholds_returnValue framed marks
    | markLabel => exact intact.upholds_markLabel framed marks
    | declareLocals hasInitFlag => exact intact.upholds_declareLocals framed room marks
  | emit opcode parameter => exact intact.upholds_emit framed few marks
  | builder b => exact intact

/-- A visit keeps the state in order, whatever stands at the place. A marker that
cannot be classified is refused for a reason in the code. -/
theorem upholds_visit (framed : Framed frame original occ (line :: rest) (line :: rest) state)
    (intact : Intact fair original state) :
    Upholds fair original (Rewrite.visit frame line.place) state := by
  obtain ⟨done, split⟩ := framed.placed.split
  have found := Body.instruction_eq_ok.2 (Code.instruction?_of_split (framed.placed.code split))
  rw [Line.place_moveTargets] at found
  refine upholds_body (Upholds.bind (upholds_faultless intact found) fun i _ looking _ => ?_)
  obtain ⟨held, rfl⟩ := Rewrite.faultless_eq_ok.1 looking
  obtain rfl := Except.ok.inj (found.symm.trans held)
  split
  · next failure refused =>
    have recoverable := Instruction.ofCode_marker? _ _ failure refused
    exact fun _ => .inl (by simpa using recoverable)
  · exact intact
  · next marker marks =>
    exact intact.upholds_rewriteCall few room framed (by simpa [Line.Marks] using marks)

/-- A whole scan keeps the state in order, by induction on the visits. Each visit
keeps it, and leaves what the next one needs of the frame. -/
theorem upholds_scan {cursor : Option Place} {rest : List Line}
    (onward : Framed.Onward frame original rest cursor state)
    (intact : Intact fair original state) (visits : Nat) :
    Upholds fair original (Rewrite.scan frame visits cursor) state := by
  induction visits generalizing cursor rest state with
  | zero => cases cursor <;> exact intact
  | succ visits ih =>
    obtain ⟨occ, pending, framed, there, -⟩ := onward
    cases pending with
    | nil =>
      subst there
      exact intact
    | cons line rest =>
      subst there
      exact (intact.upholds_visit few room framed).bind fun cursor left visiting kept =>
        ih (framed.visit visiting) kept

end Intact

end InlineCil
