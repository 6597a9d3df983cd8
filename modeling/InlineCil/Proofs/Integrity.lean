import InlineCil.Proofs.Encoding.Labels
import InlineCil.Proofs.Framing.Rules
import InlineCil.Proofs.Promise

/-!
# What a pass never breaks

Between two changes of a pass every branch goes to a linked line or to a label
whose instruction is still to be linked, every border of a clause is linked, and
the label table agrees with the code. Where the operands of a body fit their
opcodes, they still do. Each change of a body keeps this up, so no later step
meets a reference that dangles.

`Intact` is the invariant, and `LabelTable.Tied` its part on labels. Places that
were handed out after the original ones belong to labels, one for each, and the
instruction of a label waits exactly until the label is marked. With this a new
place in a branch is known to be that of a label that is used.

Some of it is needed only to rule out faults: that operands fit, that nothing
loads modules. Those fields are under the condition `fair`, so one proof serves
both the theorem about sound methods and the weaker one about all methods whose
references are live.
-/

namespace InlineCil

/-- Every operand fits its opcode. -/
def Body.Fitting (b : Body) : Prop :=
  ∀ line ∈ b.code.linked, line.instruction.isWellTyped = true

theorem Operand.fits_moveTargets (move : Place → Place) (operand : Operand) (kind : OperandKind) :
    (operand.moveTargets move).fits kind = operand.fits kind := by
  cases operand with
  | switch places => cases kind <;> rfl
  | _ => rfl

@[simp] theorem Instruction.isWellTyped_moveTargets (move : Place → Place) (i : Instruction) :
    (i.moveTargets move).isWellTyped = i.isWellTyped :=
  i.operand.fits_moveTargets move i.opcode.kind

namespace LabelTable

/-- Some branch goes to the place of a label. -/
def Used (t : LabelTable) (place : Place) : Prop :=
  ∃ label ∈ t.labels, label.place = place ∧ label.firstUse.isSome

/-- The table agrees with the code: names and places differ, every new place is
that of a label, and the instruction of a label waits to be linked until the
label is marked. -/
structure Tied (first : Nat) (t : LabelTable) (code : Code) : Prop where
  names : (t.labels.map Label.name).Nodup
  places : (t.labels.map Label.place).Nodup
  fresh : ∀ label ∈ t.labels, first ≤ label.place.index
  known : ∀ place : Place, first ≤ place.index → place.index < code.next →
    ∃ label ∈ t.labels, label.place = place
  waiting : ∀ label ∈ t.labels, label.definedAt = none →
    ∃ line ∈ code.detached, line.place = label.place
  standing : ∀ label ∈ t.labels, label.definedAt.isSome → label.place ∈ code.places

variable {first : Nat} {t : LabelTable} {code left : Code} {name : String} {place : Place}

theorem Used.add (used : t.Used place) (name : String) (other : Place) :
    (t.add name other).Used place := by
  obtain ⟨label, member, same⟩ := used
  exact ⟨label, List.mem_append_left _ member, same⟩

/-- What is noted about a label need not be about its name and its place. Any
view of labels that the note does not change is the same for the whole table. -/
theorem map_update {β : Type} (view : Label → β) {change : Label → Label}
    (still : ∀ label, view (change label) = view label) :
    (t.update name change).labels.map view = t.labels.map view := by
  rw [update, List.map_map]
  refine List.map_congr_left fun label _ => ?_
  rw [Function.comp_apply]
  split
  · exact still label
  · rfl

/-- What is noted about a label keeps it used, if the note on its first use is
kept. Labels do not change their places, so a branch to one goes to one. -/
theorem Used.update (used : t.Used place) (name : String) {change : Label → Label}
    (still : ∀ label, (change label).place = label.place)
    (kept : ∀ label, label.firstUse.isSome → (change label).firstUse.isSome) :
    (t.update name change).Used place := by
  obtain ⟨label, member, rfl, used⟩ := used
  refine ⟨_, List.mem_map_of_mem member, ?_, ?_⟩
  · split
    · exact still label
    · rfl
  · split
    · exact kept label used
    · exact used

/-- A branch to a label makes it used, and it stays so for the rest of the pass. -/
theorem used_use {label : Label} (member : label ∈ t.labels) (branch : Place) :
    (t.use label.name branch).Used label.place := by
  refine ⟨_, List.mem_map_of_mem member, ?_, ?_⟩
  · rw [if_pos rfl]
  · rw [if_pos rfl]
    cases label.firstUse <;> simp

namespace Tied

/-- Before a pass there are no labels, and no places that would be new. -/
theorem initial (code : Code) : Tied code.next {} code where
  names := .nil
  places := .nil
  fresh := by simp
  known place low high := absurd high (by omega)
  waiting := by simp
  standing := by simp

/-- The code may change as long as new places stay where they are: those that
wait go on waiting, and those that are linked stay linked. The old lines may do
as they like. -/
theorem congr (tied : Tied first t code) (next : left.next = code.next)
    (waiting : ∀ line ∈ code.detached, first ≤ line.place.index →
      ∃ other ∈ left.detached, other.place = line.place)
    (standing : ∀ place ∈ code.places, first ≤ place.index → place ∈ left.places) :
    Tied first t left where
  names := tied.names
  places := tied.places
  fresh := tied.fresh
  known place low high := tied.known place low (next ▸ high)
  waiting label member undefined := by
    obtain ⟨line, waits, same⟩ := tied.waiting label member undefined
    obtain ⟨other, still, there⟩ := waiting line waits (same ▸ tied.fresh label member)
    exact ⟨other, still, there.trans same⟩
  standing label member defined :=
    standing _ (tied.standing label member defined) (tied.fresh label member)

/-- Labels that were handed out have an index below the next one. Proof: their
instructions wait or stand, and all lines have such an index. -/
theorem index_lt (tied : Tied first t code) {label : Label} (member : label ∈ t.labels) :
    label.place.index < code.next := by
  cases defined : label.definedAt with
  | none =>
    obtain ⟨line, waits, same⟩ := tied.waiting label member defined
    exact same ▸ code.index_lt (List.mem_append_right _ waits)
  | some call =>
    obtain ⟨line, linked, same⟩ := List.mem_map.1 (tied.standing label member (by simp [defined]))
    exact same ▸ code.index_lt (List.mem_append_left _ linked)

/-- A new label gets a new place, where its instruction waits. The place is above
all that were handed out before, so it is no place of another label. -/
theorem add (tied : Tied first t code) (missing : t.find? name = none)
    (low : first ≤ code.next) : Tied first (t.add name ⟨code.next⟩) (code.create ⟨.nop, .none⟩)
    where
  names := by
    have fresh : ∀ label ∈ t.labels, label.name ≠ name := fun label member same => by
      simpa [same] using List.find?_eq_none.1 missing label member
    rw [LabelTable.add, List.map_append, List.nodup_append]
    exact ⟨tied.names, by simp, by simpa using fresh⟩
  places := by
    have other : ∀ label ∈ t.labels, label.place ≠ ⟨code.next⟩ := fun label member same => by
      have low := tied.index_lt member
      rw [same] at low
      exact Nat.lt_irrefl _ low
    rw [LabelTable.add, List.map_append, List.nodup_append]
    exact ⟨tied.places, by simp, by simpa using other⟩
  fresh label member := by
    rcases List.mem_append.1 member with member | member
    · exact tied.fresh label member
    · obtain rfl := List.mem_singleton.1 member
      exact low
  known place low high := by
    rcases Nat.lt_succ_iff_lt_or_eq.1 high with high | same
    · obtain ⟨label, member, there⟩ := tied.known place low high
      exact ⟨label, List.mem_append_left _ member, there⟩
    · exact ⟨_, List.mem_append_right _ (List.mem_singleton.2 rfl), by rw [← same]⟩
  waiting label member undefined := by
    rcases List.mem_append.1 member with member | member
    · obtain ⟨line, waits, same⟩ := tied.waiting label member undefined
      exact ⟨line, List.mem_append_left _ waits, same⟩
    · obtain rfl := List.mem_singleton.1 member
      exact ⟨_, List.mem_append_right _ (List.mem_singleton.2 rfl), rfl⟩
  standing label member defined := by
    rcases List.mem_append.1 member with member | member
    · exact tied.standing label member defined
    · obtain rfl := List.mem_singleton.1 member
      simp at defined

/-- Noting something about a label moves no label; what has become of the code
has to agree with what is noted. Both branches and marks are noted so. -/
theorem update (tied : Tied first t code) (next : left.next = code.next) {change : Label → Label}
    (still : ∀ label, (change label).name = label.name ∧ (change label).place = label.place)
    (waiting : ∀ label ∈ t.labels,
      (if label.name = name then change label else label).definedAt = none →
        ∃ line ∈ left.detached, line.place = label.place)
    (standing : ∀ label ∈ t.labels,
      (if label.name = name then change label else label).definedAt.isSome →
        label.place ∈ left.places) : Tied first (t.update name change) left where
  names := by
    rw [map_update Label.name fun label => (still label).1]
    exact tied.names
  places := by
    rw [map_update Label.place fun label => (still label).2]
    exact tied.places
  fresh label member := by
    have place := List.mem_map_of_mem (f := Label.place) member
    rw [map_update Label.place fun label => (still label).2] at place
    obtain ⟨old, earlier, same⟩ := List.mem_map.1 place
    exact same ▸ tied.fresh old earlier
  known place low high := by
    obtain ⟨label, member, there⟩ := tied.known place low (next ▸ high)
    have placed := List.mem_map_of_mem (f := Label.place) member
    rw [← map_update Label.place fun label => (still label).2] at placed
    obtain ⟨noted, among, same⟩ := List.mem_map.1 placed
    exact ⟨noted, among, same.trans there⟩
  waiting label member undefined := by
    obtain ⟨old, earlier, rfl⟩ := List.mem_map.1 member
    have same : (if old.name = name then change old else old).place = old.place := by
      split
      · exact (still old).2
      · rfl
    rw [same]
    exact waiting old earlier undefined
  standing label member defined := by
    obtain ⟨old, earlier, rfl⟩ := List.mem_map.1 member
    have same : (if old.name = name then change old else old).place = old.place := by
      split
      · exact (still old).2
      · rfl
    rw [same]
    exact standing old earlier defined

/-- A branch to a label is noted, which changes nothing about where labels are. A
label stays marked or unmarked, whatever branches to it. -/
theorem use (tied : Tied first t code) (name : String) (branch : Place) :
    Tied first (t.use name branch) code := by
  refine tied.update rfl (fun label => ⟨rfl, rfl⟩) (fun label member undefined => ?_)
    fun label member defined => ?_
  · refine tied.waiting label member ?_
    split at undefined <;> exact undefined
  · refine tied.standing label member ?_
    split at defined <;> exact defined

/-- A label is marked, and its instruction is linked. The instructions of other
labels wait as before, since places of labels are distinct. -/
theorem define (tied : Tied first t code) {label : Label} (member : label ∈ t.labels)
    (call : Place) (next : left.next = code.next)
    (waiting : ∀ line ∈ code.detached, line.place ≠ label.place → line ∈ left.detached)
    (standing : ∀ place ∈ code.places, place ∈ left.places) (linked : label.place ∈ left.places) :
    Tied first (t.define label.name call) left := by
  refine tied.update next (fun label => ⟨rfl, rfl⟩) (fun other among undefined => ?_)
    fun other among defined => ?_
  · split at undefined
    · simp at undefined
    next different =>
      obtain ⟨line, waits, same⟩ := tied.waiting other among undefined
      refine ⟨line, waiting line waits fun here => different ?_, same⟩
      -- Labels at one place are one label.
      have one := List.inj_on_of_nodup_map tied.places among member (same.symm.trans here)
      rw [one]
  · split at defined
    · next here =>
      -- Labels of one name are one label.
      have one := List.inj_on_of_nodup_map tied.names among member here
      rw [one]
      exact linked
    · exact standing _ (tied.standing other among defined)

end Tied

end LabelTable

/-- The state of a pass over an original body is in order. Branches that go to
original places stand where branches stood originally; what was emitted goes to
labels. What holds of fair bodies only, whose operands fit and whose symbols load
nothing, is asked for under that condition. -/
structure Intact (fair : Prop) (original : Body) (state : Rewriting) : Prop where
  targets : ∀ line ∈ state.body.code.linked, ∀ place ∈ line.instruction.targets,
    place ∈ state.body.code.places ∨ state.labels.Used place
  origins : ∀ line ∈ state.body.code.linked, ∀ place ∈ line.instruction.targets,
    original.code.next ≤ place.index ∨
      ∃ origin ∈ original.code.linked, origin.place = line.place ∧ origin.instruction.targets ≠ []
  borders : ∀ clause ∈ state.body.clauses, ∀ place ∈ clause.borders,
    place ∈ state.body.code.places
  tied : state.labels.Tied original.code.next state.body.code
  fitting : fair → state.body.Fitting
  undeclared : state.locals = none → state.body.locals = original.locals
  loader : fair → state.symbols.loader = none

namespace Intact

variable {fair : Prop} {original left : Body} {state : Rewriting} {before after : List Line}
  {line : Line}

/-- In the beginning everything is as it was: there are no labels, and original
branches go to linked places. -/
theorem initial (live : original.Live) {symbols : Symbols} (fitting : fair → original.Fitting)
    (loader : fair → symbols.loader = none) :
    Intact fair original { body := original, symbols } where
  targets line member place goes := .inl (live.targets line member place goes)
  origins line member _ goes := .inr ⟨line, member, rfl, List.ne_nil_of_mem goes⟩
  borders := live.borders
  tied := .initial original.code
  fitting := fitting
  undeclared _ := rfl
  loader := loader

/-- Debug points do not matter to what is named and what is linked. -/
theorem points (intact : Intact fair original state) (points : List DebugPoint) :
    Intact fair original { state with body := { state.body with points := points } } where
  targets := intact.targets
  origins := intact.origins
  borders := intact.borders
  tied := intact.tied
  fitting := intact.fitting
  undeclared := intact.undeclared
  loader := intact.loader

/-- Once local variables are declared nothing is asked of them any more. Only
before that a full body would be a fault. -/
theorem declared (intact : Intact fair original state) (added : List Local) (init : Bool)
    (table : LocalTable) :
    Intact fair original
      { state with
        body := { state.body with locals := state.body.locals ++ added, initLocals := init }
        locals := some table } where
  targets := intact.targets
  origins := intact.origins
  borders := intact.borders
  tied := intact.tied
  fitting := intact.fitting
  undeclared := by simp
  loader := intact.loader

/-- Which local variables are accessed does not matter. Only whether there is a
declaration does, since it may be made once. -/
theorem accessed (intact : Intact fair original state) {table : Option LocalTable}
    (same : table.isSome = state.locals.isSome) :
    Intact fair original { state with locals := table } where
  targets := intact.targets
  origins := intact.origins
  borders := intact.borders
  tied := intact.tied
  fitting := intact.fitting
  undeclared undeclared := intact.undeclared (by
    obtain rfl : table = none := undeclared
    simpa using same.symm)
  loader := intact.loader

/-- Lines leave and hand what went to them to one line that stays. So no branch
and no border goes to a place that is gone, and those that went elsewhere are not
moved. -/
theorem shed {kept gone : List Line} {start : Place → Place} {stop : Place → Option Place}
    {heir : Place} {symbols : Symbols} (intact : Intact fair original state)
    (sheds : state.body.Sheds kept gone start stop left)
    (parts : ∀ line, line ∈ state.body.code.linked ↔ line ∈ kept ∨ line ∈ gone)
    (early : ∀ line ∈ gone, line.place.index < original.code.next)
    (inherits : heir ∈ kept.map Line.place)
    (starts : ∀ place, start place = gather (gone.map Line.place) heir place)
    (stops : ∀ place ending, stop place = some ending →
      ending = gather (gone.map Line.place) heir place)
    (loader : fair → symbols.loader = none) :
    Intact fair original { state with body := left, symbols := symbols } := by
  have places := sheds.places
  have stays {place : Place} (new : original.code.next ≤ place.index) :
      gather (gone.map Line.place) heir place = place := by
    refine if_neg fun leaves => ?_
    obtain ⟨line, member, rfl⟩ := List.mem_map.1 leaves
    have below := early line member
    omega
  have lands {place : Place} (linked : place ∈ state.body.code.places) :
      gather (gone.map Line.place) heir place ∈ left.code.places := by
    rw [places]
    obtain ⟨line, member, rfl⟩ := List.mem_map.1 linked
    rcases (parts line).1 member with member | member
    · unfold gather
      split
      · exact inherits
      · exact List.mem_map_of_mem member
    · have gathered : gather (gone.map Line.place) heir line.place = heir :=
        if_pos (List.mem_map_of_mem member)
      exact gathered.symm ▸ inherits
  have moved {other : Line} (member : other ∈ left.code.linked) :
      ∃ line ∈ state.body.code.linked, other.place = line.place ∧
        other.instruction = line.instruction.moveTargets (gather (gone.map Line.place) heir) := by
    rw [sheds.linked] at member
    obtain ⟨line, among, rfl⟩ := List.mem_map.1 member
    exact ⟨line, (parts line).2 (.inl among), rfl, congrArg (line.instruction.moveTargets ·) (funext starts)⟩
  refine ⟨fun other member place goes => ?_, fun other member place goes => ?_,
    fun clause member place border => ?_, ?_, fun holds other member => ?_, fun none => ?_, loader⟩
  · obtain ⟨line, linked, -, same⟩ := moved member
    rw [same, Instruction.targets_moveTargets] at goes
    obtain ⟨target, went, rfl⟩ := List.mem_map.1 goes
    rcases intact.targets line linked target went with there | used
    · exact .inl (lands there)
    · obtain ⟨label, known, rfl, -⟩ := id used
      rw [stays (intact.tied.fresh label known)]
      exact .inr used
  · obtain ⟨line, linked, there, same⟩ := moved member
    rw [same, Instruction.targets_moveTargets] at goes
    obtain ⟨target, went, rfl⟩ := List.mem_map.1 goes
    rw [there]
    rcases intact.origins line linked target went with new | origin
    · rw [stays new]
      exact .inl new
    · exact .inr origin
  · rw [sheds.clauses] at member
    obtain ⟨clause, among, rfl⟩ := List.mem_map.1 member
    obtain ⟨before, held, moves⟩ := Clause.mem_borders_moveBorders border
    have same : place = gather (gone.map Line.place) heir before :=
      moves.elim (fun same => same.trans (starts before)) (stops before place)
    exact same ▸ lands (intact.borders clause among before held)
  · obtain ⟨lines, -, detached⟩ := sheds.detached
    refine intact.tied.congr sheds.next (fun line waits _ => ?_) fun place linked new => ?_
    · exact ⟨line, detached ▸ List.mem_append_right _ waits, rfl⟩
    · exact stays new ▸ lands linked
  · obtain ⟨line, linked, -, same⟩ := moved member
    rw [same, Instruction.isWellTyped_moveTargets]
    exact intact.fitting holds line linked
  · exact sheds.locals.trans (intact.undeclared none)

/-- The only line leaves if nothing refers to it, so nothing is left that could
dangle. There can be no clause then, because every clause has borders. -/
theorem removed_alone {i : Instruction} (intact : Intact fair original state)
    (alone : state.body.code.linked = [line]) (early : line.place.index < original.code.next)
    (removed : state.body.remove line.place = .ok (i, left)) :
    Intact fair original { state with body := left } := by
  have split : state.body.code.linked = [] ++ line :: [] := alone
  have sheds := Body.sheds_of_remove split removed
  have unnamed := (Body.not_named (Body.unnamed_of_remove alone removed)).2
  have nothing : left.code.linked = [] := by simpa using sheds.linked
  have clauses : state.body.clauses = [] := by
    refine List.eq_nil_iff_forall_not_mem.2 fun clause member => ?_
    have border : clause.tryStart ∈ clause.borders := List.mem_cons_self
    have there := intact.borders clause member _ border
    rw [Code.places, alone, List.map_singleton, List.mem_singleton] at there
    exact unnamed clause member (there ▸ border)
  refine ⟨by simp [nothing], by simp [nothing], ?_, ?_, by simp [Body.Fitting, nothing],
    fun none => sheds.locals.trans (intact.undeclared none), intact.loader⟩
  · simp [sheds.clauses, clauses]
  · obtain ⟨lines, -, detached⟩ := sheds.detached
    refine intact.tied.congr sheds.next (fun line waits _ => ?_) fun place linked new => ?_
    · exact ⟨line, detached ▸ List.mem_append_right _ waits, rfl⟩
    · rw [Code.places, alone, List.map_singleton, List.mem_singleton] at linked
      subst linked
      omega

/-- An original line leaves. Its references go to a neighbour, which stays, as
there is another line or nothing refers to it. -/
theorem removed {i : Instruction} (intact : Intact fair original state)
    (split : state.body.code.linked = before ++ line :: after)
    (early : line.place.index < original.code.next)
    (removed : state.body.remove line.place = .ok (i, left)) :
    Intact fair original { state with body := left } := by
  have sheds := Body.sheds_of_remove split removed
  have parts (other : Line) :
      other ∈ state.body.code.linked ↔ other ∈ before ++ after ∨ other ∈ [line] := by
    rw [split]
    simp only [List.mem_append, List.mem_cons, List.not_mem_nil, or_false]
    tauto
  have stops (place ending : Place) (ends : singleEnd line.place (after.head?.map Line.place)
      place = some ending) :
      ending = gather ([line].map Line.place) (Body.heir before line after) place := by
    rw [List.map_singleton, gather_singleton]
    refine eq_single_of_singleEnd (fun next found => ?_) ends
    rw [Body.heir, found]
    rfl
  have starts (place : Place) : single line.place (Body.heir before line after) place =
      gather ([line].map Line.place) (Body.heir before line after) place := by
    rw [List.map_singleton, gather_singleton]
  rcases List.eq_nil_or_concat' before with rfl | ⟨front, last, rfl⟩
  · cases after with
    | nil => exact intact.removed_alone split early removed
    | cons next rest =>
      exact intact.shed sheds parts (by simpa using early) (by simp [Body.heir]) starts stops
        intact.loader
  · refine intact.shed sheds parts (by simpa using early) ?_ starts stops intact.loader
    cases after <;> simp [Body.heir]

/-- Arguments leave before a call, and all references to them go to the call. The
call is linked, so they are as live as before. -/
theorem taken {kept lines : List Line} {call : Line} {symbols : Symbols}
    (intact : Intact fair original state)
    (split : state.body.code.linked = kept ++ lines ++ call :: after)
    (early : ∀ line ∈ lines, line.place.index < original.code.next)
    (took : Rewrite.TakenFrom state.body kept lines call after left)
    (loader : fair → symbols.loader = none) :
    Intact fair original { state with body := left, symbols := symbols } := by
  refine intact.shed took (fun line => ?_) early ?_ (fun place => rfl)
    (fun place ending ends => (Option.some.inj ends).symm) loader
  · rw [split]
    simp only [List.mem_append]
    tauto
  · simp

/-- An instruction is overwritten with one that goes to the same places or to
labels. Both kinds of target are accounted for, so the references of the body
stay live. -/
theorem overwritten (intact : Intact fair original state)
    (split : state.body.code.linked = before ++ line :: after) {i : Instruction}
    (fits : fair → i.isWellTyped = true)
    (goes : ∀ place ∈ i.targets, place ∈ line.instruction.targets ∨ state.labels.Used place) :
    Intact fair original
      { state with body := { state.body with code := state.body.code.overwrite line.place i } } := by
  have linked := Code.linked_overwrite split i
  have places := state.body.code.places_overwrite line.place i
  have member {other : Line} (among : other ∈ (state.body.code.overwrite line.place i).linked) :
      other ∈ state.body.code.linked ∨ other = ⟨line.place, i⟩ := by
    rw [linked] at among
    rw [split]
    simp only [List.mem_append, List.mem_cons] at among ⊢
    tauto
  have here : line ∈ state.body.code.linked := by simp [split]
  refine ⟨fun other among place target => ?_, fun other among place target => ?_,
    fun clause held place border => ?_, ?_, fun holds other among => ?_, intact.undeclared,
    intact.loader⟩
  · dsimp only
    rw [places]
    rcases member among with among | rfl
    · exact intact.targets other among place target
    · rcases goes place target with same | used
      · exact intact.targets line here place same
      · exact .inr used
  · rcases member among with among | rfl
    · exact intact.origins other among place target
    · rcases goes place target with same | ⟨label, known, rfl, -⟩
      · exact intact.origins line here place same
      · exact .inl (intact.tied.fresh label known)
  · dsimp only
    rw [places]
    exact intact.borders clause held place border
  · exact intact.tied.congr rfl (fun line waits _ => ⟨line, waits, rfl⟩)
      fun place linked _ => places ▸ linked
  · rcases member among with among | rfl
    · exact intact.fitting holds other among
    · exact fits holds

/-- A label that was not mentioned before gets a new place. Its instruction waits
there, so the place is one that branches may go to. -/
theorem mentioned (intact : Intact fair original state) {name : String}
    (missing : state.labels.find? name = none)
    (low : original.code.next ≤ state.body.code.next) :
    Intact fair original
      { state with
        body := { state.body with code := state.body.code.create ⟨.nop, .none⟩ }
        labels := state.labels.add name ⟨state.body.code.next⟩ } where
  targets line member place goes :=
    (intact.targets line member place goes).imp_right fun used => used.add _ _
  origins := intact.origins
  borders := intact.borders
  tied := intact.tied.add missing low
  fitting := intact.fitting
  undeclared := intact.undeclared
  loader := intact.loader

/-- A label that is branched to is used from then on; this adds a place that
branches may go to and takes none away. -/
theorem used (intact : Intact fair original state) (name : String) (branch : Place) :
    Intact fair original { state with labels := state.labels.use name branch } where
  targets line member place goes :=
    (intact.targets line member place goes).imp_right fun used =>
      used.update _ (fun _ => rfl) fun label _ => by simp
  origins := intact.origins
  borders := intact.borders
  tied := intact.tied.use name branch
  fitting := intact.fitting
  undeclared := intact.undeclared
  loader := intact.loader

/-- The instruction of a label is linked before a line, and the label is marked.
It waits no longer, but it stands in the code. -/
theorem linked {label : Label} {new : Line} (intact : Intact fair original state)
    (split : state.body.code.linked = before ++ line :: after) (call : Place)
    (member : label ∈ state.labels.labels) (waiting : new ∈ state.body.code.detached)
    (there : new.place = label.place) (nop : new.instruction = ⟨.nop, .none⟩) :
    Intact fair original
      { state with
        labels := state.labels.define label.name call
        body := { state.body with
          code := state.body.code.linkBefore line.place new.place } } := by
  have among (other : Line) :
      other ∈ (state.body.code.linkBefore line.place new.place).linked ↔
        other = new ∨ other ∈ state.body.code.linked := Code.mem_linked_linkBefore split waiting
  have places {place : Place} (held : place ∈ state.body.code.places) :
      place ∈ (state.body.code.linkBefore line.place new.place).places := by
    obtain ⟨other, linked, rfl⟩ := List.mem_map.1 held
    exact List.mem_map_of_mem ((among other).2 (.inr linked))
  have still : new.instruction.targets = [] := by rw [nop]; rfl
  refine ⟨fun other held place goes => ?_, fun other held place goes => ?_,
    fun clause held place border => places (intact.borders clause held place border), ?_,
    fun holds other held => ?_, intact.undeclared, intact.loader⟩
  · rcases (among other).1 held with rfl | held
    · simp [still] at goes
    · exact (intact.targets other held place goes).imp places fun used =>
        used.update _ (fun _ => rfl) fun _ noted => noted
  · rcases (among other).1 held with rfl | held
    · simp [still] at goes
    · exact intact.origins other held place goes
  · refine intact.tied.define member call rfl (fun other waits different => ?_)
      (fun place held => places held) ?_
    · exact Code.mem_detached_linkBefore waits (there ▸ different)
    · exact there ▸ List.mem_map_of_mem ((among new).2 (.inl rfl))
  · rcases (among other).1 held with rfl | held
    · rw [nop]
      rfl
    · exact intact.fitting holds other held

/-- The instruction of a label takes the place of the call that marks it, and the
references to the call go there. -/
theorem marked {label : Label} {new : Line} {i : Instruction}
    (intact : Intact fair original state)
    (split : state.body.code.linked = before ++ line :: after)
    (early : line.place.index < original.code.next) (member : label ∈ state.labels.labels)
    (waiting : new ∈ state.body.code.detached) (there : new.place = label.place)
    (nop : new.instruction = ⟨.nop, .none⟩)
    (replaced : state.body.replaceWith line.place label.place = .ok (i, left)) :
    Intact fair original
      { state with labels := state.labels.define label.name line.place, body := left } := by
  obtain ⟨old, moved, run, sheds⟩ := Body.replaceWith_of_split split waiting
  rw [there, replaced] at run
  obtain ⟨rfl, rfl⟩ := by simpa using run
  -- First the new line comes in, then the old one leaves.
  have between := intact.linked split line.place member waiting there nop
  have linked := Code.linked_linkBefore split waiting
  have inherits : new.place ∈ (before ++ new :: after).map Line.place := by simp
  refine between.shed sheds (fun other => ?_) (by simpa using early) inherits (fun place => ?_)
    (fun place ending ends => ?_) intact.loader
  · rw [linked]
    simp only [List.mem_append, List.mem_cons, List.not_mem_nil, or_false]
    tauto
  · rw [List.map_singleton, gather_singleton]
  · rw [List.map_singleton, gather_singleton]
    exact eq_single_of_singleEnd (fun place same => (Option.some.inj same).symm) ends

end Intact

end InlineCil
