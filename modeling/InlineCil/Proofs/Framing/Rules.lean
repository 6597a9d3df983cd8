import InlineCil.Proofs.Declaring
import InlineCil.Proofs.Framing

/-!
# Every rule keeps the frame

A rule for a marker call starts at the first pending line and goes on at a later
one. It takes arguments, removes lines, overwrites its call or puts a label in
its place, and each of these keeps the frame of the pass; so does everything else
that a rule does on the way.

`Framed` is the invariant of the pass. It holds in the middle of a rule too: once
the call has read its arguments, the pending lines begin with the call while the
unread ones begin after it. `Onward` is what a rule must come to, an invariant
state in which the pass goes on at the first pending line.

There is one lemma for each rule, named after it. `rewriteCall` puts the rules
together, `visit` adds the lines that call no marker, and `scan` goes through all
visits by induction.
-/

namespace InlineCil

/-- The state of a pass over an original body that is to visit the pending lines.
Before a visit the calls of all of them are unread; in a visit that of the first
one may have been read. -/
structure Framed (frame : Frame) (original : Body) (occ : Occupancy)
    (unread pending : List Line) (state : Rewriting) : Prop where
  blocks : frame.blocks = Blocks.ofBody original
  placed : Placed (Rewrite.space frame) original occ unread pending state.body
  stocked : Stocked original state

variable {frame : Frame} {original left : Body} {occ : Occupancy} {line : Line}
  {unread pending rest : List Line} {state final : Rewriting}

namespace Stocked

/-- Lines of the original code that leave do not wait to be linked as labels do.
They stay in the store for their instructions, but their places are old. -/
theorem shed {kept gone : List Line} {start : Place → Place} {stop : Place → Option Place}
    (stocked : Stocked original state) (sheds : state.body.Sheds kept gone start stop left)
    (inside : ∀ line ∈ gone, line.place.index < original.code.next) :
    Stocked original { state with body := left } where
  labels := stocked.labels
  waiting line member fresh := by
    obtain ⟨lines, places, detached⟩ := sheds.detached
    simp only [detached, List.mem_append] at member
    rcases member with member | member
    · have among := List.mem_map_of_mem (f := Line.place) member
      rw [places] at among
      obtain ⟨other, otherGone, same⟩ := List.mem_map.1 among
      have earlier := inside other otherGone
      rw [same] at earlier
      omega
    · exact stocked.waiting line member fresh
  next := sheds.next ▸ stocked.next
  locals := sheds.locals ▸ stocked.locals

/-- Removing a single line of the original code keeps the store in order in the
same way. -/
theorem removed (stocked : Stocked original state) {place : Place} {i : Instruction}
    (leaves : state.body.remove place = .ok (i, left)) (inside : place.index < original.code.next) :
    Stocked original { state with body := left } := by
  obtain ⟨before, line, after, rfl, split⟩ :=
    Code.exists_split (Body.contains_of_remove leaves)
  refine stocked.shed (Body.sheds_of_remove split leaves) fun other member => ?_
  obtain rfl := List.mem_singleton.1 member
  exact inside

/-- Overwriting an instruction of the code adds nothing that waits to be linked. -/
theorem overwritten (stocked : Stocked original state) (place : Place) (i : Instruction) :
    Stocked original
      { state with body := { state.body with code := state.body.code.overwrite place i } } where
  labels := stocked.labels
  waiting := stocked.waiting
  next := stocked.next
  locals := stocked.locals

/-- A line that takes the place of another one waits no longer, and the line that
it replaced is an old one. So the lines that wait are still those of labels, each
at a new place. -/
theorem replaced (stocked : Stocked original state) {old new : Place}
    {result : Instruction × Body} (replaces : state.body.replaceWith old new = .ok result)
    (inside : old.index < original.code.next) :
    Stocked original { state with body := result.2 } := by
  obtain ⟨contained, waiting, member, rfl⟩ := Body.waiting_of_replaceWith replaces
  obtain ⟨before, line, after, rfl, split⟩ := Code.exists_split contained
  obtain ⟨i, left, run, sheds⟩ := Body.replaceWith_of_split split member
  rw [replaces] at run
  obtain rfl := Except.ok.inj run
  have linked : Stocked original { state with body := { state.body with
      code := state.body.code.linkBefore line.place waiting.place } } :=
    ⟨stocked.labels, fun other among => stocked.waiting other (List.mem_of_mem_filter among),
      stocked.next, stocked.locals⟩
  refine linked.shed sheds fun other among => ?_
  obtain rfl := List.mem_singleton.1 among
  exact inside

/-- A label has a new place, so no label is an original position. -/
theorem label (stocked : Stocked original state) {name : String} {label : Label}
    (found : state.labels.find? name = some label) :
    original.code.next ≤ label.place.index :=
  stocked.labels label (List.mem_of_find?_eq_some found)

/-- Noting something about a label moves no label. Labels get their places when
their names are first met and keep them. -/
theorem update (stocked : Stocked original state) (name : String) (change : Label → Label)
    (still : ∀ label, (change label).place = label.place) :
    Stocked original { state with labels := state.labels.update name change } where
  labels label member := by
    obtain ⟨before, among, rfl⟩ := List.mem_map.1 member
    have earlier := stocked.labels before among
    split
    · rw [still]
      exact earlier
    · exact earlier
  waiting := stocked.waiting
  next := stocked.next
  locals := stocked.locals

end Stocked

namespace Framed

/-- In the beginning everything is pending, no labels are known and the body is the
original one. -/
theorem initial (frame : Frame) (original : Body) (symbols : Symbols)
    (blocks : frame.blocks = Blocks.ofBody original) :
    Framed frame original (Occupancy.full original) original.code.linked original.code.linked
      { body := original, symbols } where
  blocks := blocks
  placed := Placed.initial _ _
  stocked :=
    { labels := by simp
      waiting := fun line member fresh => by
        have earlier := original.code.index_lt (List.mem_append_right _ member)
        omega
      next := Nat.le_refl _
      locals := ⟨[], by simp⟩ }

/-- Debug points do not matter: they follow places, and the frame says where
those are. So every rule may collapse points at its end without a proof of its
own. -/
theorem points (framed : Framed frame original occ unread pending state) (points : List DebugPoint) :
    Framed frame original occ unread pending
      { state with body := { state.body with points := points } } where
  blocks := framed.blocks
  placed := framed.placed.congr rfl rfl
  stocked :=
    { labels := framed.stocked.labels
      waiting := framed.stocked.waiting
      next := framed.stocked.next
      locals := framed.stocked.locals }

/-- Declared local variables come after the original ones, so slots in the
original code keep their meaning. The code is not touched at all. -/
theorem declared (framed : Framed frame original occ unread pending state) (added : List Local)
    (init : Bool) (table : Option LocalTable) :
    Framed frame original occ unread pending
      { state with
        body := { state.body with locals := state.body.locals ++ added, initLocals := init }
        locals := table } where
  blocks := framed.blocks
  placed := framed.placed.congr rfl rfl
  stocked :=
    { labels := framed.stocked.labels
      waiting := framed.stocked.waiting
      next := framed.stocked.next
      locals := by
        obtain ⟨before, locals⟩ := framed.stocked.locals
        exact ⟨before ++ added, by simp [locals]⟩ }

/-- The pass may go on after the next line without any change. -/
theorem skip (framed : Framed frame original occ unread (line :: rest) state) :
    Framed frame original occ rest rest state :=
  { framed with placed := framed.placed.skip }

/-- The place of a pending line was handed out for the original code, so it is
none of a label. -/
theorem index_lt (framed : Framed frame original occ unread pending state) (member : line ∈ pending) :
    line.place.index < original.code.next :=
  index_lt_of_mem (framed.placed.own member).1

/-- The next line leaves. The reason it needs may not depend on what has been
read. -/
theorem removed (framed : Framed frame original occ unread (line :: rest) state)
    (leaves : ∀ takings, Leaves (Rewrite.space frame) original takings line)
    {done : Unit} (ran : (Rewrite.remove line.place).run state = .ok done final) :
    Framed frame original (occ.vacate [line.place]) rest rest final := by
  obtain ⟨i, b, removed, rfl⟩ := Rewrite.remove_eq_ok.1 ran
  exact ⟨framed.blocks, framed.placed.removed leaves removed,
    framed.stocked.removed removed (framed.index_lt (by simp))⟩

/-- The place to go on from after the next line is the next pending line.
Whatever has been rewritten before stands in front of both. -/
theorem after? (framed : Framed frame original occ unread (line :: rest) state) :
    state.body.code.after? line.place = rest.head?.map Line.place := by
  obtain ⟨done, split⟩ := framed.placed.split
  have next := Code.after?_of_split (framed.placed.code split)
  rw [Line.place_moveTargets] at next
  rw [next, List.head?_map, Option.map_map]
  rfl

/-- The pass is in order and goes on at the first of the lines that are pending
now, which are the last ones of those that were left. A rule may pass over more
than its call, as it does with the throw after unreachable code. -/
def Onward (frame : Frame) (original : Body) (rest : List Line) (cursor : Option Place)
    (final : Rewriting) : Prop :=
  ∃ occ pending, Framed frame original occ pending pending final ∧
    cursor = pending.head?.map Line.place ∧ pending <:+ rest

/-- Where the pass is in order it goes on at the first pending line. -/
theorem onward (framed : Framed frame original occ pending pending state) :
    Onward frame original pending (pending.head?.map Line.place) state :=
  ⟨occ, pending, framed, rfl, List.suffix_refl _⟩

variable {marker : Marker} {cursor : Option Place}

/-- Removing a marker call is in order whatever it took before: its points are
handed on, the call leaves, and the pass goes on after it. -/
theorem removeCall (framed : Framed frame original occ unread (line :: rest) state)
    (marks : line.Marks (Rewrite.space frame) marker) {taken : List Place}
    (ran : (Rewrite.removeCall frame line.place taken).run state = .ok cursor final) :
    Onward frame original rest cursor final := by
  have next := framed.after?
  obtain ⟨_, removed, removing, ran⟩ := Steps.run_bind_ok.1 (Rewrite.body_bind_eq_ok.1 ran)
  obtain ⟨_, mapped, mapping, ran⟩ := Steps.run_bind_ok.1 ran
  obtain ⟨points, rfl⟩ := Rewrite.mapPoints_eq_ok mapping
  obtain ⟨rfl, rfl⟩ := by simpa using ran
  rw [next]
  exact ((framed.removed (fun _ => .marker marks) removing).points points).onward

/-- Push: nothing but the call leaves, once the check has passed. The value it
pushes is pushed by the code before it. -/
theorem push (framed : Framed frame original occ unread (line :: rest) state)
    (marks : line.Marks (Rewrite.space frame) marker)
    (ran : (Rewrite.push frame line.place).run state = .ok cursor final) :
    Onward frame original rest cursor final := by
  unfold Rewrite.push at ran
  split at ran
  · replace ran := Rewrite.body_bind_eq_ok.1 ran
    dsimp only at ran
    split at ran
    · simp at ran
    · exact framed.removeCall marks ran
  · exact framed.removeCall marks ran

/-- Return: nothing but the call leaves, once the check that a return follows has
passed. -/
theorem returnValue (framed : Framed frame original occ unread (line :: rest) state)
    (marks : line.Marks (Rewrite.space frame) marker)
    (ran : (Rewrite.returnValue frame line.place).run state = .ok cursor final) :
    Onward frame original rest cursor final := by
  replace ran := Rewrite.body_bind_eq_ok.1 ran
  split at ran
  · simp at ran
  · exact framed.removeCall marks ran

/-- Pop: the load of the address becomes a store and the call leaves. The load is
found as the instruction before the call, in its block. -/
theorem pop (framed : Framed frame original occ (line :: rest) (line :: rest) state)
    (marks : line.Marks (Rewrite.space frame) (.primitive .pop))
    (ran : (Rewrite.pop frame line.place).run state = .ok cursor final) :
    Onward frame original rest cursor final := by
  replace ran := Rewrite.body_bind_eq_ok.1 ran
  split at ran
  · simp at ran
  next address before =>
  split at ran
  · simp at ran
  next together =>
  obtain ⟨loading, _, found, ran⟩ := Steps.run_bind_ok.1 (Rewrite.body_bind_eq_ok.1 ran)
  obtain ⟨loads, rfl⟩ := Rewrite.faultless_eq_ok.1 found
  split at ran
  · simp at ran
  next store stores =>
  obtain ⟨i, _, checking, ran⟩ := Steps.run_bind_ok.1 ran
  obtain ⟨checked, rfl⟩ := Steps.run_liftExcept_eq_ok.1 checking
  obtain rfl := Instruction.eq_of_checked checked
  obtain ⟨_, _, replacing, ran⟩ := Steps.run_bind_ok.1 ran
  obtain ⟨old, b, replaced, rfl⟩ := Rewrite.replace_eq_ok.1 replacing
  obtain rfl := Body.eq_of_replace replaced
  obtain ⟨_, _, removing, ran⟩ := Steps.run_bind_ok.1 (Rewrite.body_bind_eq_ok.1 ran)
  obtain ⟨gone, left, removed, rfl⟩ := Rewrite.remove_eq_ok.1 removing
  obtain ⟨_, mapped, mapping, ran⟩ := Steps.run_bind_ok.1 ran
  obtain ⟨points, rfl⟩ := Rewrite.mapPoints_eq_ok mapping
  obtain ⟨rfl, rfl⟩ := by simpa using ran
  have near : (Blocks.ofBody original).sameBlock address line.place = true := by
    simpa [framed.blocks] using together
  obtain ⟨next, placed⟩ := framed.placed.popped marks before near
    (Body.instruction_eq_ok.1 loads) stores removed
  have stocked := (framed.stocked.overwritten address ⟨store, loading.operand⟩).removed removed
    (framed.index_lt List.mem_cons_self)
  rw [Code.overwrite, Code.after?_mapLinked, framed.after?]
  exact (Framed.points ⟨framed.blocks, placed, stocked⟩ points).onward

/-- Unreachable: the next pending line is a throw, and it leaves with the call.
Besides the frame this gives which line has left, for a throw is gone only if it
follows the call directly. -/
theorem thrown_of_unreachable (framed : Framed frame original occ unread (line :: rest) state)
    (marks : line.Marks (Rewrite.space frame) (.primitive .unreachable))
    (ran : (Rewrite.unreachable frame line.place).run state = .ok cursor final) :
    ∃ thrown more, rest = thrown :: more ∧ thrown.instruction.opcode = .throw ∧
      state.body.code.following? line.place =
        some (thrown.moveTargets (occ.start original.code.linked)) ∧
      Framed frame original ((occ.vacate [line.place]).vacate [thrown.place]) more more final ∧
      cursor = more.head?.map Line.place := by
  obtain ⟨done, split⟩ := framed.placed.split
  have following := Code.following?_of_split (framed.placed.code split)
  rw [Line.place_moveTargets, List.head?_map] at following
  replace ran := Rewrite.body_bind_eq_ok.1 ran
  rw [following] at ran
  cases rest with
  | nil => simp at ran
  | cons thrown more =>
    simp only [List.head?_cons, Option.map_some, Line.place_moveTargets] at ran
    split at ran
    · simp at ran
    next throws =>
    have next := framed.skip.after?
    have throws : thrown.instruction.opcode = .throw := by simpa using throws
    obtain ⟨_, called, calling, ran⟩ := Steps.run_bind_ok.1 (Rewrite.body_bind_eq_ok.1 ran)
    obtain ⟨_, removed, removing, ran⟩ := Steps.run_bind_ok.1 ran
    obtain ⟨_, mapped, mapping, ran⟩ := Steps.run_bind_ok.1 ran
    obtain ⟨points, rfl⟩ := Rewrite.mapPoints_eq_ok mapping
    obtain ⟨rfl, rfl⟩ := by simpa using ran
    have without := framed.removed (fun _ => .marker marks) calling
    have leaves := without.removed (fun _ => .thrown split marks throws) removing
    exact ⟨thrown, more, rfl, throws, following, leaves.points points, next⟩

/-- Unreachable: the pass goes on after the throw that left with the call. -/
theorem unreachable (framed : Framed frame original occ unread (line :: rest) state)
    (marks : line.Marks (Rewrite.space frame) (.primitive .unreachable))
    (ran : (Rewrite.unreachable frame line.place).run state = .ok cursor final) :
    Onward frame original rest cursor final := by
  obtain ⟨_, more, rfl, -, -, left, there⟩ := framed.thrown_of_unreachable marks ran
  exact ⟨_, more, left, there, List.suffix_cons _ _⟩

/-- A reader that reads what a marker reads: whenever it succeeds, the
instructions it has taken are together a code of the marker's arguments. -/
def ReadsFor {α : Type} (site : Site) (marker : Marker) (reader : Reader α) : Prop :=
  ∀ state value left, reader.run state = .ok value left →
    ∃ lines, Took site state lines left ∧
      marker.Reads site.space (lines.map Line.instruction)

/-- The reader of a text reads what a call that marks a label reads. -/
theorem readsFor_string (site : Site) :
    ReadsFor site (.primitive .markLabel) (Reader.string site) := by
  intro state value left read
  obtain ⟨e, lines, took, held, -⟩ := Reader.recovers_string state value left read
  exact ⟨lines, took, held ▸ .label e⟩

/-- The reader of declarations reads what a declaring call reads, with the flag
or without it. -/
theorem readsFor_declarations (site : Site) (bound : Nat) (hasInitFlag : Bool) :
    ReadsFor site (.primitive (.declareLocals hasInitFlag))
      (Rewrite.declarations hasInitFlag site bound) := by
  intro state value left read
  obtain ⟨a, lines, took, held, -⟩ := Reader.gathers_declarations read
  exact ⟨lines, took, held ▸ .declarations a⟩

/-- The reader of an emitting call's argument reads what the call reads, for
every kind of parameter. -/
theorem readsFor_argument (site : Site) (bound : Nat) (opcode : Opcode)
    (parameter : EmitParameter) :
    ReadsFor site (.emit opcode parameter) (Reader.argument site bound parameter) := by
  intro state value left read
  obtain ⟨a, lines, took, held, -⟩ := Reader.gathers_argument read
  exact ⟨lines, took, held ▸ .emitted opcode a⟩

/-- Arguments that a rule reads leave the frame in order. The lines that the
reader has taken stand last before the call and in its block, so they are a
taking that fits. -/
theorem reading {α : Type}
    (framed : Framed frame original occ (line :: rest) (line :: rest) state)
    (marks : line.Marks (Rewrite.space frame) marker) {reader : Site → Nat → Reader α}
    (reads : ∀ site bound, site.space = Rewrite.space frame →
      ReadsFor site marker (reader site bound)) {result : α × List Place}
    (ran : (Rewrite.reading frame line.place reader).run state = .ok result final) :
    ∃ next : Occupancy, Framed frame original next rest (line :: rest) final := by
  obtain ⟨value, places⟩ := result
  obtain ⟨done, split⟩ := framed.placed.split
  have code := framed.placed.code split
  rw [← line.place_moveTargets (occ.start original.code.linked)] at ran
  obtain ⟨left, run, rfl, rfl⟩ := Rewrite.taken_of_reading code ran
  obtain ⟨lines, took, read⟩ := reads _ _ rfl _ _ _ run
  obtain ⟨parts, -, taken⟩ := Rewrite.takenFrom_of_took code took
  have together : ∀ other ∈ lines,
      (Blocks.ofBody original).sameBlock other.place line.place = true :=
    fun other member => framed.blocks ▸ took.together other member
  have stocked := framed.stocked.shed taken fun other member =>
    index_lt_of_mem (Blocks.mem_of_sameBlock (together other member))
  exact ⟨_, framed.blocks, framed.placed.taken split marks parts together read taken,
    stocked.labels, stocked.waiting, stocked.next, stocked.locals⟩

/-- The place of a label is new, and its instruction waits there: either it was
noted when the name was first met or it is handed out now. -/
theorem labelPlace (framed : Framed frame original occ unread pending state) {name : String}
    {place : Place} (ran : (Rewrite.labelPlace name).run state = .ok place final) :
    Framed frame original occ unread pending final ∧ original.code.next ≤ place.index := by
  unfold Rewrite.labelPlace at ran
  split at ran
  · simp at ran
  replace ran := Rewrite.get_bind_eq_ok.1 ran
  split at ran
  · next label found =>
    obtain ⟨rfl, rfl⟩ := by simpa using ran
    exact ⟨framed, framed.stocked.label found⟩
  · obtain ⟨rfl, rfl⟩ := by simpa using ran
    refine ⟨⟨framed.blocks, framed.placed.congr rfl rfl, ?_, ?_, ?_, framed.stocked.locals⟩,
      framed.stocked.next⟩
    · intro label member
      rcases List.mem_append.1 member with member | member
      · exact framed.stocked.labels label member
      · obtain rfl := List.mem_singleton.1 member
        exact framed.stocked.next
    · intro line member fresh
      rcases List.mem_append.1 member with member | member
      · exact framed.stocked.waiting line member fresh
      · obtain rfl := List.mem_singleton.1 member
        rfl
    · exact Nat.le_succ_of_le framed.stocked.next

/-- A branch to a label goes to a new place, whether or not the label has been
marked yet. -/
theorem useLabel (framed : Framed frame original occ unread pending state) {name : String}
    {branch place : Place} (ran : (Rewrite.useLabel name branch).run state = .ok place final) :
    Framed frame original occ unread pending final ∧ original.code.next ≤ place.index := by
  obtain ⟨_, registered, registering, ran⟩ := Steps.run_bind_ok.1 ran
  obtain ⟨after, fresh⟩ := framed.labelPlace registering
  obtain ⟨rfl, rfl⟩ := by simpa using ran
  exact ⟨⟨after.blocks, after.placed, after.stocked.update name _ fun _ => rfl⟩, fresh⟩

/-- All branches of a switch go to new places, by induction on the names. A place
is new if it was handed out by the pass, and labels have no others. -/
theorem useLabels (framed : Framed frame original occ unread pending state) {names : List String}
    {branch : Place} {places : List Place}
    (ran : (names.mapM (Rewrite.useLabel · branch)).run state = .ok places final) :
    Framed frame original occ unread pending final ∧
      ∀ place ∈ places, original.code.next ≤ place.index := by
  induction names generalizing state places with
  | nil =>
    obtain ⟨rfl, rfl⟩ := by simpa using ran
    exact ⟨framed, by simp⟩
  | cons name names ih =>
    rw [List.mapM_cons] at ran
    obtain ⟨place, used, noting, ran⟩ := Steps.run_bind_ok.1 ran
    obtain ⟨others, left, remaining, ran⟩ := Steps.run_bind_ok.1 ran
    obtain ⟨rfl, rfl⟩ := by simpa using ran
    obtain ⟨after, fresh⟩ := framed.useLabel noting
    obtain ⟨done, rest⟩ := ih after remaining
    exact ⟨done, by simpa using ⟨fresh, rest⟩⟩

/-- An operand goes to labels only. The original code has no places that the text
of an argument could name. Proof: by the kind of the opcode and the form of the
value; all other operands have no targets. -/
theorem operand (framed : Framed frame original occ unread pending state) {call : Place}
    {opcode : Opcode} {value : Argument} {operand : Operand}
    (ran : (Rewrite.operand frame call opcode value).run state = .ok operand final) :
    Framed frame original occ unread pending final ∧
      ∀ place ∈ operand.targets, original.code.next ≤ place.index := by
  have still (quiet : operand.targets = []) (same : state = final) :
      Framed frame original occ unread pending final ∧
        ∀ place ∈ operand.targets, original.code.next ≤ place.index :=
    ⟨same ▸ framed, by simp [quiet]⟩
  unfold Rewrite.operand at ran
  split at ran
  -- Branches, then switches, name labels; nothing else has targets.
  case h_16 | h_17 =>
    obtain ⟨place, _, noting, ran⟩ := Steps.run_bind_ok.1 ran
    obtain ⟨rfl, rfl⟩ := by simpa using ran
    obtain ⟨after, fresh⟩ := framed.useLabel noting
    exact ⟨after, by simpa [Operand.targets] using fresh⟩
  case h_18 =>
    obtain ⟨places, _, noting, ran⟩ := Steps.run_bind_ok.1 ran
    obtain ⟨rfl, rfl⟩ := by simpa using ran
    exact framed.useLabels noting
  -- Numbers have to be within bounds and parameters have to exist.
  case h_2 | h_3 | h_4 | h_21 | h_22 =>
    obtain ⟨-, rfl, same⟩ := Rewrite.ranged_eq_ok.1 ran
    exact still rfl same
  case h_19 | h_20 =>
    obtain ⟨index, _, lifting, ran⟩ := Steps.run_bind_ok.1 ran
    obtain ⟨-, rfl⟩ := Steps.run_liftExcept_eq_ok.1 lifting
    obtain ⟨rfl, same⟩ := by simpa using ran
    exact still rfl same
  case h_23 => simp at ran
  all_goals
    obtain ⟨rfl, same⟩ := by simpa using ran
    exact still rfl same

/-- The slot of a local variable is noted outside of the body, so the code stays
as it is. -/
theorem localSlot (framed : Framed frame original occ unread pending state)
    {find : Option LocalTable → Except Cause (UInt16 × Option LocalTable)} {slot : UInt16}
    (ran : (Rewrite.localSlot find).run state = .ok slot final) :
    Framed frame original occ unread pending final := by
  obtain ⟨⟨index, table⟩, _, found, ran⟩ := Steps.run_bind_ok.1 (Rewrite.get_bind_eq_ok.1 ran)
  obtain ⟨-, rfl⟩ := Rewrite.refusable_eq_ok.1 found
  obtain ⟨-, rfl⟩ := by simpa using ran
  exact ⟨framed.blocks, framed.placed, framed.stocked.labels, framed.stocked.waiting,
    framed.stocked.next, framed.stocked.locals⟩

/-- An access to a local variable goes nowhere: its operand is a slot. -/
theorem accessed (framed : Framed frame original occ unread pending state)
    {find : Option LocalTable → Except Cause (UInt16 × Option LocalTable)} {slot : UInt16}
    {middle : Rewriting} {opcode : Opcode} {i : Instruction}
    (finding : (Rewrite.localSlot find).run state = .ok slot middle)
    (composing : (liftExcept (Instruction.checked opcode (.localSlot slot)) : Pass Instruction).run
      middle = .ok i final) :
    Framed frame original occ unread pending final ∧
      ∀ place ∈ i.targets, original.code.next ≤ place.index := by
  obtain ⟨checked, rfl⟩ := Steps.run_liftExcept_eq_ok.1 composing
  obtain rfl := Instruction.eq_of_checked checked
  exact ⟨framed.localSlot finding, by simp [Instruction.targets, Operand.targets]⟩

/-- What an emitting call stands for goes to labels only, whichever way its
operand is composed. An access to a local variable has no targets, in its short
form as in its full one. -/
theorem instruction (framed : Framed frame original occ unread pending state) {call : Place}
    {opcode : Opcode} {value : Argument} {i : Instruction}
    (ran : (Rewrite.instruction frame call opcode value).run state = .ok i final) :
    Framed frame original occ unread pending final ∧
      ∀ place ∈ i.targets, original.code.next ≤ place.index := by
  unfold Rewrite.instruction at ran
  split at ran
  · replace ran := Rewrite.get_bind_eq_ok.1 ran
    split at ran
    · obtain ⟨rfl, rfl⟩ := by simpa using ran
      exact ⟨framed, by simp [Instruction.targets, Operand.targets]⟩
    · obtain ⟨slot, _, finding, ran⟩ := Steps.run_bind_ok.1 ran
      exact framed.accessed finding ran
  · split at ran
    · obtain ⟨slot, _, finding, ran⟩ := Steps.run_bind_ok.1 ran
      exact framed.accessed finding ran
    · obtain ⟨slot, _, finding, ran⟩ := Steps.run_bind_ok.1 ran
      exact framed.accessed finding ran
    · obtain ⟨operand, _, composing, ran⟩ := Steps.run_bind_ok.1 ran
      obtain ⟨checked, rfl⟩ := Steps.run_liftExcept_eq_ok.1 ran
      obtain rfl := Instruction.eq_of_checked checked
      exact framed.operand composing

/-- The instruction of a label takes the position of the call that marks it, and
the pass goes on after it. What names the place of the call, a branch or a
clause, names the label afterwards. -/
theorem defineLabel (framed : Framed frame original occ unread (line :: rest) state)
    (marks : line.Marks (Rewrite.space frame) (.primitive .markLabel)) {name : String}
    {place : Place} (ran : (Rewrite.defineLabel name line.place).run state = .ok place final) :
    ∃ next : Occupancy, Framed frame original next rest rest final ∧
      final.body.code.after? place = rest.head?.map Line.place := by
  obtain ⟨found, _, registering, ran⟩ := Steps.run_bind_ok.1 ran
  obtain ⟨registered, fresh⟩ := framed.labelPlace registering
  replace ran := Rewrite.get_bind_eq_ok.1 ran
  dsimp only at ran
  split at ran
  · simp at ran
  obtain ⟨_, _, noting, ran⟩ := Steps.run_bind_ok.1 ran
  obtain rfl := by simpa using noting
  obtain ⟨result, _, replacing, ran⟩ := Steps.run_bind_ok.1 (Rewrite.body_bind_eq_ok.1 ran)
  obtain ⟨replaced, rfl⟩ := Rewrite.faultless_eq_ok.1 replacing
  obtain ⟨rfl, rfl⟩ := by simpa using ran
  obtain ⟨-, new, waiting, rfl⟩ := Body.waiting_of_replaceWith replaced
  have nop := registered.stocked.waiting new waiting fresh
  obtain ⟨placed, after⟩ := registered.placed.labelled marks waiting fresh nop replaced
  have noted := registered.stocked.update name
    (fun label => { label with definedAt := some line.place }) fun _ => rfl
  exact ⟨_, ⟨framed.blocks, placed, noted.replaced replaced (framed.index_lt (by simp))⟩, after⟩

/-- Mark a label: its name is read, and its instruction takes the position of the
call. The pass goes on after the label, with the line that was behind the call. -/
theorem markLabel (framed : Framed frame original occ (line :: rest) (line :: rest) state)
    (marks : line.Marks (Rewrite.space frame) (.primitive .markLabel))
    (ran : (Rewrite.markLabel frame line.place).run state = .ok cursor final) :
    Onward frame original rest cursor final := by
  obtain ⟨⟨name, taken⟩, _, reading, ran⟩ := Steps.run_bind_ok.1 ran
  obtain ⟨place, _, defining, ran⟩ := Steps.run_bind_ok.1 ran
  obtain ⟨_, mapped, mapping, ran⟩ := Steps.run_bind_ok.1 ran
  obtain ⟨points, rfl⟩ := Rewrite.mapPoints_eq_ok mapping
  obtain ⟨rfl, rfl⟩ := by simpa using Rewrite.body_bind_eq_ok.1 ran
  obtain ⟨_, without⟩ := framed.reading marks (fun site _ _ => readsFor_string site) reading
  obtain ⟨_, defined, after⟩ := without.defineLabel marks (Rewrite.located_eq_ok.1 defining)
  exact ⟨_, _, defined.points points, after, List.suffix_refl _⟩

/-- Declare local variables: the declarations are read, the new variables come
after the original ones, and the call leaves. -/
theorem declareLocals {hasInitFlag : Bool}
    (framed : Framed frame original occ (line :: rest) (line :: rest) state)
    (marks : line.Marks (Rewrite.space frame) (.primitive (.declareLocals hasInitFlag)))
    (ran : (Rewrite.declareLocals frame line.place hasInitFlag).run state = .ok cursor final) :
    Onward frame original rest cursor final := by
  obtain ⟨⟨⟨declared, init⟩, taken⟩, _, reading, ran⟩ := Steps.run_bind_ok.1 ran
  obtain ⟨_, without⟩ := framed.reading marks
    (fun site bound _ => readsFor_declarations site bound hasInitFlag) reading
  obtain ⟨_, _, declaring, ran⟩ := Steps.run_bind_ok.1 ran
  obtain ⟨-, _, -, rfl⟩ := Rewrite.declare_eq_ok declaring
  exact (without.declared _ _ _).removeCall marks ran

/-- Emit: the argument is read, and the call is overwritten with what it stands
for. It keeps its place, so branches to it now go to the emitted instruction. -/
theorem emit {opcode : Opcode} {parameter : EmitParameter}
    (framed : Framed frame original occ (line :: rest) (line :: rest) state)
    (marks : line.Marks (Rewrite.space frame) (.emit opcode parameter))
    (ran : (Rewrite.emit frame line.place opcode parameter).run state = .ok cursor final) :
    Onward frame original rest cursor final := by
  obtain ⟨⟨value, taken⟩, _, reading, ran⟩ := Steps.run_bind_ok.1 ran
  obtain ⟨_, without⟩ := framed.reading marks
    (fun site bound _ => readsFor_argument site bound opcode parameter) reading
  obtain ⟨i, _, composing, ran⟩ := Steps.run_bind_ok.1 ran
  obtain ⟨composed, fresh⟩ := without.instruction (Rewrite.located_eq_ok.1 composing)
  obtain ⟨_, _, replacing, ran⟩ := Steps.run_bind_ok.1 ran
  obtain ⟨old, b, replaced, rfl⟩ := Rewrite.replace_eq_ok.1 replacing
  obtain rfl := Body.eq_of_replace replaced
  obtain ⟨_, mapped, mapping, ran⟩ := Steps.run_bind_ok.1 ran
  obtain ⟨points, rfl⟩ := Rewrite.mapPoints_eq_ok mapping
  obtain ⟨rfl, rfl⟩ := by simpa using Rewrite.body_bind_eq_ok.1 ran
  have next := composed.after?
  refine ⟨_, rest, Framed.points ⟨composed.blocks, composed.placed.emitted marks fresh,
    composed.stocked.overwritten line.place i⟩ points, ?_, List.suffix_refl _⟩
  rw [← next]
  exact Code.after?_mapLinked _ _

/-- Every rule keeps the frame. The marker decides which lemma applies, and each
of them comes to `Onward`: the pass goes on with the first of the lines that are
still to be visited, all of which were behind the call. -/
theorem rewriteCall (framed : Framed frame original occ (line :: rest) (line :: rest) state)
    (marks : line.Marks (Rewrite.space frame) marker)
    (ran : (Rewrite.rewriteCall frame line.place marker).run state = .ok cursor final) :
    Onward frame original rest cursor final := by
  cases marker with
  | primitive p =>
    cases p with
    | push => exact framed.push marks ran
    | pushInRef => exact framed.push marks ran
    | pushOutRef => exact framed.push marks ran
    | pop => exact framed.pop marks ran
    | unreachable => exact framed.unreachable marks ran
    | returnValue => exact framed.returnValue marks ran
    | returnRef => exact framed.returnValue marks ran
    | returnPointer => exact framed.returnValue marks ran
    | markLabel => exact framed.markLabel marks ran
    | declareLocals hasInitFlag => exact framed.declareLocals marks ran
  | emit opcode parameter => exact framed.emit marks ran
  | builder b =>
    obtain ⟨rfl, rfl⟩ := by simpa using Rewrite.body_bind_eq_ok.1 ran
    rw [framed.after?]
    exact framed.skip.onward

/-- A visit keeps the frame, whatever stands at the place: a line that calls no
marker is passed over, and one that does is rewritten by the rule for its marker. -/
theorem visit (framed : Framed frame original occ (line :: rest) (line :: rest) state)
    (ran : (Rewrite.visit frame line.place).run state = .ok cursor final) :
    Onward frame original rest cursor final := by
  obtain ⟨done, split⟩ := framed.placed.split
  have content := Code.instruction?_of_split (framed.placed.code split)
  rw [Line.place_moveTargets] at content
  obtain ⟨i, _, looking, ran⟩ := Steps.run_bind_ok.1 (Rewrite.body_bind_eq_ok.1 ran)
  obtain ⟨found, rfl⟩ := Rewrite.faultless_eq_ok.1 looking
  rw [Body.instruction_eq_ok, content] at found
  obtain rfl := Option.some.inj found
  split at ran
  · simp at ran
  · obtain ⟨rfl, rfl⟩ := by simpa using Rewrite.body_bind_eq_ok.1 ran
    rw [framed.after?]
    exact framed.skip.onward
  · next marker marks =>
    exact framed.rewriteCall (by simpa [Line.Marks] using marks) ran

/-- A whole scan keeps the frame, by induction on the visits. Each of them begins
with the first pending line, so it can be stated by what is pending. -/
theorem scan {visits : Nat} {done : Unit} (onward : Onward frame original rest cursor state)
    (ran : (Rewrite.scan frame visits cursor).run state = .ok done final) :
    ∃ occ pending, Framed frame original occ pending pending final := by
  obtain ⟨occ, pending, framed, there, -⟩ := onward
  induction visits generalizing cursor state occ pending with
  | zero =>
    cases cursor <;> obtain ⟨-, rfl⟩ := by simpa [Rewrite.scan] using ran
    all_goals exact ⟨occ, pending, framed⟩
  | succ visits ih =>
    cases pending with
    | nil =>
      subst there
      obtain ⟨-, rfl⟩ := by simpa [Rewrite.scan] using ran
      exact ⟨occ, _, framed⟩
    | cons line rest =>
      subst there
      obtain ⟨cursor, left, visiting, ran⟩ := Steps.run_bind_ok.1 ran
      obtain ⟨next, remaining, after, there, -⟩ := framed.visit visiting
      exact ih ran next remaining after there

end Framed

end InlineCil
