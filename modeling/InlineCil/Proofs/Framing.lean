import InlineCil.Proofs.Fate

/-!
# The frame of a pass

Between two visits of a pass the body is laid out by an occupancy in which every
original line has a fate, and what is still to be visited is untouched. The store
of a pass only grows: labels have places of their own, and only their
instructions wait to be linked.

`Placed` puts the layout of the body and the account of what has happened
together, and says how far the pass has come. The pending lines are the last ones
of the original code. They stand as they were, so a rule that starts at one of
them meets the original instruction with its branches moved. The arguments it
reads stand before it and are what earlier rules have left there.

Each way in which a rule changes the body has one lemma here. `removed` is for a
line that leaves, `taken` for arguments that were read, `emitted`, `labelled` and
`popped` for lines that come in. They are stated for the next pending line and
any final body, so that the rules can be put together from them.
-/

namespace InlineCil

/-- The body is laid out over the original one; the pending lines are the last
ones, and nothing has happened to them. All that has happened is accounted for.
The unread lines are the pending ones, but for the first one once its call has
read its arguments. -/
structure Placed (space : String) (original : Body) (occ : Occupancy)
    (unread pending : List Line) (b : Body) : Prop where
  lays : occ.Lays original b
  split : ∃ done, original.code.linked = done ++ pending
  untouched : ∀ line ∈ pending, occ line.place = some line
  account : ∃ takings, Account space original occ takings unread
  within : unread = pending ∨ unread = pending.tail

/-- What a pass keeps besides the code: labels are at new places, their
instructions are the only new ones that wait to be linked, and the original local
variables come first. It ensures that what comes into the code from outside is
the instruction of a label. -/
structure Stocked (original : Body) (state : Rewriting) : Prop where
  labels : ∀ label ∈ state.labels.labels, original.code.next ≤ label.place.index
  waiting : ∀ line ∈ state.body.code.detached, original.code.next ≤ line.place.index →
    line.instruction = ⟨.nop, .none⟩
  next : original.code.next ≤ state.body.code.next
  locals : ∃ added, state.body.locals = original.locals ++ added

variable {space : String} {original b left : Body} {occ : Occupancy} {line : Line}
  {unread pending rest done : List Line} {takings : List Taking}

/-- Original places were handed out before all others. A place with a later index is
outside of the original code, which is how labels are told apart. -/
theorem index_lt_of_mem {place : Place} (inside : place ∈ b.code.linked.map Line.place) :
    place.index < b.code.next := by
  obtain ⟨line, member, rfl⟩ := List.mem_map.1 inside
  exact b.code.index_lt (List.mem_append_left _ member)

namespace Placed

/-- In the beginning nothing has happened: everything is pending and unread, and
the body is laid out over itself. -/
theorem initial (space : String) (original : Body) :
    Placed space original (Occupancy.full original) original.code.linked original.code.linked
      original where
  lays := Occupancy.lays_full original
  split := ⟨[], rfl⟩
  untouched _ member := Occupancy.full_of_mem member
  account := ⟨[], .initial fun _ member => Occupancy.full_of_mem member⟩
  within := .inl rfl

/-- Debug points and local variables do not matter for the layout, so rules may
change them freely. -/
theorem congr (placed : Placed space original occ unread pending b)
    (linked : left.code.linked = b.code.linked) (clauses : left.clauses = b.clauses) :
    Placed space original occ unread pending left :=
  { placed with lays := placed.lays.congr linked clauses }

/-- A line may be passed over, whether or not its call has read something. It
stays in the code as it is, so the account of what has become of the lines before
it does not change. -/
theorem skip (placed : Placed space original occ unread (line :: rest) b) :
    Placed space original occ rest rest b where
  lays := placed.lays
  split := by
    obtain ⟨done, split⟩ := placed.split
    exact ⟨done ++ [line], by simp [split]⟩
  untouched other member := placed.untouched other (List.mem_cons_of_mem _ member)
  account := by
    obtain ⟨takings, account⟩ := placed.account
    rcases placed.within with rfl | rfl
    · exact ⟨takings, account.skip⟩
    · exact ⟨takings, account⟩
  within := .inl rfl

theorem standing_pending (placed : Placed space original occ unread pending b) :
    occ.standing pending = pending :=
  (List.filterMap_congr fun line member => placed.untouched line member).trans
    List.filterMap_some

/-- What stands ends with the pending lines. Before them stands what the visits
so far have left of the lines that are done. -/
theorem parts (placed : Placed space original occ unread pending b)
    (split : original.code.linked = done ++ pending) :
    occ.standing original.code.linked = occ.standing done ++ pending := by
  rw [split, Occupancy.standing_append, placed.standing_pending]

theorem own (placed : Placed space original occ unread pending b) (member : line ∈ pending) :
    occ.Own original.code.linked line.place := by
  obtain ⟨done, split⟩ := placed.split
  have linked : line ∈ original.code.linked := split ▸ List.mem_append_right _ member
  exact ⟨List.mem_map_of_mem linked, by simp [placed.untouched line member]⟩

/-- The code at a pending line: what stands before it, the line, and the pending
lines after it, all with their branches moved. A rule that looks around from its
call sees this code. -/
theorem code (placed : Placed space original occ unread (line :: rest) b)
    (split : original.code.linked = done ++ line :: rest) :
    b.code.linked =
      (occ.standing done).map (Line.moveTargets (occ.start original.code.linked)) ++
        line.moveTargets (occ.start original.code.linked) ::
          rest.map (Line.moveTargets (occ.start original.code.linked)) :=
  placed.lays.split (placed.parts split)

theorem mem_original (placed : Placed space original occ unread pending b) (member : line ∈ pending) :
    line ∈ original.code.linked := by
  obtain ⟨done, split⟩ := placed.split
  exact split ▸ List.mem_append_right _ member

/-- The pending lines after a line are at other places, so that changes at the
line leave them alone. -/
theorem place_ne (placed : Placed space original occ unread (line :: rest) b) {other : Line}
    (member : other ∈ rest) : other.place ≠ line.place := by
  obtain ⟨done, split⟩ := placed.split
  exact Line.isAt_eq_false.1 ((Code.apart split).2 other member)

theorem stays (placed : Placed space original occ unread pending b) {now : Line}
    (member : line ∈ original.code.linked) (found : occ line.place = some now) :
    ∃ takings, Stays space original occ takings line now := by
  obtain ⟨takings, account⟩ := placed.account
  exact ⟨takings, (account.fates line member).stays found⟩

/-- The next line leaves. The reason it needs may not depend on what has been
read, since calls and throws leave for what they are. -/
theorem removed (placed : Placed space original occ unread (line :: rest) b) {i : Instruction}
    (leaves : ∀ takings, Leaves space original takings line)
    (removed : b.remove line.place = .ok (i, left)) :
    Placed space original (occ.vacate [line.place]) rest rest left := by
  obtain ⟨done, split⟩ := placed.split
  obtain ⟨takings, account⟩ := placed.skip.account
  have linked : line ∈ original.code.linked := placed.mem_original (by simp)
  refine ⟨placed.lays.removed (placed.parts split) (placed.own (by simp)) removed,
    placed.skip.split, ?_, ⟨takings, account.vacate ?_⟩, .inl rfl⟩
  · intro other member
    rw [Occupancy.vacate_of_not_mem (by simpa using placed.place_ne member)]
    exact placed.skip.untouched other member
  · intro other member gone
    obtain rfl := Code.eq_of_place member linked (by simpa using gone)
    exact leaves takings

/-- A line at an original place that stands among the lines passed over is one of
the original lines passed over, and stands in its own position. Labels are
excluded by the place. -/
theorem standing_before (placed : Placed space original occ unread pending b)
    (split : original.code.linked = done ++ pending) (stands : line ∈ occ.standing done)
    (inside : line.place ∈ original.code.linked.map Line.place) :
    occ line.place = some line ∧ ∃ before origin between, done = before ++ origin :: between ∧
      origin.place = line.place := by
  obtain ⟨origin, member, found⟩ := List.mem_filterMap.1 stands
  have linked : origin ∈ original.code.linked := split ▸ List.mem_append_left _ member
  have same := placed.lays.settled.self linked found inside
  obtain ⟨before, between, parts⟩ := List.mem_iff_append.1 member
  exact ⟨same ▸ found, before, origin, between, parts, same.symm⟩

/-- What stands between a line and the pending ones is what stands after it. If
nothing does, the original code between them is vacant. -/
theorem standing_between (placed : Placed space original occ unread pending b)
    (split : original.code.linked = done ++ pending) {front rear before between : List Line}
    {origin : Line} (parts : done = before ++ origin :: between)
    (found : occ origin.place = some line) (stands : occ.standing done = front ++ line :: rear) :
    occ.standing between = rear := by
  have distinct := placed.lays.distinct
  rw [split, Occupancy.standing_append, List.map_append, List.nodup_append] at distinct
  have other := distinct.1
  rw [stands] at other
  obtain ⟨earlier, later⟩ := apart_of_nodup other
  have notBefore : line ∉ front := fun member => by simpa using earlier line member
  have notAfter : line ∉ rear := fun member => by simpa using later line member
  have again : front ++ line :: rear = occ.standing before ++ line :: occ.standing between := by
    rw [← stands, parts, Occupancy.standing_append]
    simp [Occupancy.standing, found]
  exact ((List.append_cons_inj_of_notMem notBefore notAfter).1 again).2.2.symm

/-- What stood as a part of an argument was read as the original line or as what an
emitting call stands for: no store and no label is a part of an argument. -/
theorem readAs_of_stays {origin now : Line} (move : Place → Place)
    (stays : Stays space original occ takings origin now)
    (inside : now.place ∈ original.code.linked.map Line.place)
    (part : (now.instruction.moveTargets move).IsPart space) :
    ReadAs space origin (now.moveTargets move) := by
  cases stays with
  | kept same => exact .kept move (by rw [same])
  | emitted marks here => exact .emitted marks here
  | stored _ _ _ _ _ _ _ stores same =>
    have argumental := part.isArgumental
    rw [Instruction.opcode_moveTargets, same, isArgumental_of_storeFor? stores] at argumental
    cases argumental
  | labelled _ fresh _ => exact absurd (index_lt_of_mem inside) (by omega)

/-- Lines that stand last before an unread call and that its marker reads
together are a taking that fits what has been read so far. The original lines
from the first of them on are the stretch: those that do not stand any more have
gone for calls before this one.

Each line that was read is traced to the original line of its position. Two lines
have different origins, and they come in the original order, because the
occupancy is settled. -/
theorem fits_of_run {call : Line} {still run : List Line} {marker : Marker} (move : Place → Place)
    (placed : Placed space original occ unread pending b)
    (account : Account space original occ takings (call :: rest))
    (split : original.code.linked = done ++ call :: rest) (marks : call.Marks space marker)
    (stands : occ.standing done = still ++ run)
    (together : ∀ line ∈ run, (Blocks.ofBody original).sameBlock line.place call.place = true)
    (reads : marker.Reads space ((run.map (Line.moveTargets move)).map Line.instruction)) :
    ∃ stretch, Taking.Fits ⟨call, marker, stretch, run.map (Line.moveTargets move)⟩ space original
      takings := by
  obtain ⟨before, stretch, rfl, -, rear⟩ := List.filterMap_eq_append_iff.1 stands
  have places : (run.map (Line.moveTargets move)).map Line.place = run.map Line.place := by
    simp [Function.comp_def]
  have linked : ∀ line ∈ stretch, line ∈ original.code.linked := fun line member => by
    rw [split]
    simp [member]
  have inside : ∀ now ∈ run, now.place ∈ original.code.linked.map Line.place :=
    fun now member => Blocks.mem_of_sameBlock (together now member)
  have origin : ∀ now ∈ run, ∃ line ∈ stretch, occ line.place = some now := fun now member =>
    List.mem_filterMap.1 (rear.symm ▸ member)
  have own : ∀ now ∈ run, occ now.place = some now := fun now member => by
    obtain ⟨line, among, found⟩ := origin now member
    rw [placed.lays.settled.self (linked line among) found (inside now member), found]
  refine ⟨stretch, marks, reads, ⟨before, rest, split, ?_⟩, ?_, ?_, ?_, ?_, ?_⟩
  · obtain ⟨earlier, parts, calls⟩ := account.behind
    rw [List.append_cancel_right (split.symm.trans parts)]
    exact calls
  · intro line member
    obtain ⟨now, among, rfl⟩ := List.mem_map.1 member
    exact together now among
  · have order := placed.lays.settled.sublist linked
    have whole : ((occ.standing stretch).map Line.place).filter
        (· ∈ original.code.linked.map Line.place) = run.map Line.place := by
      rw [Occupancy.standing, rear, List.filter_eq_self]
      intro place member
      obtain ⟨now, among, rfl⟩ := List.mem_map.1 member
      exact decide_eq_true (inside now among)
    rwa [whole, ← places] at order
  · intro line member
    obtain ⟨now, among, rfl⟩ := List.mem_map.1 member
    obtain ⟨line, position, found⟩ := origin now among
    refine ⟨line, position, readAs_of_stays move ((account.fates line (linked line position)).stays
      found) (inside now among) (reads.argumental _ ?_)⟩
    exact List.mem_map_of_mem (f := Line.instruction) (List.mem_map_of_mem among)
  · intro line member away
    refine (account.fates line (linked line member)).leaves ?_
    cases found : occ line.place with
    | none => rfl
    | some now =>
      have among : now ∈ run := rear ▸ List.mem_filterMap.2 ⟨line, member, found⟩
      have same := placed.lays.settled.self (linked line member) found (inside now among)
      exact absurd (places.symm ▸ same ▸ List.mem_map_of_mem among) away
  · intro other taken line member part
    obtain ⟨now, among, rfl⟩ := List.mem_map.1 member
    obtain ⟨gone, read, same⟩ := List.mem_map.1 part
    have vacant := account.vacant other taken gone read
    rw [same, Line.place_moveTargets, own now among] at vacant
    cases vacant

/-- Arguments are taken from before the next line, which calls the marker that
reads them. The call stays the next line, with its arguments read. -/
theorem taken {call : Line} {kept lines : List Line} {marker : Marker}
    (placed : Placed space original occ (call :: rest) (call :: rest) b)
    (split : original.code.linked = done ++ call :: rest) (marks : call.Marks space marker)
    (parts : (occ.standing done).map (Line.moveTargets (occ.start original.code.linked)) =
      kept ++ lines)
    (together : ∀ line ∈ lines,
      (Blocks.ofBody original).sameBlock line.place call.place = true)
    (reads : marker.Reads space (lines.map Line.instruction))
    (took : Rewrite.TakenFrom b kept lines (call.moveTargets (occ.start original.code.linked))
      (rest.map (Line.moveTargets (occ.start original.code.linked))) left) :
    Placed space original (occ.vacate (lines.map Line.place)) rest (call :: rest) left := by
  obtain ⟨still, run, stands, rfl, rfl⟩ := List.map_eq_append_iff.1 parts
  have places : (run.map (Line.moveTargets (occ.start original.code.linked))).map Line.place =
      run.map Line.place := by simp [Function.comp_def]
  have near : ∀ line ∈ run, (Blocks.ofBody original).sameBlock line.place call.place = true :=
    fun line member => together (line.moveTargets _) (List.mem_map_of_mem member)
  have inside : ∀ line ∈ run, line.place ∈ original.code.linked.map Line.place :=
    fun line member => Blocks.mem_of_sameBlock (near line member)
  have whole : occ.standing original.code.linked = still ++ run ++ call :: rest := by
    rw [placed.parts split, stands]
  have own : ∀ place ∈ run.map Line.place, occ.Own original.code.linked place := by
    intro place member
    obtain ⟨line, among, rfl⟩ := List.mem_map.1 member
    have standing : line ∈ occ.standing done := by
      rw [stands]
      exact List.mem_append_right _ among
    exact ⟨inside line among, by simp [(placed.standing_before split standing
      (inside line among)).1]⟩
  obtain ⟨takings, account⟩ := placed.account
  obtain ⟨stretch, fits⟩ := placed.fits_of_run _ account split marks stands near reads
  refine ⟨?_, placed.split, ?_, ⟨_, account.read fits rfl⟩, .inr rfl⟩
  · rw [places]
    exact placed.lays.taken whole own took
  · -- The pending lines stand after the run, so they are not in it.
    intro line member
    have distinct := placed.lays.distinct
    rw [whole] at distinct
    rw [places, Occupancy.vacate_of_not_mem (Occupancy.not_mem_run distinct (.inr member))]
    exact placed.untouched line member

/-- The next line, an emitting call, is overwritten with what it stands for,
which goes to labels only. Its branches name new places, so the layout leaves
them where they are. -/
theorem emitted {call : Line} {i : Instruction} {opcode : Opcode} {parameter : EmitParameter}
    (placed : Placed space original occ unread (call :: rest) b)
    (marks : call.Marks space (.emit opcode parameter))
    (fresh : ∀ place ∈ i.targets, original.code.next ≤ place.index) :
    Placed space original (occ.put call.place ⟨call.place, i⟩) rest rest
      { b with code := b.code.overwrite call.place i } := by
  obtain ⟨done, split⟩ := placed.split
  have linked : call ∈ original.code.linked := placed.mem_original (by simp)
  have still : i.moveTargets (occ.start original.code.linked) = i :=
    Instruction.moveTargets_of_targets _ fun place member =>
      Occupancy.start_of_not_mem fun inside =>
        absurd (index_lt_of_mem inside) (by have := fresh place member; omega)
  have lays := placed.lays.overwritten (i := i) (placed.parts split) (placed.own (by simp))
  rw [still] at lays
  obtain ⟨takings, account⟩ := placed.skip.account
  refine ⟨lays, placed.skip.split, ?_,
    ⟨takings, account.put (placed.untouched call (by simp)) ?_⟩, .inl rfl⟩
  · intro other member
    rw [Occupancy.put_of_ne (placed.place_ne member)]
    exact placed.skip.untouched other member
  · intro other member here
    obtain rfl := Code.eq_of_place member linked here
    exact .emitted marks rfl

/-- The next line, a call that marks a label, gives its position to the
instruction of the label. References to the call go to the label then, and the
pass goes on after it. -/
theorem labelled {call new : Line} {result : Instruction × Body}
    (placed : Placed space original occ unread (call :: rest) b)
    (marks : call.Marks space (.primitive .markLabel)) (waiting : new ∈ b.code.detached)
    (fresh : original.code.next ≤ new.place.index) (nop : new.instruction = ⟨.nop, .none⟩)
    (replaced : b.replaceWith call.place new.place = .ok result) :
    Placed space original (occ.put call.place new) rest rest result.2 ∧
      result.2.code.after? new.place = rest.head?.map Line.place := by
  obtain ⟨done, split⟩ := placed.split
  have linked : call ∈ original.code.linked := placed.mem_original (by simp)
  have outside : new.place ∉ original.code.linked.map Line.place := fun inside =>
    absurd (index_lt_of_mem inside) (by omega)
  obtain ⟨i, left, run, sheds⟩ := Body.replaceWith_of_split (placed.code split) waiting
  rw [Line.place_moveTargets, replaced] at run
  obtain rfl := Except.ok.inj run
  have targets : new.instruction.targets = [] := by rw [nop]; rfl
  have lays := placed.lays.replaced (placed.parts split) (placed.own (by simp)) outside targets
    sheds
  have after := Code.after?_of_split
    (lays.split (placed.lays.standing_put_of_split (placed.parts split) (placed.own (by simp))))
  rw [Line.place_moveTargets, List.head?_map, Option.map_map] at after
  obtain ⟨takings, account⟩ := placed.skip.account
  refine ⟨⟨lays, placed.skip.split, ?_,
    ⟨takings, account.put (placed.untouched call (by simp)) ?_⟩, .inl rfl⟩, after⟩
  · intro other member
    rw [Occupancy.put_of_ne (placed.place_ne member)]
    exact placed.skip.untouched other member
  · intro other member here
    obtain rfl := Code.eq_of_place member linked here
    exact .labelled marks fresh nop

/-- What stands right before a popping call may become a store: the load of an
address in the original code, or what an emitting call stands for. A label has no
operand to store to, and a store is no load of an address. -/
theorem stays_of_pop {next : Occupancy} {origin pop : Line} {store : Opcode}
    {before between after : List Line} (stays : Stays space original occ takings origin line)
    (split : original.code.linked = before ++ origin :: between ++ pop :: after)
    (marks : pop.Marks space (.primitive .pop))
    (together : (Blocks.ofBody original).sameBlock line.place pop.place = true)
    (vacant : next.Vacant (between ++ [pop]))
    (behind : ∀ taking ∈ takings, taking.call ∈ before ++ origin :: between)
    (spent : ∀ other ∈ between, Leaves space original takings other)
    (stores : Rewrite.storeFor? line.instruction.opcode = some store) :
    Stays space original next takings origin
      ⟨line.place, ⟨store, line.instruction.operand⟩⟩ := by
  cases stays with
  | kept same =>
    subst same
    exact .stored split marks together vacant (List.suffix_refl _) behind spent stores rfl
  | emitted marks here => exact .emitted marks here
  | stored _ _ _ _ _ _ _ earlier same =>
    -- A store is not made into another one.
    subst same
    simp [storeFor?_of_storeFor? earlier] at stores
  | labelled _ fresh _ =>
    exact absurd (index_lt_of_mem (Blocks.mem_of_sameBlock together)) (by omega)

/-- The place before the next line is that of the last line that stands before
it. What is read there is its instruction with the branches moved. -/
theorem line_before {call : Line} {address : Place} {loading : Instruction}
    (placed : Placed space original occ unread (call :: rest) b)
    (split : original.code.linked = done ++ call :: rest)
    (before : b.code.before? call.place = some address)
    (loads : b.code.instruction? address = some loading) :
    ∃ front line, occ.standing done = front ++ [line] ∧ line.place = address ∧
      loading = line.instruction.moveTargets (occ.start original.code.linked) := by
  have code := placed.code split
  have nearest := Code.before?_of_split code
  rw [Line.place_moveTargets, before, List.getLast?_map] at nearest
  rcases List.eq_nil_or_concat' (occ.standing done) with nothing | ⟨front, line, stands⟩
  · simp [nothing] at nearest
  obtain rfl : line.place = address := by simpa [stands] using nearest.symm
  refine ⟨front, line, stands, rfl, ?_⟩
  have parts : occ.standing original.code.linked = front ++ line :: call :: rest := by
    rw [placed.parts split, stands, List.append_assoc, List.singleton_append]
  have content := Code.instruction?_of_split (placed.lays.split parts)
  rw [Line.place_moveTargets, loads] at content
  exact Option.some.inj content

/-- The line right before the next one, which pops into its address, becomes a
store, and the call leaves. The store keeps the place of the load, so no
reference moves but those to the call. -/
theorem popped {call : Line} {address : Place} {loading i : Instruction} {store : Opcode}
    (placed : Placed space original occ (call :: rest) (call :: rest) b)
    (marks : call.Marks space (.primitive .pop))
    (before : b.code.before? call.place = some address)
    (together : (Blocks.ofBody original).sameBlock address call.place = true)
    (loads : b.code.instruction? address = some loading)
    (stores : Rewrite.storeFor? loading.opcode = some store)
    (removed : { b with code := b.code.overwrite address ⟨store, loading.operand⟩ : Body }.remove
      call.place = .ok (i, left)) :
    ∃ next : Occupancy, Placed space original next rest rest left := by
  obtain ⟨done, split⟩ := placed.split
  have inside := Blocks.mem_of_sameBlock together
  obtain ⟨front, line, stands, rfl, rfl⟩ := placed.line_before split before loads
  have parts : occ.standing original.code.linked = front ++ line :: call :: rest := by
    rw [placed.parts split, stands, List.append_assoc, List.singleton_append]
  obtain ⟨found, early, origin, between, place, same⟩ :=
    placed.standing_before split (by simp [stands]) inside
  have linked : origin ∈ original.code.linked := by
    rw [split, place]
    simp
  obtain ⟨takings, account⟩ := placed.account
  have stays := (account.fates origin linked).stays (same ▸ found)
  have nothing : occ.Vacant between := fun other among =>
    List.filterMap_eq_nil_iff.1 (placed.standing_between split place (same ▸ found) stands) other
      among
  have own : occ.Own original.code.linked line.place := ⟨inside, by simp [found]⟩
  have distinct := placed.lays.distinct
  rw [parts] at distinct
  have apart {other : Line} (among : other ∈ call :: rest) : other.place ≠ line.place :=
    Line.isAt_eq_false.1 ((apart_of_nodup distinct).2 other among)
  -- First the store comes in, then the call leaves.
  have lays := placed.lays.overwritten (i := ⟨store, line.instruction.operand⟩) parts own
  have callOwn : (occ.put line.place ⟨line.place, ⟨store, line.instruction.operand⟩⟩).Own
      original.code.linked call.place := by
    refine ⟨(placed.own (by simp)).1, ?_⟩
    rw [Occupancy.put_of_ne (apart List.mem_cons_self), placed.untouched call (by simp)]
    rfl
  have after : (occ.put line.place ⟨line.place, ⟨store, line.instruction.operand⟩⟩).standing
      original.code.linked =
        front ++ [⟨line.place, ⟨store, line.instruction.operand⟩⟩] ++ call :: rest := by
    rw [placed.lays.standing_put_of_split parts own, List.append_assoc, List.singleton_append]
  have final := lays.removed after callOwn removed
  refine ⟨_, final, placed.skip.split, ?_,
    ⟨takings, account.skip.put_vacate (placed.mem_original List.mem_cons_self) marks found ?_⟩,
    .inl rfl⟩
  · intro other among
    rw [Occupancy.vacate_of_not_mem (by simpa using placed.place_ne among),
      Occupancy.put_of_ne (apart (List.mem_cons_of_mem _ among))]
    exact placed.skip.untouched other among
  · intro other member here
    obtain rfl := Code.eq_of_place member linked (here.trans same.symm)
    refine stays_of_pop stays (by rw [split, place]) marks together ?_ ?_ ?_ stores
    · intro another among
      rcases List.mem_append.1 among with among | among
      · exact Occupancy.shrinks_vacate _ _ _ (Occupancy.shrinks_put found _
          (nothing another among))
      · obtain rfl := List.mem_singleton.1 among
        exact Occupancy.vacate_of_mem (by simp)
    · obtain ⟨earlier, divided, calls⟩ := account.behind
      rw [← place, List.append_cancel_right (split.symm.trans divided)]
      exact calls
    · intro another among
      have inOriginal : another ∈ original.code.linked := by
        rw [split, place]
        simp [among]
      exact (account.fates another inOriginal).leaves (nothing another among)

end Placed

end InlineCil
