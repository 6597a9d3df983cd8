import InlineCil.Proofs.Framing.Whole
import InlineCil.Proofs.Integrity.Rules

/-!
# What may be named before a call

Blocks are computed once, on the body as it was. While there are lines to visit,
every reference goes to a label or to the first line of its block that is still
there: references move to the next line that is left, and no block reaches across
a place that was named. So when the lines before a call are taken one after the
other, all in its block, only the first of what is left of the site can be named.

`Led` is the invariant. It is not kept step by step from visit to visit but read
off the frame of the pass, which says where every original reference rests now.
That the place where it rests leads its block follows from the order of blocks in
the original code.

Inside a visit the frame does not hold at every moment, so taking arguments is
followed on its own, with `Blocks.Leads` as a statement about lists of places. A
reading is cut at any point between two lines it takes, and what is named then is
the first line that is left of the site, if anything of it is.
-/

namespace InlineCil

namespace Blocks

variable {blocks : Blocks} {places before rest : List Place} {place other : Place}

/-- The place is the first one of its block. -/
def Leads (blocks : Blocks) (places : List Place) (place : Place) : Prop :=
  places.find? (blocks.sameBlock · place) = some place

/-- A place leads its block if nothing before it is in the block. -/
theorem leads_of_split (self : blocks.sameBlock place place = true)
    (apart : ∀ other ∈ before, blocks.sameBlock other place = false) :
    blocks.Leads (before ++ place :: rest) place := by
  have absent : before.find? (blocks.sameBlock · place) = none :=
    List.find?_eq_none.2 fun other among => by simp [apart other among]
  simp [Leads, absent, self]

/-- Nothing of the block comes before its first place. So a place that leads its
block is met no later than any other of the block. -/
theorem Leads.mem_of_sameBlock (leads : blocks.Leads (before ++ other :: rest) place)
    (together : blocks.sameBlock other place = true) : place ∈ before ++ [other] := by
  have here : (other :: rest).find? (blocks.sameBlock · place) = some other :=
    List.find?_cons_of_pos together
  unfold Leads at leads
  rw [List.find?_append, here] at leads
  rcases Option.or_eq_some_iff.1 leads with found | ⟨-, found⟩
  · exact List.mem_append_left _ (List.mem_of_find?_eq_some found)
  · simp [Option.some.inj found]

/-- When other places leave, the first one of a block stays the first one.
Nothing is said of a place that leaves itself. -/
theorem Leads.without {run : List Place} (leads : blocks.Leads (before ++ run ++ rest) place)
    (stays : place ∉ run) : blocks.Leads (before ++ rest) place := by
  have absent : run.find? (blocks.sameBlock · place) = some place → False := fun found =>
    stays (List.mem_of_find?_eq_some found)
  unfold Leads at leads ⊢
  rw [List.find?_append, List.find?_append, Option.or_assoc] at leads
  rw [List.find?_append]
  rcases Option.or_eq_some_iff.1 leads with found | ⟨nothing, leads⟩
  · simp [found]
  · rcases Option.or_eq_some_iff.1 leads with found | ⟨-, found⟩
    · exact (absent found).elim
    · simp [nothing, found]

/-- When the first place of a block leaves with all that is before a place of its
block, that one is the first. -/
theorem Leads.next {run : List Place} (leads : blocks.Leads (before ++ run ++ other :: rest) place)
    (elsewhere : place ∉ before) (together : blocks.sameBlock place other = true) :
    blocks.Leads (before ++ other :: rest) other := by
  refine leads_of_split (sameBlock_trans (sameBlock_comm together) together) fun earlier among => ?_
  refine Bool.eq_false_iff.2 fun near => elsewhere ?_
  obtain ⟨front, rear, rfl⟩ := List.mem_iff_append.1 among
  have found := sameBlock_trans near (sameBlock_comm together)
  rw [List.append_assoc, List.append_assoc, List.cons_append] at leads
  have early := leads.mem_of_sameBlock found
  simp only [List.mem_append, List.mem_cons, List.not_mem_nil, or_false] at early ⊢
  tauto

end Blocks

/-- Labels are in no block, and everything that is named is a label or the first
line of its block that is still there. -/
structure Led (blocks : Blocks) (labels : LabelTable) (b : Body) : Prop where
  unblocked : ∀ label ∈ labels.labels, blocks.block? label.place = none
  named : ∀ place ∈ Blocks.namedPlaces b,
    (∃ label ∈ labels.labels, label.place = place) ∨ blocks.Leads b.code.places place

variable {fair : Prop} {frame : Frame} {original b left : Body} {occ : Occupancy} {line : Line}
  {unread pending rest before after : List Line} {state : Rewriting}

namespace Led

variable {blocks : Blocks} {labels : LabelTable}

/-- A line is not named while another one of its block comes before it. What is
named is a label, which is in no block, or leads its own. -/
theorem not_named (led : Led blocks labels b) {head : Line}
    (split : b.code.linked = before ++ head :: after) (member : line ∈ after)
    (together : blocks.sameBlock head.place line.place = true) :
    line.place ∉ Blocks.namedPlaces b := by
  intro named
  rcases led.named line.place named with ⟨label, known, same⟩ | leads
  · obtain ⟨n, -, found⟩ := Blocks.sameBlock_iff.1 together
    rw [← same, led.unblocked label known] at found
    simp at found
  · rw [Code.places, split, List.map_append, List.map_cons] at leads
    have early := leads.mem_of_sameBlock together
    have distinct := b.code.nodup_linked
    rw [split, List.map_append, List.map_cons, List.nodup_append, List.nodup_cons] at distinct
    obtain ⟨-, ⟨fresh, -⟩, differ⟩ := distinct
    have later : line.place ∈ after.map Line.place := List.mem_map_of_mem member
    rcases List.mem_append.1 early with early | here
    · exact differ _ early _ (List.mem_cons_of_mem _ later) rfl
    · exact fresh (List.mem_singleton.1 here ▸ later)

theorem congr (led : Led blocks labels b)
    (names : ∀ place ∈ Blocks.namedPlaces left, place ∈ Blocks.namedPlaces b)
    (places : left.code.places = b.code.places) : Led blocks labels left where
  unblocked := led.unblocked
  named place named := places ▸ led.named place (names place named)

/-- An instruction may give way to one that goes to the same places. The lines of
the block are the same, and so is what is named. -/
theorem overwritten (led : Led blocks labels b)
    (split : b.code.linked = before ++ line :: after) {i : Instruction}
    (same : i.targets = line.instruction.targets) :
    Led blocks labels { b with code := b.code.overwrite line.place i } := by
  have linked := Code.linked_overwrite split i
  refine led.congr (fun place named => ?_) ?_
  · rw [Blocks.mem_namedPlaces] at named ⊢
    refine named.imp_left fun ⟨other, among, goes⟩ => ?_
    dsimp only at among
    rw [linked] at among
    rw [split]
    simp only [List.mem_append, List.mem_cons] at among ⊢
    rcases among with among | rfl | among
    · exact ⟨other, .inl among, goes⟩
    · exact ⟨line, .inr (.inl rfl), same ▸ goes⟩
    · exact ⟨other, .inr (.inr among), goes⟩
  · exact b.code.places_overwrite line.place i

/-- What leaves right before a call and in its block may have been named; then
the call is, and it is the first of its block now. -/
theorem taken (led : Led blocks labels b) {kept run : List Line} {call : Line}
    (split : b.code.linked = kept ++ run ++ call :: after)
    (together : ∀ line ∈ run, blocks.sameBlock line.place call.place = true)
    (took : Rewrite.TakenFrom b kept run call after left) : Led blocks labels left where
  unblocked := led.unblocked
  named place named := by
    obtain ⟨origin, earlier, rfl⟩ : ∃ origin ∈ Blocks.namedPlaces b,
        place = gather (run.map Line.place) call.place origin := by
      simp only [Blocks.mem_namedPlaces, took.linked, took.clauses, List.mem_map] at named
      rcases named with ⟨_, ⟨line, among, rfl⟩, goes⟩ | ⟨_, ⟨clause, held, rfl⟩, border⟩
      · rw [Line.instruction_moveTargets, Instruction.targets_moveTargets] at goes
        obtain ⟨target, went, rfl⟩ := List.mem_map.1 goes
        refine ⟨target, Blocks.mem_namedPlaces.2 (.inl ⟨line, ?_, went⟩), rfl⟩
        rw [split]
        simp only [List.mem_append] at among ⊢
        tauto
      · obtain ⟨origin, named, moves⟩ := Clause.mem_borders_moveBorders border
        exact ⟨origin, Blocks.mem_namedPlaces.2 (.inr ⟨clause, held, named⟩),
          moves.elim id fun same => (Option.some.inj same).symm⟩
    have places : left.code.places = kept.map Line.place ++ call.place :: after.map Line.place := by
      rw [took.places]
      simp
    have whole : b.code.places =
        kept.map Line.place ++ run.map Line.place ++ call.place :: after.map Line.place := by
      rw [Code.places, split]
      simp
    have distinct := b.code.nodup_linked
    rw [split, List.map_append, List.map_append, List.nodup_append, List.nodup_append] at distinct
    obtain ⟨⟨-, -, differ⟩, -⟩ := distinct
    by_cases leaves : origin ∈ run.map Line.place
    · obtain ⟨line, among, rfl⟩ := List.mem_map.1 leaves
      have near := together line among
      rw [gather, if_pos leaves, places]
      rcases led.named _ earlier with ⟨label, known, same⟩ | leads
      · obtain ⟨n, found, -⟩ := Blocks.sameBlock_iff.1 near
        rw [← same, led.unblocked label known] at found
        simp at found
      · exact .inr ((whole ▸ leads).next (fun early => differ _ early _ leaves rfl) near)
    · rw [gather, if_neg leaves, places]
      exact (led.named _ earlier).imp_right fun leads => (whole ▸ leads).without leaves

end Led

namespace Framed

/-- A new place that was handed out is that of a label, as nothing else gets a
new place. -/
theorem label_of_fresh (intact : Intact fair original state) {place : Place}
    (fresh : original.code.next ≤ place.index)
    (reached : place ∈ state.body.code.places ∨ state.labels.Used place) :
    ∃ label ∈ state.labels.labels, label.place = place := by
  rcases reached with linked | ⟨label, known, same, -⟩
  · obtain ⟨line, member, rfl⟩ := List.mem_map.1 linked
    exact intact.tied.known _ fresh (state.body.code.index_lt (List.mem_append_left _ member))
  · exact ⟨label, known, same⟩

/-- While a line is pending, something stands at or after every original place.
What stands there first is a label or, if the place was named, the first of its
block. -/
theorem resting_of_named (framed : Framed frame original occ unread (line :: rest) state)
    (intact : Intact fair original state) {place : Place}
    (named : place ∈ Blocks.namedPlaces original) (inside : place ∈ original.code.places) :
    ∃ found, occ.resting original.code.linked place = some found ∧
      ((∃ label ∈ state.labels.labels, label.place = found) ∨
        frame.blocks.Leads state.body.code.places found) := by
  obtain ⟨before, origin, after, rfl, split⟩ := Occupancy.split_of_mem inside
  -- A pending line is at or after the place, and it still stands.
  obtain ⟨standing, late, stands⟩ : ∃ standing ∈ origin :: after,
      occ standing.place = some standing := by
    obtain ⟨done, parts⟩ := framed.placed.split
    rcases List.append_eq_append_iff.1 (parts.symm.trans split) with
      ⟨between, -, ends⟩ | ⟨between, -, ends⟩
    · exact ⟨origin, List.mem_cons_self, framed.placed.untouched origin (by simp [ends])⟩
    · exact ⟨line, by simp [ends], framed.placed.untouched line List.mem_cons_self⟩
  have among : standing ∈ occ.standing (origin :: after) :=
    List.mem_filterMap.2 ⟨standing, late, stands⟩
  obtain ⟨now, more, stretch⟩ := List.exists_cons_of_ne_nil (List.ne_nil_of_mem among)
  refine ⟨now.place, ?_, ?_⟩
  · rw [Occupancy.resting_of_split original.code.nodup_linked split, stretch]
    rfl
  have first : now ∈ occ.standing (origin :: after) := stretch ▸ List.mem_cons_self
  obtain ⟨position, among, found⟩ := List.mem_filterMap.1 first
  have linked : position ∈ original.code.linked := split ▸ List.mem_append_right _ among
  have whole : state.body.code.places =
      (occ.standing before).map Line.place ++ now.place :: more.map Line.place := by
    rw [Code.places, framed.placed.lays.linked, split, Occupancy.standing_append, stretch]
    simp [Function.comp_def]
  by_cases own : now.place ∈ original.code.places
  · refine .inr ?_
    have same := framed.placed.lays.settled.self linked found own
    rw [whole, framed.blocks]
    refine Blocks.leads_of_split (Blocks.sameBlock_self own) fun other earlier => ?_
    refine Bool.eq_false_iff.2 fun together => ?_
    obtain ⟨former, stood, rfl⟩ := List.mem_map.1 earlier
    obtain ⟨source, sourceAmong, sourceFound⟩ := List.mem_filterMap.1 stood
    have sourceSame := framed.placed.lays.settled.self
      (split ▸ List.mem_append_left _ sourceAmong) sourceFound (Blocks.mem_of_sameBlock together)
    rw [same, sourceSame, Blocks.apart_of_named split named sourceAmong among] at together
    simp at together
  · refine .inl (label_of_fresh intact ?_ (.inl (whole ▸ by simp)))
    have away : now.place ≠ position.place := fun same => own (same ▸ List.mem_map_of_mem linked)
    obtain ⟨takings, stays⟩ := framed.placed.stays linked found
    cases stays with
    | kept same => exact absurd (congrArg Line.place same) away
    | emitted marks here => exact absurd here away
    | stored split marks together vacant history behind spent stores same =>
      exact absurd (congrArg Line.place same) away
    | labelled marks fresh nop => exact fresh

/-- Between two visits everything that is named is a label or the first line of
its block. In the original code branches go to first lines of blocks; what has
moved since came to rest on a line that is first now. -/
theorem led (framed : Framed frame original occ unread (line :: rest) state)
    (intact : Intact fair original state) (live : original.Live) :
    Led frame.blocks state.labels state.body where
  unblocked label known := by
    have fresh := framed.stocked.labels label known
    cases found : frame.blocks.block? label.place with
    | none => rfl
    | some n =>
      rw [framed.blocks] at found
      have inside := Blocks.mem_of_sameBlock (Blocks.sameBlock_iff.2 ⟨n, found, found⟩)
      exact absurd (index_lt_of_mem inside) (by omega)
  named place named := by
    have moved {origin : Place} (names : origin ∈ Blocks.namedPlaces original)
        (inside : origin ∈ original.code.places)
        (moves : place = occ.start original.code.linked origin ∨
          occ.stop original.code.linked origin = some place) :
        (∃ label ∈ state.labels.labels, label.place = place) ∨
          frame.blocks.Leads state.body.code.places place := by
      obtain ⟨found, rests, anchored⟩ := framed.resting_of_named intact names inside
      rw [Occupancy.start_of_resting rests, Occupancy.stop_of_resting rests] at moves
      have there : place = found := moves.elim id fun same => (Option.some.inj same).symm
      exact there ▸ anchored
    rcases Blocks.mem_namedPlaces.1 named with ⟨other, linked, goes⟩ | ⟨clause, held, border⟩
    · have source := linked
      rw [framed.placed.lays.linked] at source
      obtain ⟨now, stands, rfl⟩ := List.mem_map.1 source
      obtain ⟨origin, member, found⟩ := List.mem_filterMap.1 stands
      have moves := goes
      rw [Line.instruction_moveTargets, Instruction.targets_moveTargets] at moves
      obtain ⟨target, went, rfl⟩ := List.mem_map.1 moves
      -- Unless it was emitted, it goes where the original line went.
      have original (same : now.instruction.targets = origin.instruction.targets) :=
        moved (Blocks.mem_namedPlaces.2 (.inl ⟨origin, member, same ▸ went⟩))
          (live.targets origin member target (same ▸ went)) (.inl rfl)
      obtain ⟨takings, stays⟩ := framed.placed.stays member found
      cases stays with
      | kept same => exact original (by rw [same])
      | stored split marks together vacant history behind spent stores same =>
        exact original (by rw [same]; rfl)
      | labelled marks fresh nop =>
        rw [nop] at went
        simp [Instruction.targets, Operand.targets] at went
      | emitted marks here =>
        rcases intact.origins _ linked _ goes with fresh | ⟨source, sourceMember, same, branches⟩
        · exact .inl (label_of_fresh intact fresh (intact.targets _ linked _ goes))
        · obtain rfl := Code.eq_of_place sourceMember member (same.trans here)
          exact absurd (Instruction.targets_of_marker? marks) branches
    · rw [framed.placed.lays.clauses] at held
      obtain ⟨source, among, rfl⟩ := List.mem_map.1 held
      obtain ⟨origin, bounds, moves⟩ := Clause.mem_borders_moveBorders border
      exact moved (Blocks.mem_namedPlaces.2 (.inr ⟨source, among, bounds⟩))
        (live.borders source among origin bounds) moves

end Framed

/-- What a marker reads before its call, if it reads anything. -/
def Marker.reader? : Marker → Option ((α : Type) × (Site → (bound : Nat) → Reader α))
  | .primitive .markLabel => some ⟨_, fun site _ => Reader.string site⟩
  | .primitive (.declareLocals hasInitFlag) => some ⟨_, Rewrite.declarations hasInitFlag⟩
  | .emit _ parameter => some ⟨_, fun site bound => Reader.argument site bound parameter⟩
  | _ => none

variable {α : Type} {marker : Marker} {reader : Site → Nat → Reader α}

/-- Whatever a marker reads, its reader keeps to the lines right before the call,
in the block of the call. -/
theorem Marker.restrained (reads : marker.reader? = some ⟨α, reader⟩) (site : Site)
    (bound : Nat) : (Reader.restraint site).KeptBy (reader site bound) := by
  unfold Marker.reader? at reads
  split at reads
  · obtain ⟨rfl, rfl⟩ := by simpa using reads
    exact Reader.inherited_restraint.string
  · obtain ⟨rfl, rfl⟩ := by simpa using reads
    exact Reader.inherited_restraint.declarations
  · obtain ⟨rfl, rfl⟩ := by simpa using reads
    exact Reader.inherited_restraint.argument _
  · simp at reads

namespace Rewrite

/-- The rule of a marker that reads something begins with reading it. So whatever
it goes on with sees the code without the arguments. -/
theorem rewriteCall_of_reader? (reads : marker.reader? = some ⟨α, reader⟩) (call : Place) :
    ∃ next, rewriteCall frame call marker = reading frame call reader >>= next := by
  unfold Marker.reader? at reads
  split at reads
  · obtain ⟨rfl, rfl⟩ := by simpa using reads
    exact ⟨_, rfl⟩
  · obtain ⟨rfl, rfl⟩ := by simpa using reads
    exact ⟨_, rfl⟩
  · obtain ⟨rfl, rfl⟩ := by simpa using reads
    exact ⟨_, rfl⟩
  · simp at reads

/-- The places that reading before a call takes, in the order of taking, also
when it fails. -/
def consumed (frame : Frame) (state : Rewriting) (call : Line)
    (reader : Site → (bound : Nat) → Reader α) : List Place :=
  let ahead := (state.body.code.linesBefore call.place).reverse
  match (reader (siteOf frame call) ahead.length).run { ahead, symbols := state.symbols } with
  | .ok _ rest | .error _ rest => rest.taken

/-- Reading before a call takes the places out of the body, one after the other. -/
def Consumes (frame : Frame) (state : Rewriting) (call : Line)
    (reader : Site → (bound : Nat) → Reader α) : Prop :=
  Steps.Meets (reading frame call.place reader) state
    (fun result left => result.2 = consumed frame state call reader ∧
      left.body = takeOut state.body (consumed frame state call reader))
    fun _ left => left.body = takeOut state.body (consumed frame state call reader)

/-- Reading at a call takes its places out of the body one after the other,
whether or not it succeeds. -/
theorem consumes_of_split {call : Line}
    (split : state.body.code.linked = before ++ call :: after) :
    Consumes frame state call reader := by
  unfold Consumes Steps.Meets consumed
  rw [run_reading split, Code.linesBefore_of_split split]
  dsimp only
  rw [List.length_reverse]
  generalize (reader _ _).run _ = result
  cases result with
  | ok value rest => exact ⟨rfl, rfl⟩
  | error failure rest => rfl

/-- A reader that keeps to the block of the call takes the lines right before it.
Readers take what is nearest, so what they took is contiguous, whether they
succeed or fail. -/
theorem exists_consumed {call : Line}
    (restrained : ∀ site bound, (Reader.restraint site).KeptBy (reader site bound))
    (split : state.body.code.linked = before ++ call :: after) :
    ∃ kept lines, before = kept ++ lines ∧
      consumed frame state call reader = (lines.map Line.place).reverse ∧
        ∀ line ∈ lines, frame.blocks.sameBlock line.place call.place = true := by
  have kept := restrained (siteOf frame call) before.length ⟨before.reverse, [], state.symbols⟩
  obtain ⟨rest, ran, lines, took⟩ : ∃ rest : Reading,
      consumed frame state call reader = rest.taken ∧
        ∃ lines, Took (siteOf frame call) ⟨before.reverse, [], state.symbols⟩ lines rest := by
    unfold Steps.Meets at kept
    unfold consumed
    rw [Code.linesBefore_of_split split]
    dsimp only
    rw [List.length_reverse]
    generalize (reader _ _).run _ = result at kept ⊢
    cases result with
    | ok value rest => exact ⟨rest, rfl, kept.1⟩
    | error failure rest => exact ⟨rest, rfl, kept.1.1⟩
  obtain ⟨parts, places, -⟩ := takenFrom_of_took split took
  exact ⟨_, lines, parts, ran.trans places, took.together⟩

end Rewrite

/-- What holds at a place that a pass visits. Everything that is named is a label
or the first line of its block that is still there. A rule that has arguments
begins with taking them, one after the other; whatever was taken by then, it
stays so, and no line that is left of the site is named but its first one. Nor is
a popping call named when it leaves. -/
structure Secluded (frame : Frame) (state : Rewriting) (place : Place) : Prop where
  led : Led frame.blocks state.labels state.body
  reading : ∀ i, state.body.instruction place = .ok i → ∀ (marker : Marker) (α : Type) reader,
    marker.reader? = some ⟨α, reader⟩ →
      (∃ next, Rewrite.rewriteCall frame place marker =
        Rewrite.reading frame place reader >>= next) ∧
      Rewrite.Consumes frame state ⟨place, i⟩ reader
  arguments : ∀ i, state.body.instruction place = .ok i → ∀ (marker : Marker) (α : Type) reader,
    marker.reader? = some ⟨α, reader⟩ →
      ∀ earlier later, Rewrite.consumed frame state ⟨place, i⟩ reader = earlier ++ later →
        Led frame.blocks state.labels (Rewrite.takeOut state.body earlier) ∧
          ∀ other ∈ (place :: later).dropLast,
            other ∉ Blocks.namedPlaces (Rewrite.takeOut state.body earlier)
  popping : ∀ cursor final, (Rewrite.pop frame place).run state = .ok cursor final →
    ∃ address i b, state.body.code.before? place = some address ∧
      b = { state.body with code := state.body.code.overwrite address i } ∧
      Led frame.blocks state.labels b ∧ place ∉ Blocks.namedPlaces b ∧
      ∃ gone left points, b.remove place = .ok (gone, left) ∧
        final.body = { left with points := points }

namespace Led

/-- Whatever was taken of the lines right before a call, only the first line of
what is left is named, if any. The lines are in one block with the call, and
removing the earlier ones of them hands references on to the next. -/
theorem of_consumed (led : Led frame.blocks state.labels state.body) {call : Line}
    (restrained : ∀ site bound, (Reader.restraint site).KeptBy (reader site bound))
    (split : state.body.code.linked = before ++ call :: after) {earlier later : List Place}
    (parts : Rewrite.consumed frame state call reader = earlier ++ later) :
    Led frame.blocks state.labels (Rewrite.takeOut state.body earlier) ∧
      ∀ other ∈ (call.place :: later).dropLast,
        other ∉ Blocks.namedPlaces (Rewrite.takeOut state.body earlier) := by
  obtain ⟨kept, lines, rfl, consumed, together⟩ :=
    @Rewrite.exists_consumed frame _ _ _ _ _ _ restrained split
  -- The lines that are left, and those that have gone, both in the order of the code.
  obtain ⟨far, near, rfl, remaining, gone⟩ : ∃ far near, lines = far ++ near ∧
      far.map Line.place = later.reverse ∧ near.map Line.place = earlier.reverse := by
    have order := congrArg List.reverse (consumed.symm.trans parts)
    rw [List.reverse_reverse, List.reverse_append] at order
    exact List.map_eq_append_iff.1 order
  have whole : state.body.code.linked = (kept ++ far) ++ near ++ call :: after := by
    simpa using split
  have took := Body.sheds_takeOut whole
  rw [gone, List.reverse_reverse, ← gone] at took
  have left : Led frame.blocks state.labels (Rewrite.takeOut state.body earlier) :=
    led.taken whole (fun line member => together line (List.mem_append_right _ member)) took
  refine ⟨left, fun other member => ?_⟩
  rw [← List.reverse_reverse later, ← remaining] at member
  cases far with
  | nil => simp at member
  | cons head rest =>
    obtain ⟨line, among, rfl⟩ : ∃ line ∈ rest ++ [call], line.place = other := by
      have site : call.place :: ((head :: rest).map Line.place).reverse =
          ((rest ++ [call]).map Line.place).reverse ++ [head.place] := by simp
      rw [site, List.dropLast_concat, List.mem_reverse] at member
      exact List.mem_map.1 member
    have near : frame.blocks.sameBlock head.place line.place = true := by
      have first := together head (by simp)
      rcases List.mem_append.1 among with among | last
      · exact Blocks.sameBlock_trans first (Blocks.sameBlock_comm (together line (by simp [among])))
      · exact (List.mem_singleton.1 last) ▸ first
    obtain ⟨move, moved⟩ : ∃ move, (Rewrite.takeOut state.body earlier).code.linked =
        (kept ++ head :: rest ++ call :: after).map (Line.moveTargets move) := ⟨_, took.linked⟩
    have code : (Rewrite.takeOut state.body earlier).code.linked =
        kept.map (Line.moveTargets move) ++ head.moveTargets move ::
          (rest ++ [call] ++ after).map (Line.moveTargets move) := by
      rw [moved]
      simp
    have later : line.moveTargets move ∈ (rest ++ [call] ++ after).map (Line.moveTargets move) :=
      List.mem_map_of_mem (List.mem_append_left _ among)
    have hidden : (line.moveTargets move).place ∉ _ := left.not_named code later near
    exact hidden

/-- A popping call that leaves is not named: the address before it is in its
block, and not named in between either. -/
theorem of_pop (led : Led frame.blocks state.labels state.body)
    (split : state.body.code.linked = before ++ line :: after) {cursor : Option Place}
    {final : Rewriting} (ran : (Rewrite.pop frame line.place).run state = .ok cursor final) :
    ∃ address i b, state.body.code.before? line.place = some address ∧
      b = { state.body with code := state.body.code.overwrite address i } ∧
      Led frame.blocks state.labels b ∧ line.place ∉ Blocks.namedPlaces b ∧
      ∃ gone left points, b.remove line.place = .ok (gone, left) ∧
        final.body = { left with points := points } := by
  replace ran := Rewrite.body_bind_eq_ok.1 ran
  split at ran
  · simp at ran
  next address found =>
  split at ran
  · simp at ran
  next together =>
  obtain ⟨loading, _, looking, ran⟩ := Steps.run_bind_ok.1 (Rewrite.body_bind_eq_ok.1 ran)
  obtain ⟨loads, rfl⟩ := Rewrite.faultless_eq_ok.1 looking
  split at ran
  · simp at ran
  next store stores =>
  obtain ⟨i, _, checking, ran⟩ := Steps.run_bind_ok.1 ran
  obtain ⟨checked, rfl⟩ := Steps.run_liftExcept_eq_ok.1 checking
  obtain rfl := Instruction.eq_of_checked checked
  obtain ⟨_, _, replacing, ran⟩ := Steps.run_bind_ok.1 ran
  obtain ⟨old, b, replaced, rfl⟩ := Rewrite.replace_eq_ok.1 replacing
  obtain rfl := Body.eq_of_replace replaced
  obtain ⟨_, _, removing, ran⟩ := Steps.run_bind_ok.1 (Rewrite.body_bind_eq_ok.1 ran)
  obtain ⟨gone, left, removed, rfl⟩ := Rewrite.remove_eq_ok.1 removing
  obtain ⟨_, mapped, mapping, ran⟩ := Steps.run_bind_ok.1 ran
  obtain ⟨points, rfl⟩ := Rewrite.mapPoints_eq_ok mapping
  obtain ⟨rfl, rfl⟩ := by simpa using ran
  have nearest := Code.before?_of_split split
  rw [found] at nearest
  obtain ⟨last, ends, rfl⟩ := Option.map_eq_some_iff.1 nearest.symm
  obtain ⟨front, rfl⟩ := List.getLast?_eq_some_iff.1 ends
  rw [List.append_assoc, List.singleton_append] at split
  have content := Code.instruction?_of_split split
  rw [Body.instruction_eq_ok.1 loads] at content
  have same : (⟨store, loading.operand⟩ : Instruction).targets = last.instruction.targets := by
    rw [← Option.some.inj content]
    rfl
  have stored := led.overwritten split same
  have after := Code.linked_overwrite split ⟨store, loading.operand⟩
  refine ⟨_, _, _, found, rfl, stored, ?_, gone, left, points, removed, rfl⟩
  exact stored.not_named after List.mem_cons_self (by simpa using together)

end Led

/-- The places that a pass over a body visits, each with the state it is visited
in. -/
inductive Visits (frame : Frame) (original : Body) (symbols : Symbols) :
    Place → Rewriting → Prop where
  | first {place : Place} (starts : original.code.first? = some place) :
      Visits frame original symbols place { body := original, symbols }
  | next {place following : Place} {state left : Rewriting}
      (visits : Visits frame original symbols place state)
      (visited : (Rewrite.visit frame place).run state = .ok (some following) left) :
      Visits frame original symbols following left

namespace Visits

variable {symbols : Symbols} {place : Place}

/-- A pass visits lines that are still as they were, by induction on the visits.
The first line is one of the original code, and every visit goes on to another. -/
theorem exists_framed (blocks : frame.blocks = Blocks.ofBody original)
    (visits : Visits frame original symbols place state) :
    ∃ occ line rest, line.place = place ∧ Framed frame original occ (line :: rest) (line :: rest) state := by
  induction visits with
  | first starts =>
    obtain ⟨line, found, rfl⟩ := Option.map_eq_some_iff.1 starts
    obtain ⟨rest, linked⟩ := List.head?_eq_some_iff.1 found
    have initial := Framed.initial frame original symbols blocks
    rw [linked] at initial
    exact ⟨_, line, rest, rfl, initial⟩
  | next visits visited ih =>
    obtain ⟨_, line, rest, rfl, framed⟩ := ih
    obtain ⟨occ, pending, after, cursor, -⟩ := framed.visit visited
    cases pending with
    | nil => simp at cursor
    | cons next rest => exact ⟨occ, next, rest, by simpa using cursor.symm, after⟩

/-- Its state is in order then, if the references of the original body are
linked. Whether operands fit their opcodes is not asked for this. -/
theorem framed (blocks : frame.blocks = Blocks.ofBody original) (live : original.Live)
    (visits : Visits frame original symbols place state) :
    ∃ occ line rest, line.place = place ∧ Framed frame original occ (line :: rest) (line :: rest) state ∧
      Intact False original state := by
  obtain ⟨occ, line, rest, same, framed⟩ := visits.exists_framed blocks
  refine ⟨occ, line, rest, same, framed, ?_⟩
  clear framed same
  induction visits with
  | first starts => exact .initial live False.elim False.elim
  | next visits visited ih =>
    obtain ⟨_, line, _, rfl, framed⟩ := visits.exists_framed blocks
    exact (ih.upholds_visit False.elim False.elim framed).ok visited

/-- Blocks need not be computed anew. Wherever a pass is, if the references of
the original body are linked, everything that is named is a label or the first
line of its original block that is still there. So when an argument is taken or a
popping call leaves, nothing of the site is named but the first line that is left
of it: control cannot enter between an argument and its call. -/
theorem secluded (blocks : frame.blocks = Blocks.ofBody original) (live : original.Live)
    (visits : Visits frame original symbols place state) : Secluded frame state place := by
  obtain ⟨occ, line, rest, rfl, framed, intact⟩ := visits.framed blocks live
  have led := framed.led intact live
  obtain ⟨done, split⟩ := framed.placed.split
  have code := framed.placed.code split
  have content {i : Instruction} (found : state.body.instruction line.place = .ok i) :
      line.moveTargets (occ.start original.code.linked) = ⟨line.place, i⟩ := by
    have here := Code.instruction?_of_split code
    rw [Line.place_moveTargets, Body.instruction_eq_ok.1 found] at here
    rw [Option.some.inj here]
    rfl
  refine ⟨led, fun i found marker α reader reads => ?_, fun i found marker α reader reads => ?_,
    fun cursor final ran => led.of_pop code ran⟩
  · exact ⟨Rewrite.rewriteCall_of_reader? reads line.place,
      Rewrite.consumes_of_split (content found ▸ code)⟩
  · exact fun earlier later => led.of_consumed (Marker.restrained reads) (content found ▸ code)

/-- A pass over the method that branches to the name of a label. -/
def markingFrame : Frame where
  settings := {}
  method := Weave.markingJob.method
  blocks := .ofBody Weave.markingJob.body
  mapsPoints := false

def markingState : Rewriting := { body := Weave.markingJob.body, symbols := Weave.emptyProgram }

/-- The name of the label is taken before the call, and only it was named. -/
theorem secluded_markingJob :
    Visits markingFrame Weave.markingJob.body Weave.emptyProgram ⟨2⟩ markingState ∧
      (∃ call, markingState.body.code.line? ⟨2⟩ = some call ∧
        Rewrite.consumed markingFrame markingState call (fun site _ => Reader.string site) =
          [⟨1⟩]) ∧
      Blocks.namedPlaces markingState.body = [⟨1⟩] ∧ Secluded markingFrame markingState ⟨2⟩ := by
  have visits : Visits markingFrame Weave.markingJob.body Weave.emptyProgram ⟨2⟩ markingState :=
    .next (.next (.first rfl) rfl) rfl
  exact ⟨visits, ⟨_, rfl, rfl⟩, rfl, visits.secluded rfl ⟨by decide, by decide⟩⟩

end Visits

end InlineCil
