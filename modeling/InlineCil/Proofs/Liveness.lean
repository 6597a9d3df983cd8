import InlineCil.Proofs.Blocks
import InlineCil.Proofs.Edits
import InlineCil.Proofs.Pass

/-!
# References stay live

Callers of a body hold places and edit by them, so a place that some branch or
clause still names must never leave the code. An edit that brings in an
instruction is grounded when the instruction goes to linked places or to itself;
everything else is up to the body: references to a line that leaves are handed to
a neighbour, references to a line that is replaced follow it. So a body whose
references are live stays so under any grounded edits.

Being grounded is asked of an edit at the time when it is done, and only if it is
accepted. It is decidable, and a run of edits is checked by doing it.

There is one lemma for each kind of edit. Removal and replacement share
`Sheds.named`: where lines leave for one heir, whatever is named afterwards was
named before, at the heir or elsewhere. From this it also follows that what was
removed is named no more, and that a replacement takes over exactly the
references of what it replaced.
-/

namespace InlineCil

/-- The line that an accepted edit brings into the code. -/
def Edit.brings (b : Body) : Edit → Option Line
  | .push i | .insertBefore _ i | .insertAfter _ i => some ⟨⟨b.code.next⟩, i⟩
  | .linkBefore _ place | .replaceWith _ place =>
      (b.code.detachedInstruction? place).map (Line.mk place)
  | .replace place i => some ⟨place, i⟩
  | .create _ | .remove _ | .clear => none

namespace Body

/-- What the edit brings in goes only to places that are linked, or to itself. -/
def Grounded (b : Body) (edit : Edit) : Prop :=
  ∀ line ∈ edit.brings b, ∀ target ∈ line.instruction.targets,
    target ∈ b.code.places ∨ target = line.place

/-- Every edit of the run that is accepted is grounded when it is done. -/
def GroundedRun : Body → List Edit → Prop
  | _, [] => True
  | b, edit :: edits =>
      ((b.apply edit).1.isOk = true → b.Grounded edit) ∧ GroundedRun (b.apply edit).2 edits

instance (b : Body) (edit : Edit) : Decidable (b.Grounded edit) :=
  inferInstanceAs (Decidable (∀ line ∈ edit.brings b, ∀ target ∈ line.instruction.targets,
    target ∈ b.code.places ∨ target = line.place))

/-- Whether a run is grounded is found by doing it. -/
def decidableGroundedRun : (b : Body) → (edits : List Edit) → Decidable (b.GroundedRun edits)
  | _, [] => inferInstanceAs (Decidable True)
  | b, edit :: edits =>
      let _ := decidableGroundedRun (b.apply edit).2 edits
      inferInstanceAs (Decidable (((b.apply edit).1.isOk = true → b.Grounded edit) ∧
        GroundedRun (b.apply edit).2 edits))

instance (b : Body) (edits : List Edit) : Decidable (b.GroundedRun edits) :=
  decidableGroundedRun b edits

/-- One place takes over from another: its line comes to stand where the other
stood, and every reference to the other, but no reference else, now goes to it. -/
structure Renames (b : Body) (old new : Place) (left : Body) : Prop where
  unnamed : new ∉ Blocks.namedPlaces b
  linked : ∃ front line rear i, line.place = old ∧ b.code.linked = front ++ line :: rear ∧
    b.code.detachedInstruction? new = some i ∧
    left.code.linked = (front ++ ⟨new, i⟩ :: rear).map (Line.moveTargets (single old new))
  clauses : left.clauses =
    b.clauses.map (Clause.moveBorders (single old new) fun place => some (single old new place))
  gone : old ∉ Blocks.namedPlaces left

variable {b left : Body} {before after kept gone : List Line} {line : Line} {place : Place}

/-- References are live if everything that is named is linked. Targets and
borders are two lists in the definition and one here. -/
theorem live_iff : b.Live ↔ ∀ place ∈ Blocks.namedPlaces b, place ∈ b.code.places := by
  simp only [Blocks.mem_namedPlaces]
  constructor
  · rintro ⟨targets, borders⟩ place (⟨line, member, goes⟩ | ⟨clause, held, border⟩)
    · exact targets line member place goes
    · exact borders clause held place border
  · intro named
    exact ⟨fun line member place goes => named place (.inl ⟨line, member, goes⟩),
      fun clause held place border => named place (.inr ⟨clause, held, border⟩)⟩

/-- A body is valid if and only if its references are live, so the check that
callers make is the property meant. Branches are checked first, but with nothing
wrong the order does not matter. -/
theorem validate_eq_ok : b.validate = .ok () ↔ b.Live := by
  refine ⟨fun valid => ?_, validate_ok⟩
  unfold validate at valid
  split at valid
  · contradiction
  · next nothing =>
    obtain ⟨targets, borders⟩ := Option.or_eq_none_iff.1 nothing
    constructor
    · intro line member place goes
      have found := List.findSome?_eq_none_iff.1 targets line member
      have linked := List.find?_eq_none.1 (Option.map_eq_none_iff.1 found) place goes
      exact Code.contains_iff.1 (by simpa using linked)
    · intro clause held place border
      have found := List.findSome?_eq_none_iff.1 borders clause held
      have linked := List.find?_eq_none.1 (Option.map_eq_none_iff.1 found) place border
      exact Code.contains_iff.1 (by simpa using linked)

/-- Where lines leave for one heir, what is named afterwards was named before, at
the heir or elsewhere. -/
theorem Sheds.named {old heir : Place} {next : Option Place}
    (sheds : b.Sheds kept gone (single old heir) (singleEnd old next) left)
    (heirs : ∀ place, next = some place → place = heir)
    (named : place ∈ Blocks.namedPlaces left) :
    ∃ origin, ((∃ line ∈ kept, origin ∈ line.instruction.targets) ∨
      ∃ clause ∈ b.clauses, origin ∈ clause.borders) ∧ place = single old heir origin := by
  simp only [Blocks.mem_namedPlaces, sheds.linked, sheds.clauses, List.mem_map] at named
  rcases named with ⟨_, ⟨line, member, rfl⟩, goes⟩ | ⟨_, ⟨clause, held, rfl⟩, border⟩
  · rw [Line.instruction_moveTargets, Instruction.targets_moveTargets] at goes
    obtain ⟨target, went, rfl⟩ := List.mem_map.1 goes
    exact ⟨target, .inl ⟨line, member, went⟩, rfl⟩
  · obtain ⟨origin, named, moves⟩ := Clause.mem_borders_moveBorders border
    exact ⟨origin, .inr ⟨clause, held, named⟩,
      moves.elim id fun ends => eq_single_of_singleEnd heirs ends⟩

/-- A place that hands its references to another one is named no more. -/
theorem single_ne {old heir origin : Place} (other : heir ≠ old) : single old heir origin ≠ old := by
  unfold single
  split
  · exact other
  · next apart => exact apart

/-- Ends of regions are handed on like their starts, if at all. -/
theorem heir_of_next {next : Place} (found : after.head?.map Line.place = some next) :
    next = heir before line after := by
  simp [heir, found]

/-- The heir of a line stands beside it; the only line of a body has none. It is
the next line, or at the end of the code the previous one. -/
theorem heir_mem (several : before ++ after ≠ []) :
    heir before line after ∈ (before ++ after).map Line.place := by
  cases after with
  | cons next after => simp [heir]
  | nil =>
    obtain ⟨front, last, rfl⟩ :=
      (List.eq_nil_or_concat' before).resolve_left (by simpa using several)
    simp [heir]

/-- Where a line was removed, nothing names its place: references went to a
neighbour, or there were none. The detached instruction keeps its own targets,
which no longer count. -/
theorem unnamed_of_removed {i : Instruction} (removed : b.remove place = .ok (i, left)) :
    place ∉ Blocks.namedPlaces left := by
  obtain ⟨before, line, after, rfl, split⟩ := Code.exists_split (contains_of_remove removed)
  have sheds := sheds_of_remove split removed
  intro named
  obtain ⟨origin, origins, moved⟩ := sheds.named (fun _ found => heir_of_next found) named
  by_cases alone : before ++ after = []
  · -- The only line leaves unnamed, so nothing was there to be handed on.
    obtain ⟨rfl, rfl⟩ := List.append_eq_nil_iff.1 alone
    obtain ⟨-, unnamed⟩ := not_named (unnamed_of_remove split removed)
    rcases origins with ⟨other, member, -⟩ | ⟨clause, held, border⟩
    · simp at member
    · have same : origin = line.place := by
        simpa [heir, single] using moved.symm
      exact unnamed clause held (same ▸ border)
  · refine single_ne (fun same => ?_) moved.symm
    obtain ⟨other, member, there⟩ := List.mem_map.1 (@heir_mem before after line alone)
    obtain ⟨earlier, later⟩ := Code.apart split
    exact Line.isAt_eq_false.1 ((List.mem_append.1 member).elim (earlier other) (later other))
      (there.trans same)

/-- A removal keeps references live, since the neighbour that takes them over is
linked. An end of a region at the end of the body becomes absent and needs no
place. -/
theorem Live.remove {i : Instruction} (live : b.Live) (removed : b.remove place = .ok (i, left)) :
    left.Live := by
  obtain ⟨before, line, after, rfl, split⟩ := Code.exists_split (contains_of_remove removed)
  have sheds := sheds_of_remove split removed
  refine live_iff.2 fun place named => ?_
  have apart : place ≠ line.place := fun same => unnamed_of_removed removed (same ▸ named)
  obtain ⟨origin, origins, rfl⟩ := sheds.named (fun _ found => heir_of_next found) named
  have inside : origin ∈ b.code.places := by
    refine live_iff.1 live origin (Blocks.mem_namedPlaces.2 (origins.imp_left ?_))
    rintro ⟨other, member, goes⟩
    exact ⟨other, by rw [split]; simp at member ⊢; tauto, goes⟩
  rw [sheds.places]
  unfold single at apart ⊢
  split
  · next here =>
    rw [if_pos here] at apart
    refine heir_mem fun alone => apart ?_
    obtain ⟨rfl, rfl⟩ := List.append_eq_nil_iff.1 alone
    rfl
  · next other =>
    rw [(places_of_split split).1] at inside
    simp only [List.map_append, List.mem_append, List.mem_cons] at inside ⊢
    tauto

/-- A grounded line comes in, and what was linked stays. So all that was named is
still linked, and so is what the new line names. -/
theorem Live.bring {new : Line} (live : b.Live)
    (lines : ∀ line ∈ left.code.linked, line ∈ b.code.linked ∨ line = new)
    (stay : ∀ place ∈ b.code.places, place ∈ left.code.places)
    (linked : new.place ∈ left.code.places) (clauses : left.clauses = b.clauses)
    (grounded : ∀ target ∈ new.instruction.targets, target ∈ b.code.places ∨ target = new.place) :
    left.Live where
  targets line member target goes := by
    rcases lines line member with old | rfl
    · exact stay target (live.targets line old target goes)
    · rcases grounded target goes with old | rfl
      · exact stay target old
      · exact linked
  borders clause held border named := by
    rw [clauses] at held
    exact stay border (live.borders clause held border named)

/-- A grounded line comes in somewhere between the others. It may go to itself,
since it is linked now, but else only to lines that were linked before. -/
theorem Live.insert {new : Line} (live : b.Live) (split : b.code.linked = before ++ after)
    (linked : left.code.linked = before ++ new :: after) (clauses : left.clauses = b.clauses)
    (grounded : ∀ target ∈ new.instruction.targets, target ∈ b.code.places ∨ target = new.place) :
    left.Live := by
  refine live.bring (fun line member => ?_) (fun place member => ?_) ?_ clauses grounded
  · rw [linked] at member
    rw [split]
    simp only [List.mem_append, List.mem_cons] at member ⊢
    tauto
  · rw [Code.places, split] at member
    rw [Code.places, linked]
    simp only [List.map_append, List.map_cons, List.mem_append, List.mem_cons] at member ⊢
    tauto
  · rw [Code.places, linked]
    simp

theorem brings_of_waiting {new : Line} (waiting : new ∈ b.code.detached) :
    (b.code.detachedInstruction? new.place).map (Line.mk new.place) = some new := by
  rw [Code.detachedInstruction?_of_mem waiting]
  rfl

theorem Live.linkBefore {anchor : Place} (live : b.Live)
    (linked : b.linkBefore anchor place = .ok left)
    (grounded : b.Grounded (.linkBefore anchor place)) : left.Live := by
  obtain ⟨contained, ⟨new, waiting, rfl⟩, rfl⟩ := linkBefore_eq_ok.1 linked
  obtain ⟨before, line, after, rfl, split⟩ := Code.exists_split contained
  exact live.insert split (Code.linked_linkBefore split waiting) rfl
    (grounded new (brings_of_waiting waiting))

/-- Overwriting an instruction with a grounded one keeps references live. The
place stays linked, so references to it are not affected. -/
theorem Live.replace {i : Instruction} {result : Instruction × Body} (live : b.Live)
    (replaced : b.replace place i = .ok result) (grounded : b.Grounded (.replace place i)) :
    result.2.Live := by
  obtain ⟨places, clauses, -⟩ := shape_replace replaced
  have contained : place ∈ b.code.places := replace_accepted.1 (by rw [replaced]; rfl)
  have now : ∀ line ∈ result.2.code.linked, line ∈ b.code.linked ∨ line = ⟨place, i⟩ := by
    intro line member
    rw [eq_of_replace replaced] at member
    obtain ⟨other, inside, rfl⟩ := List.mem_map.1 member
    by_cases here : other.place = place
    · simp [Line.isAt, here]
    · exact .inl (by simpa [Line.isAt, here] using inside)
  exact live.bring now (fun target inside => places ▸ inside) (places ▸ contained) clauses
    (grounded _ rfl)

/-- A line that replaces another takes over its references. Until then nothing
named it, for it was not linked and references were live. -/
theorem Live.renames {old new : Place} {i : Instruction} (live : b.Live)
    (replaced : b.replaceWith old new = .ok (i, left)) : b.Renames old new left := by
  obtain ⟨before, line, after, fresh, rfl, rfl, split, waiting, sheds⟩ :=
    sheds_of_replaceWith replaced
  have linked : line ∈ b.code.linked := by simp [split]
  refine ⟨fun named => ?_, ⟨before, line, after, fresh.instruction, rfl, split,
    Code.detachedInstruction?_of_mem waiting, sheds.linked⟩, ?_, fun named => ?_⟩
  · obtain ⟨other, among, there⟩ := List.mem_map.1 (live_iff.1 live _ named)
    exact Code.place_ne among waiting there
  · rw [sheds.clauses, singleEnd_some]
  · obtain ⟨origin, -, moved⟩ := sheds.named (fun _ found => (Option.some.inj found).symm) named
    exact single_ne (Code.place_ne linked waiting).symm moved.symm

/-- Replacing a line by a grounded one that waits keeps references live.
References to the old line go to the new one, which is linked in its position. -/
theorem Live.replaceWith {old new : Place} {i : Instruction} (live : b.Live)
    (replaced : b.replaceWith old new = .ok (i, left))
    (grounded : b.Grounded (.replaceWith old new)) : left.Live := by
  obtain ⟨before, line, after, fresh, rfl, rfl, split, waiting, sheds⟩ :=
    sheds_of_replaceWith replaced
  refine live_iff.2 fun place named => ?_
  obtain ⟨origin, origins, rfl⟩ := sheds.named (fun _ found => (Option.some.inj found).symm) named
  have inside : origin ∈ b.code.places ∨ origin = fresh.place := by
    rcases origins with ⟨other, member, goes⟩ | ⟨clause, held, border⟩
    · rcases (List.mem_append.1 member).imp_right List.mem_cons.1 with early | rfl | late
      · exact .inl (live.targets other (by simp [split, early]) origin goes)
      · exact grounded other (brings_of_waiting waiting) origin goes
      · exact .inl (live.targets other (by simp [split, late]) origin goes)
    · exact .inl (live.borders clause held origin border)
  rw [sheds.places]
  unfold single
  split
  · simp
  · next other =>
    rw [(places_of_split split).1] at inside
    simp only [List.map_append, List.map_cons, List.mem_append, List.mem_cons] at inside ⊢
    tauto

theorem Live.create (live : b.Live) (i : Instruction) : (b.create i).2.Live :=
  ⟨live.targets, live.borders⟩

/-- References stay live where neither lines nor clauses change, as under an edit
that is refused. -/
theorem Live.congr (live : b.Live) (linked : left.code.linked = b.code.linked)
    (clauses : left.clauses = b.clauses) : left.Live where
  targets line member place goes := by
    rw [Code.places, linked]
    exact live.targets line (linked ▸ member) place goes
  borders clause held place border := by
    rw [Code.places, linked]
    exact live.borders clause (clauses ▸ held) place border

/-- A grounded edit that is accepted keeps references live, by cases on the edit.
Edits that only hand out a place, or clear the body, leave no reference that
could dangle. -/
theorem Live.accepted {edit : Edit} {answer : Answer} (live : b.Live)
    (done : b.apply edit = (.ok answer, left)) (grounded : b.Grounded edit) : left.Live := by
  have took {result : Except Fault (Instruction × Body)}
      (outcome : b.taking result = (.ok answer, left)) : ∃ i, result = .ok (i, left) := by
    have accepted : (b.taking result).1.isOk = true := by
      rw [outcome]
      rfl
    obtain ⟨i, found⟩ := exists_of_taking accepted
    rw [outcome] at found
    exact ⟨i, found⟩
  cases edit with
  | push i =>
    obtain ⟨-, rfl⟩ := Prod.mk.inj done
    have linked := Code.linked_linkLast (b.mem_create i)
    exact live.insert b.code.linked.append_nil.symm linked rfl (grounded _ rfl)
  | create i =>
    obtain ⟨-, rfl⟩ := Prod.mk.inj done
    exact live.create i
  | insertBefore anchor i =>
    simp only [apply, insertBefore] at done
    split at done
    · next linked =>
      obtain ⟨-, rfl⟩ := Prod.mk.inj done
      have brought := brings_of_waiting (b.mem_create i)
      refine (live.create i).linkBefore linked fun line found => ?_
      obtain rfl := Option.some.inj (brought.symm.trans found)
      exact grounded _ rfl
    · simp [Except.map] at done
  | insertAfter anchor i =>
    cases contained : b.code.contains anchor with
    | false => simp [apply, insertAfter_of_absent contained, Except.map] at done
    | true =>
      obtain ⟨before, line, after, rfl, split⟩ := Code.exists_split contained
      obtain ⟨left', inserted, linked, clauses, -⟩ := insertAfter_of_split split i
      simp only [apply, inserted] at done
      obtain ⟨-, rfl⟩ := Prod.mk.inj done
      have whole : b.code.linked = (before ++ [line]) ++ after := by simpa using split
      exact live.insert whole (by simpa using linked) clauses (grounded _ rfl)
  | linkBefore anchor place =>
    simp only [apply] at done
    split at done
    · next linked =>
      obtain ⟨-, rfl⟩ := Prod.mk.inj done
      exact live.linkBefore linked grounded
    · simp at done
  | replace place i =>
    obtain ⟨_, replaced⟩ := took done
    exact live.replace replaced grounded
  | replaceWith old new =>
    obtain ⟨_, replaced⟩ := took done
    exact live.replaceWith replaced grounded
  | remove place =>
    obtain ⟨_, removed⟩ := took done
    exact live.remove removed
  | clear =>
    obtain ⟨-, rfl⟩ := Prod.mk.inj done
    exact ⟨by simp [clear, Code.unlinkAll], by simp [clear]⟩

/-- A grounded edit keeps references live, whether it is accepted or refused. A
refused one need not be grounded. -/
theorem Live.apply {edit : Edit} (live : b.Live)
    (grounded : (b.apply edit).1.isOk = true → b.Grounded edit) : (b.apply edit).2.Live := by
  cases outcome : b.apply edit with
  | mk answer left =>
    rw [outcome] at grounded
    cases answer with
    | ok answer => exact live.accepted outcome (grounded rfl)
    | error fault =>
      have obeys := b.obeys edit
      rw [outcome] at obeys
      exact live.congr obeys.2.1 obeys.2.2.1

/-- A body that is valid stays valid through every run of grounded edits, after
each of them and whether it is accepted or refused. What was removed is named no
more, and what was replaced has handed exactly the references to it to its
replacement. -/
theorem stays_valid {edits done rest : List Edit} {edit : Edit} (valid : b.validate = .ok ())
    (grounded : b.GroundedRun edits) (parts : edits = done ++ edit :: rest) :
    let before := (b.run done).2
    let after := (before.apply edit).2
    after.validate = .ok () ∧
      ((before.apply edit).1.isOk = true →
        (∀ place, edit = .remove place → place ∉ Blocks.namedPlaces after) ∧
        ∀ old new, edit = .replaceWith old new → before.Renames old new after) := by
  subst parts
  induction done generalizing b with
  | cons first done ih =>
    obtain ⟨here, further⟩ := grounded
    exact ih (validate_eq_ok.2 ((validate_eq_ok.1 valid).apply here)) further
  | nil =>
    obtain ⟨here, -⟩ := grounded
    have live := validate_eq_ok.1 valid
    intro before after
    refine ⟨validate_eq_ok.2 (live.apply here), fun accepted => ⟨?_, ?_⟩⟩
    · rintro place rfl
      obtain ⟨_, removed⟩ := exists_of_taking accepted
      exact unnamed_of_removed removed
    · rintro old new rfl
      obtain ⟨_, replaced⟩ := exists_of_taking accepted
      exact live.renames replaced

/-- A branch back to a placeholder that replaces the start of a loop and then
leaves. -/
def looping : List Edit :=
  [.push ⟨.nop, .none⟩, .push ⟨.br, .target ⟨0⟩⟩, .create ⟨.nop, .none⟩, .replaceWith ⟨0⟩ ⟨2⟩,
    .remove ⟨2⟩]

/-- When the placeholder leaves, the branch goes to itself and nothing dangles. -/
theorem stays_valid_looping :
    ({} : Body).validate = .ok () ∧ ({} : Body).GroundedRun looping ∧
      (({} : Body).run looping).2.validate = .ok () ∧
      (⟨2⟩ : Place) ∉ Blocks.namedPlaces (({} : Body).run looping).2 := by
  have grounded : ({} : Body).GroundedRun looping := by decide +kernel
  obtain ⟨valid, accepted⟩ := @stays_valid {} looping (looping.take 4) [] (.remove ⟨2⟩) rfl
    grounded rfl
  exact ⟨rfl, grounded, valid, (accepted (by decide +kernel)).1 ⟨2⟩ rfl⟩

end Body

end InlineCil
