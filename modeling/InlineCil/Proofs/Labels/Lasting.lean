import InlineCil.Proofs.Edits
import InlineCil.Proofs.Fate

/-!
# What lasts

Rules take the instructions of arguments, remove calls and throws, and make
stores of the loads of addresses. Everything else that was once put into a body
stays: branches, switches and the instructions of labels. A change that touches
nothing of this kind spares it, together with the places it goes to.

Whether a line lasts is told by its opcode. `Body.Spares` says of two bodies that
lasting lines which go to labels only are still there, that what waits goes on
waiting, and that no place is linked anew. It is a preorder, and each change that
a rule makes is shown to be in it, except for the one that puts a label into the
code.

Places of labels are anchored: the instruction of the label is at the place,
linked or waiting. Since that instruction does nothing and lasts, no line that
leaves was at such a place, and references to labels need not be moved.
-/

namespace InlineCil

/-- No rule changes an instruction with this opcode: it is no call and no part of
an argument, loads no address and does not throw. -/
def Opcode.isLasting (opcode : Opcode) : Bool :=
  !opcode.isArgumental && (Rewrite.storeFor? opcode).isNone && opcode ≠ .throw

namespace Opcode

variable {opcode store : Opcode}

theorem isLasting_of_isTarget (branches : opcode.kind.isTarget = true) :
    opcode.isLasting = true := by
  cases opcode <;> first | rfl | exact absurd branches (by decide)

theorem isLasting_of_switch (switches : opcode.kind = .switch) : opcode.isLasting = true := by
  cases opcode <;> first | rfl | exact absurd switches (by decide)

/-- What may be part of an argument does not last, since it may be taken as one. -/
theorem isLasting_of_isArgumental (argumental : opcode.isArgumental = true) :
    opcode.isLasting = false := by
  simp [isLasting, argumental]

/-- Calls do not last, since they may call markers. -/
theorem isLasting_of_isCall (calls : opcode.isCall = true) : opcode.isLasting = false :=
  isLasting_of_isArgumental (by simp [isArgumental, calls])

theorem storeFor?_of_isCall (calls : opcode.isCall = true) : Rewrite.storeFor? opcode = none := by
  cases opcode <;> first | rfl | exact absurd calls (by decide)

/-- The load of an address does not last, since it may become a store. -/
theorem isLasting_of_storeFor? (stores : Rewrite.storeFor? opcode = some store) :
    opcode.isLasting = false := by
  simp [isLasting, stores]

end Opcode

namespace Body

variable {b middle left : Body} {place : Place} {opcode : Opcode}

/-- The instruction of a label is at the place, whether it is linked or waits to
be. -/
def Anchors (b : Body) (place : Place) : Prop :=
  ⟨place, ⟨.nop, .none⟩⟩ ∈ b.code.linked ++ b.code.detached

/-- A linked instruction with the opcode is at the place. -/
def Runs (b : Body) (place : Place) (opcode : Opcode) : Prop :=
  ∃ line ∈ b.code.linked, line.place = place ∧ line.instruction.opcode = opcode

/-- Nothing lasting goes: lines that last and go to labels only stay as they are,
what waits to be linked goes on waiting, and no place is linked anew. -/
structure Spares (b left : Body) : Prop where
  lines : ∀ line ∈ b.code.linked, line.instruction.opcode.isLasting = true →
    (∀ place ∈ line.instruction.targets, b.Anchors place) → line ∈ left.code.linked
  waiting : ∀ line ∈ b.code.detached, line ∈ left.code.detached
  places : left.code.places.Sublist b.code.places
  next : b.code.next ≤ left.code.next

/-- Linked lines without lasting opcodes are at no place of a label. The
instruction of a label lasts, whether it is linked or still waits. -/
theorem Anchors.place_ne (anchors : b.Anchors place) {line : Line} (linked : line ∈ b.code.linked)
    (perishes : line.instruction.opcode.isLasting = false) : line.place ≠ place := by
  intro same
  rcases List.mem_append.1 anchors with among | waits
  · obtain rfl := Code.eq_of_place linked among same
    exact Bool.noConfusion perishes
  · exact Code.place_ne linked waits same

theorem runs_of_instruction? {i : Instruction} (found : b.code.instruction? place = some i) :
    b.Runs place i.opcode := by
  obtain ⟨line, among, rfl⟩ := Option.map_eq_some_iff.1 found
  have there : line.place = place := by simpa [Line.isAt] using List.find?_some among
  exact ⟨line, List.mem_of_find?_eq_some among, there, rfl⟩

/-- One place has one opcode, as no two lines are at one place. -/
theorem Runs.unique {other : Opcode} (runs : b.Runs place opcode) (also : b.Runs place other) :
    opcode = other := by
  obtain ⟨line, member, there, rfl⟩ := runs
  obtain ⟨again, among, here, rfl⟩ := also
  rw [Code.eq_of_place member among (there.trans here.symm)]

theorem Runs.split (runs : b.Runs place opcode) :
    ∃ before line after, line.place = place ∧ line.instruction.opcode = opcode ∧
      b.code.linked = before ++ line :: after := by
  obtain ⟨line, member, there, runs⟩ := runs
  obtain ⟨before, after, split⟩ := List.mem_iff_append.1 member
  exact ⟨before, line, after, there, runs, split⟩

namespace Spares

theorem refl (b : Body) : b.Spares b where
  lines _ member _ _ := member
  waiting _ member := member
  places := List.Sublist.refl _
  next := Nat.le_refl _

theorem anchors (spares : b.Spares left) (anchored : b.Anchors place) : left.Anchors place := by
  rcases List.mem_append.1 anchored with linked | waits
  · refine List.mem_append_left _ (spares.lines _ linked rfl fun target goes => ?_)
    simp [Instruction.targets, Operand.targets] at goes
  · exact List.mem_append_right _ (spares.waiting _ waits)

/-- What is spared by two changes is spared: the places that a lasting line goes
to are anchored in between as well. -/
theorem trans (first : b.Spares middle) (second : middle.Spares left) : b.Spares left where
  lines line member lasts goes := second.lines line (first.lines line member lasts goes) lasts
    fun place among => first.anchors (goes place among)
  waiting line member := second.waiting line (first.waiting line member)
  places := second.places.trans first.places
  next := Nat.le_trans first.next second.next

theorem of_code (same : left.code = b.code) : b.Spares left where
  lines _ member _ _ := same ▸ member
  waiting _ member := same ▸ member
  places := same ▸ List.Sublist.refl _
  next := same ▸ Nat.le_refl _

/-- Lines that do not last may leave. References to them are moved, but lasting
lines that go to labels have none. -/
theorem of_sheds {kept gone : List Line} {start : Place → Place} {stop : Place → Option Place}
    (sheds : b.Sheds kept gone start stop left)
    (parts : ∀ line ∈ b.code.linked, line ∈ kept ∨ line ∈ gone)
    (order : (kept.map Line.place).Sublist b.code.places)
    (perish : ∀ line ∈ gone, line ∈ b.code.linked ∧ line.instruction.opcode.isLasting = false)
    (still : ∀ place ∉ gone.map Line.place, start place = place) : b.Spares left where
  lines line member lasts goes := by
    have stays : line ∈ kept := (parts line member).resolve_right fun leaves => by
      simp [(perish line leaves).2] at lasts
    have same : line.moveTargets start = line := by
      refine (Line.moveTargets_congr fun place target => ?_).trans line.moveTargets_id
      refine still place fun among => ?_
      obtain ⟨other, leaves, there⟩ := List.mem_map.1 among
      exact (goes place target).place_ne (perish other leaves).1 (perish other leaves).2 there
    rw [sheds.linked, ← same]
    exact List.mem_map_of_mem stays
  waiting line member := by
    obtain ⟨lines, -, detached⟩ := sheds.detached
    exact detached ▸ List.mem_append_right _ member
  places := sheds.places ▸ order
  next := Nat.le_of_eq sheds.next.symm

end Spares

/-- An instruction that does not last may be removed; the others keep their
opcodes. References to it move on to a line beside it, but a line that lasts and
goes to labels only is not among those that referred to it. -/
theorem spares_remove {i : Instruction} (runs : b.Runs place opcode)
    (perishes : opcode.isLasting = false) (removed : b.remove place = .ok (i, left)) :
    b.Spares left ∧
      ∀ other opcode, other ≠ place → b.Runs other opcode → left.Runs other opcode := by
  obtain ⟨before, line, after, rfl, rfl, split⟩ := runs.split
  have sheds := sheds_of_remove split removed
  refine ⟨.of_sheds sheds ?_ ?_ ?_ fun other apart => if_neg (by simpa using apart), ?_⟩
  · intro other member
    rw [split] at member
    simp only [List.mem_append, List.mem_cons] at member ⊢
    tauto
  · rw [Code.places, split]
    exact ((List.sublist_cons_self line after).append_left before).map Line.place
  · intro other leaves
    obtain rfl := List.mem_singleton.1 leaves
    exact ⟨by simp [split], perishes⟩
  · rintro _ _ apart ⟨other, member, rfl, rfl⟩
    have kept : other ∈ before ++ after := by
      rw [split] at member
      have different : other ≠ line := fun same => apart (same ▸ rfl)
      simpa [different] using member
    refine ⟨other.moveTargets (single line.place (heir before line after)), ?_, rfl, by simp⟩
    rw [sheds.linked]
    exact List.mem_map_of_mem kept

/-- An instruction that does not last may be overwritten, with whatever it is.
The new one is then linked at the place, and all lines at other places are the
same. -/
theorem spares_overwrite (runs : b.Runs place opcode) (perishes : opcode.isLasting = false)
    (i : Instruction) :
    b.Spares { b with code := b.code.overwrite place i } ∧
      ⟨place, i⟩ ∈ (b.code.overwrite place i).linked ∧
      ∀ other opcode, other ≠ place → b.Runs other opcode →
        { b with code := b.code.overwrite place i : Body }.Runs other opcode := by
  obtain ⟨before, line, after, rfl, rfl, split⟩ := runs.split
  have linked := Code.linked_overwrite split i
  have others {other : Line} (member : other ∈ b.code.linked) (apart : other ≠ line) :
      other ∈ (b.code.overwrite line.place i).linked := by
    rw [split] at member
    rw [linked]
    simp only [List.mem_append, List.mem_cons] at member ⊢
    tauto
  refine ⟨⟨?_, fun _ waits => waits, ?_, Nat.le_refl _⟩, by simp [linked], ?_⟩
  · intro other member lasts _
    refine others member ?_
    rintro rfl
    simp [perishes] at lasts
  · exact (b.code.places_overwrite line.place i).symm ▸ List.Sublist.refl _
  · rintro _ _ apart ⟨other, member, rfl, rfl⟩
    exact ⟨other, others member fun same => apart (same ▸ rfl), rfl, rfl⟩

theorem spares_create (b : Body) (i : Instruction) : b.Spares (b.create i).2 where
  lines _ member _ _ := member
  waiting _ member := List.mem_append_left _ member
  places := List.Sublist.refl _
  next := Nat.le_succ _

/-- An instruction that does not last may be replaced by the instruction of a
label. Only that one waits no longer, and it is linked where the other one was. -/
theorem spares_replaceWith {new : Place} {i : Instruction} (runs : b.Runs place opcode)
    (perishes : opcode.isLasting = false) (waits : ⟨new, ⟨.nop, .none⟩⟩ ∈ b.code.detached)
    (replaced : b.replaceWith place new = .ok (i, left)) :
    (∀ line ∈ b.code.linked, line.instruction.opcode.isLasting = true →
      (∀ place ∈ line.instruction.targets, b.Anchors place) → line ∈ left.code.linked) ∧
    ⟨new, ⟨.nop, .none⟩⟩ ∈ left.code.linked ∧
    (∀ line ∈ b.code.detached, line.place ≠ new → line ∈ left.code.detached) ∧
    left.code.next = b.code.next := by
  obtain ⟨before, line, after, rfl, rfl, split⟩ := runs.split
  obtain ⟨_, final, run, sheds⟩ := replaceWith_of_split split waits
  obtain ⟨-, same⟩ := Prod.mk.inj (Except.ok.inj (run.symm.trans replaced))
  rw [same] at sheds
  have linked := Code.linked_linkBefore split waits
  -- First the label comes in, then the other line leaves.
  let between : Body := { b with code := b.code.linkBefore line.place new }
  have comes : ⟨new, ⟨.nop, .none⟩⟩ ∈ between.code.linked :=
    (Code.mem_linked_linkBefore split waits).2 (.inl rfl)
  have stays {other : Line} (member : other ∈ b.code.linked) : other ∈ between.code.linked :=
    (Code.mem_linked_linkBefore split waits).2 (.inr member)
  have anchors {target : Place} (anchored : b.Anchors target) : between.Anchors target := by
    rcases List.mem_append.1 anchored with among | waiting
    · exact List.mem_append_left _ (stays among)
    · by_cases same : target = new
      · exact List.mem_append_left _ (same ▸ comes)
      · exact List.mem_append_right _ (Code.mem_detached_linkBefore waiting same)
  have leaves : between.Spares left := by
    refine .of_sheds sheds ?_ ?_ ?_ fun other apart => if_neg (by simpa using apart)
    · intro other member
      simp only [between, linked, List.mem_append, List.mem_cons] at member ⊢
      tauto
    · rw [Code.places, linked]
      exact (((List.sublist_cons_self line after).cons_cons _).append_left before).map Line.place
    · intro other leaves
      obtain rfl := List.mem_singleton.1 leaves
      exact ⟨stays (by simp [split]), perishes⟩
  refine ⟨fun other member lasts goes => ?_, ?_, fun other member apart => ?_, sheds.next⟩
  · exact leaves.lines other (stays member) lasts fun target among => anchors (goes target among)
  · exact leaves.lines _ comes rfl (by simp [Instruction.targets, Operand.targets])
  · exact leaves.waiting other (Code.mem_detached_linkBefore member apart)

end Body

end InlineCil
