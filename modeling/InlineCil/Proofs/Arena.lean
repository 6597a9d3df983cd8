import InlineCil.Arena
import InlineCil.Proofs.Edits
import Mathlib.Data.List.Induction

/-!
# Chains of slots

A stretch of linked lines is threaded through slots when the slot of each line
holds its instruction and its two neighbours. Stretches are put together and
taken apart at any line, and a stretch whose slots stay as they were stays
threaded. An arena stores a body when the linked lines are threaded from end to
end and the slots of the detached lines have no neighbours; looking at the arena
is then looking at the body.

An arena changes two slots at a time, those on the sides of a gap, and the first
or the last place if there is no such slot. `tied` is this change of slots as a
function, and `Threads.tie` says what it does to the two stretches beside the
gap. With it every edit of the chain is put together from stretches, without
looking at single neighbours again.

`Stores` relates arena and body in full: the slots, both ends, the count, the
clauses and the debug points. The second half reads the questions that callers
ask off the relation, the walks in both directions among them.
-/

namespace InlineCil

/-- The slots of the lines hold their instructions and chain them in order,
between a left and a right neighbour. -/
def Threads (slot? : Place → Option Slot) :
    Option Place → List Line → Option Place → Prop
  | _, [], _ => True
  | left, line :: lines, right =>
      slot? line.place =
          some ⟨line.instruction, left, (lines.head?.map Line.place).or right, true⟩ ∧
        Threads slot? (some line.place) lines right

/-- The slots after the slot of one place was changed, if there is such a place. -/
def amend (slot? : Place → Option Slot) (at? : Option Place) (f : Slot → Slot)
    (place : Place) : Option Slot :=
  if at? = some place then (slot? place).map f else slot? place

theorem amend_of_ne {slot? : Place → Option Slot} {at? : Option Place} {f : Slot → Slot}
    {place : Place} (other : at? ≠ some place) : amend slot? at? f place = slot? place :=
  if_neg other

theorem amend_self {slot? : Place → Option Slot} {f : Slot → Slot} {place : Place} :
    amend slot? (some place) f place = (slot? place).map f :=
  if_pos rfl

/-- The slots after the two sides of a gap got new neighbours. -/
def tied (slot? : Place → Option Slot) (left right next previous : Option Place) :
    Place → Option Slot :=
  amend (amend slot? left fun slot => { slot with after? := next }) right
    fun slot => { slot with before? := previous }

/-- Tying the sides of a gap leaves every slot alone that is not at one of the
lines beside it, whatever the sides are told of each other. -/
theorem tied_of_apart {slot? : Place → Option Slot} {front rear : List Line} {place : Place}
    (apart : ∀ line ∈ front ++ rear, line.place ≠ place) (next previous : Option Place) :
    tied slot? (front.getLast?.map Line.place) (rear.head?.map Line.place) next previous place =
      slot? place := by
  have notRight : rear.head?.map Line.place ≠ some place := by
    intro same
    obtain ⟨head, found, there⟩ := Option.map_eq_some_iff.1 same
    exact apart head (List.mem_append_right front (List.mem_of_head? found)) there
  have notLeft : front.getLast?.map Line.place ≠ some place := by
    intro same
    obtain ⟨last, found, there⟩ := Option.map_eq_some_iff.1 same
    exact apart last (List.mem_append_left rear (List.mem_of_getLast? found)) there
  rw [tied, amend_of_ne notRight, amend_of_ne notLeft]

namespace Threads

variable {slot? slots? : Place → Option Slot} {left right : Option Place} {lines : List Line}

/-- Two stretches side by side are one stretch, each with the end of the other
for its neighbour. Most edits split the list at one line and use this lemma in
both directions. Proof: by induction on the front stretch. -/
theorem append {front rear : List Line} :
    Threads slot? left (front ++ rear) right ↔
      Threads slot? left front ((rear.head?.map Line.place).or right) ∧
        Threads slot? ((front.getLast?.map Line.place).or left) rear right := by
  induction front generalizing left with
  | nil => simp [Threads]
  | cons line front ih =>
    cases front with
    | nil => simp [Threads]
    | cons next front =>
      have last : ((line :: next :: front).getLast?.map Line.place).or left =
          ((next :: front).getLast?.map Line.place).or (some line.place) := by
        cases found : (next :: front).getLast? with
        | none => simp at found
        | some final => simp [List.getLast?_cons_cons, found]
      rw [last]
      simp only [List.cons_append, Threads] at ih ⊢
      rw [ih]
      simp [and_assoc]

/-- A stretch only looks at the slots of its own lines. So it stays a stretch
wherever slots change at other places. -/
theorem congr (threads : Threads slot? left lines right)
    (same : ∀ line ∈ lines, slots? line.place = slot? line.place) :
    Threads slots? left lines right := by
  induction lines generalizing left with
  | nil => trivial
  | cons line lines ih =>
    obtain ⟨held, rest⟩ := threads
    refine ⟨(same line (by simp)).trans held, ih rest fun other member => same other ?_⟩
    exact List.mem_cons_of_mem line member

theorem slot_of_split {before after : List Line} {line : Line}
    (threads : Threads slot? none (before ++ line :: after) none) :
    slot? line.place = some ⟨line.instruction, before.getLast?.map Line.place,
      after.head?.map Line.place, true⟩ := by
  obtain ⟨-, held, -⟩ := append.1 threads
  simpa using held

/-- The line at the right end gets another neighbour. No other line of the
stretch notices, since their places differ from that of the last line. -/
theorem amend_last (threads : Threads slot? left lines right)
    (distinct : (lines.map Line.place).Nodup) (next : Option Place) :
    Threads (amend slot? (lines.getLast?.map Line.place) fun slot => { slot with after? := next })
      left lines next := by
  rcases List.eq_nil_or_concat' lines with rfl | ⟨front, last, rfl⟩
  · trivial
  obtain ⟨earlier, final⟩ := append.1 threads
  obtain ⟨apart, -⟩ := apart_of_nodup distinct
  refine append.2 ⟨(congr earlier ?_ :), ?_, trivial⟩
  · intro line member
    refine amend_of_ne fun same => ?_
    have there : line.place ≠ last.place := Line.isAt_eq_false.1 (apart line member)
    exact there (Option.some.inj (by simpa using same)).symm
  · simp [amend, final.1]

/-- The line at the left end gets another neighbour. The other lines are
elsewhere and keep theirs, so the rest of the stretch is untouched. -/
theorem amend_head (threads : Threads slot? left lines right)
    (distinct : (lines.map Line.place).Nodup) (previous : Option Place) :
    Threads (amend slot? (lines.head?.map Line.place)
      fun slot => { slot with before? := previous }) previous lines right := by
  cases lines with
  | nil => trivial
  | cons line lines =>
    obtain ⟨held, rest⟩ := threads
    refine ⟨by simp [amend, held], congr rest fun other member => amend_of_ne fun same => ?_⟩
    obtain ⟨fresh, -⟩ := List.nodup_cons.1 distinct
    have there : line.place = other.place := by simpa using same
    exact fresh (there ▸ List.mem_map_of_mem member)

/-- Two stretches on the sides of a gap get other neighbours. Each side has its
own neighbour at the gap, so that the two can be the same line, the one that is
linked in, or each other's end. -/
theorem tie {front rear : List Line} {next previous : Option Place}
    (before : Threads slot? left front next) (after : Threads slot? previous rear right)
    (distinct : ((front ++ rear).map Line.place).Nodup) (next' previous' : Option Place) :
    let slots? := tied slot? (front.getLast?.map Line.place) (rear.head?.map Line.place)
      next' previous'
    Threads slots? left front next' ∧ Threads slots? previous' rear right := by
  rw [List.map_append, List.nodup_append] at distinct
  obtain ⟨first, second, apart⟩ := distinct
  constructor
  · refine congr (before.amend_last first next') fun line member => amend_of_ne fun same => ?_
    obtain ⟨head, found, there⟩ := Option.map_eq_some_iff.1 same
    exact apart _ (List.mem_map_of_mem member) _
      (List.mem_map_of_mem (List.mem_of_head? found)) there.symm
  · refine amend_head (congr after fun line member => amend_of_ne fun same => ?_) second previous'
    obtain ⟨last, found, there⟩ := Option.map_eq_some_iff.1 same
    exact apart _ (List.mem_map_of_mem (List.mem_of_getLast? found)) _
      (List.mem_map_of_mem member) there

/-- The linked instructions are changed one by one, where they stand. Slots that
are not linked may change in any way, since no stretch goes through them. -/
theorem map (threads : Threads slot? left lines right) (f : Instruction → Instruction)
    (changed : ∀ place, slots? place = (slot? place).map fun slot =>
      if slot.linked then { slot with instruction := f slot.instruction } else slot) :
    Threads slots? left (lines.map fun line => ⟨line.place, f line.instruction⟩) right := by
  induction lines generalizing left with
  | nil => trivial
  | cons line lines ih =>
    obtain ⟨held, rest⟩ := threads
    refine ⟨?_, ih rest⟩
    simp [changed, held, Function.comp_def]

/-- The instruction of one line is exchanged, and the line stands between the
same neighbours. Proof: the stretch is split at the line and put together again. -/
theorem overwrite {before after : List Line} {line : Line}
    (threads : Threads slot? left (before ++ line :: after) right)
    (distinct : ((before ++ line :: after).map Line.place).Nodup) (i : Instruction) :
    Threads (amend slot? (some line.place) fun slot => { slot with instruction := i })
      left (before ++ ⟨line.place, i⟩ :: after) right := by
  obtain ⟨earlier, later⟩ := apart_of_nodup distinct
  obtain ⟨front, held, rear⟩ := append.1 threads
  refine append.2 ⟨(congr front fun other member => amend_of_ne fun same => ?_ :), ?_,
    congr rear fun other member => amend_of_ne fun same => ?_⟩
  · exact Line.isAt_eq_false.1 (earlier other member) (Option.some.inj same).symm
  · simp [amend_self, held]
  · exact Line.isAt_eq_false.1 (later other member) (Option.some.inj same).symm

end Threads

/-- The arena holds the code, the clauses and the debug points of the body. A
slot that is not linked has no neighbours, so it cannot be mistaken for a part of
the chain. -/
structure Stores (a : Arena) (b : Body) : Prop where
  count : a.slots.size = b.code.next
  threads : Threads a.slot? none b.code.linked none
  apart : ∀ line ∈ b.code.detached, a.slot? line.place = some ⟨line.instruction, none, none, false⟩
  first : a.first? = b.code.first?
  last : a.last? = b.code.last?
  size : a.size = b.code.linked.length
  clauses : a.clauses = b.clauses
  points : a.points = b.points

namespace Arena

variable {a : Arena}

/-- Changing a slot of an arena changes what is found at its place. Where there
is no such slot, nothing is found before and after. -/
theorem slot?_change (a : Arena) (place : Place) (f : Slot → Slot) :
    (a.change place f).slot? = amend a.slot? (some place) f := by
  funext other
  simp only [slot?, change, amend, Array.getElem?_modify, Option.some.injEq]
  by_cases same : place = other
  · simp [same]
  · have apart : place.index ≠ other.index :=
      fun index => same (by cases place; cases other; simp_all)
    simp [same, apart]

/-- What is next to the sides of a gap is kept in their slots, if there are such;
at an end of the chain it is kept by the arena itself. -/
theorem slot?_tie (a : Arena) (left right next previous : Option Place) :
    (a.tie left right next previous).slot? = tied a.slot? left right next previous := by
  have follows : (a.setAfter left next).slot? =
      amend a.slot? left fun slot => { slot with after? := next } := by
    cases left with
    | none => funext place; simp [setAfter, amend, slot?]
    | some place => exact slot?_change a place _
  cases right with
  | none => rw [tied, ← follows]; funext place; simp [tie, setBefore, amend, slot?]
  | some place => rw [tied, ← follows]; exact slot?_change (a.setAfter left next) place _

/-- When the lines after a gap are exchanged, the first place is right again. -/
theorem first_tie {before old : List Line} (new : List Line) (right previous : Option Place)
    (first : a.first? = (before ++ old).head?.map Line.place) :
    (a.tie (before.getLast?.map Line.place) right (new.head?.map Line.place) previous).first? =
      (before ++ new).head?.map Line.place := by
  cases before with
  | nil => cases right <;> rfl
  | cons head before =>
    cases right <;> simpa [tie, setAfter, setBefore, change, List.getLast?_cons] using first

/-- When the lines before a gap are exchanged, the last place is right again.
Tying sets it only where nothing comes after the gap. -/
theorem last_tie {after old : List Line} (new : List Line) (left next : Option Place)
    (last : a.last? = (old ++ after).getLast?.map Line.place) :
    (a.tie left (after.head?.map Line.place) next (new.getLast?.map Line.place)).last? =
      (new ++ after).getLast?.map Line.place := by
  cases after with
  | nil => cases left <;> simp [tie, setAfter, setBefore]
  | cons head after =>
    cases left <;>
      simpa [tie, setAfter, setBefore, change, List.getLast?_append, List.getLast?_cons] using last

@[simp] theorem size_change (a : Arena) (place : Place) (f : Slot → Slot) :
    (a.change place f).slots.size = a.slots.size := by
  simp [change]

theorem tie_rest (a : Arena) (left right next previous : Option Place) :
    (a.tie left right next previous).slots.size = a.slots.size ∧
      (a.tie left right next previous).size = a.size ∧
      (a.tie left right next previous).clauses = a.clauses ∧
      (a.tie left right next previous).points = a.points := by
  cases left <;> cases right <;> simp [tie, setAfter, setBefore, change]

end Arena

namespace Stores

variable {a : Arena} {b : Body} {place : Place}

/-- The empty arena stores the empty body, which is where every run of edits
starts. -/
theorem empty : Stores {} {} where
  count := rfl
  threads := trivial
  apart := by simp
  first := rfl
  last := rfl
  size := rfl
  clauses := rfl
  points := rfl

/-- A place is linked, detached or was never handed out. Each case says what the
slot holds, so this is all that a proof about a single place needs of `Stores`.
In the last case the places accounted for leave no room for a slot. -/
theorem slot_cases (stores : Stores a b) (place : Place) :
    (∃ before line after, line.place = place ∧ b.code.linked = before ++ line :: after ∧
        a.slot? place = some ⟨line.instruction, before.getLast?.map Line.place,
          after.head?.map Line.place, true⟩) ∨
      (b.code.contains place = false ∧ ∃ line ∈ b.code.detached, line.place = place ∧
        a.slot? place = some ⟨line.instruction, none, none, false⟩) ∨
      b.code.contains place = false ∧ (∀ line ∈ b.code.detached, line.place ≠ place) ∧
        a.slot? place = none := by
  cases contained : b.code.contains place with
  | true =>
    obtain ⟨before, line, after, there, split⟩ := Code.exists_split contained
    have held := (split ▸ stores.threads).slot_of_split
    exact .inl ⟨before, line, after, there, split, there ▸ held⟩
  | false =>
    by_cases waiting : ∃ line ∈ b.code.detached, line.place = place
    · obtain ⟨line, member, there⟩ := waiting
      exact .inr (.inl ⟨rfl, line, member, there, there ▸ stores.apart line member⟩)
    · refine .inr (.inr ⟨rfl, fun line member there => waiting ⟨line, member, there⟩, ?_⟩)
      have outside : place ∉ handedOut b.code.next := by
        rw [← b.code.accounted.mem_iff, List.map_append, List.mem_append]
        rintro (linked | detached)
        · obtain ⟨line, member, there⟩ := List.mem_map.1 linked
          simp only [Code.contains, List.any_eq_false] at contained
          exact contained line member (by simp [Line.isAt, there])
        · exact waiting (by simpa using detached)
      rw [mem_handedOut, ← stores.count] at outside
      exact Array.getElem?_eq_none (by omega)

theorem slot_of_split (stores : Stores a b) {before after : List Line} {line : Line}
    (split : b.code.linked = before ++ line :: after) :
    a.slot? line.place = some ⟨line.instruction, before.getLast?.map Line.place,
      after.head?.map Line.place, true⟩ :=
  (split ▸ stores.threads).slot_of_split

theorem linkedSlot_of_split (stores : Stores a b) {before after : List Line} {line : Line}
    (split : b.code.linked = before ++ line :: after) :
    a.linkedSlot? line.place = some ⟨line.instruction, before.getLast?.map Line.place,
      after.head?.map Line.place, true⟩ := by
  rw [Arena.linkedSlot?, stores.slot_of_split split]
  rfl

/-- A place that is not linked has no linked slot, whether it waits or was never
handed out. -/
theorem linkedSlot_of_absent (stores : Stores a b) (absent : b.code.contains place = false) :
    a.linkedSlot? place = none := by
  rcases stores.slot_cases place with ⟨before, line, after, rfl, split, -⟩ |
    ⟨-, line, -, -, held⟩ | ⟨-, -, held⟩
  · rw [Code.contains_of_split split] at absent
    contradiction
  · rw [Arena.linkedSlot?, held]
    rfl
  · rw [Arena.linkedSlot?, held]
    rfl

/-- A place is linked in the arena if it is in the body. Proof: by the split of
the code at the place, as for all that is asked of a single one. -/
theorem contains (stores : Stores a b) (place : Place) :
    a.contains place = b.code.contains place := by
  cases contained : b.code.contains place with
  | true =>
    obtain ⟨before, line, after, rfl, split⟩ := Code.exists_split contained
    simp [Arena.contains, stores.linkedSlot_of_split split]
  | false => simp [Arena.contains, stores.linkedSlot_of_absent contained]

/-- The next place in the arena is the next one in the body. Off the code neither
has one, since only linked slots have neighbours. -/
theorem after? (stores : Stores a b) (place : Place) : a.after? place = b.code.after? place := by
  cases contained : b.code.contains place with
  | true =>
    obtain ⟨before, line, after, rfl, split⟩ := Code.exists_split contained
    simp [Arena.after?, stores.linkedSlot_of_split split, Code.after?_of_split split]
  | false =>
    simp [Arena.after?, stores.linkedSlot_of_absent contained, Code.after?_of_absent contained]

/-- The previous place in the arena is the previous one in the body. In the body
it is found by searching; in the arena it is kept in the slot. -/
theorem before? (stores : Stores a b) (place : Place) :
    a.before? place = b.code.before? place := by
  cases contained : b.code.contains place with
  | true =>
    obtain ⟨before, line, after, rfl, split⟩ := Code.exists_split contained
    simp [Arena.before?, stores.linkedSlot_of_split split, Code.before?_of_split split]
  | false => simp [Arena.before?, stores.linkedSlot_of_absent contained, Code.before?, contained]

/-- What waits in the arena waits in the body. Proof: by the three cases of a
place; a linked one waits in neither, as no place is linked and detached at once. -/
theorem detachedInstruction? (stores : Stores a b) (place : Place) :
    a.detachedInstruction? place = b.code.detachedInstruction? place := by
  rcases stores.slot_cases place with ⟨before, line, after, rfl, split, held⟩ |
    ⟨-, line, member, rfl, held⟩ | ⟨-, absent, held⟩
  · have linked : line ∈ b.code.linked := by simp [split]
    have elsewhere : ∀ other ∈ b.code.detached, other.isAt line.place = false := by
      intro other member
      exact Line.isAt_eq_false.2 (Code.place_ne linked member).symm
    have nothing : b.code.detached.find? (·.isAt line.place) = none :=
      List.find?_eq_none.2 fun other member => by simp [elsewhere other member]
    simp [Arena.detachedInstruction?, held, Code.detachedInstruction?, nothing]
  · simp [Arena.detachedInstruction?, held, Code.detachedInstruction?_of_mem member]
  · have nothing : b.code.detached.find? (·.isAt place) = none :=
      List.find?_eq_none.2 fun other member => by simp [Line.isAt, absent other member]
    simp [Arena.detachedInstruction?, held, Code.detachedInstruction?, nothing]

/-- There are no more lines than slots, so a walk with as many steps as slots
does not end early. -/
theorem length_le (stores : Stores a b) : b.code.linked.length ≤ a.slots.size := by
  have all := b.code.accounted.length_eq
  simp only [List.length_map, List.length_append, handedOut, List.length_range] at all
  rw [stores.count]
  omega

/-- A walk along a stretch with nothing to its right meets its lines in order. By
induction on the lines, each of which costs one step. -/
theorem walk_after (a : Arena) {left : Option Place} {lines : List Line} {steps : Nat}
    (threads : Threads a.slot? left lines none) (enough : lines.length ≤ steps) :
    a.walk Slot.after? steps (lines.head?.map Line.place) = lines := by
  induction lines generalizing left steps with
  | nil => cases steps <;> rfl
  | cons line lines ih =>
    obtain ⟨held, rest⟩ := threads
    cases steps with
    | zero => simp at enough
    | succ steps =>
      have further := ih rest (by simpa using enough)
      simp [Arena.walk, held, further]

/-- A walk back along a stretch with nothing to its left meets its lines in
reverse. The number of steps only has to be large enough, and the lines of the
body are never more than the slots. -/
theorem walk_before (a : Arena) {right : Option Place} {lines : List Line} {steps : Nat}
    (threads : Threads a.slot? none lines right) (enough : lines.length ≤ steps) :
    a.walk Slot.before? steps (lines.getLast?.map Line.place) = lines.reverse := by
  -- From the last line backward: the induction follows the walk, not the list.
  induction lines using List.reverseRecOn generalizing right steps with
  | nil => cases steps <;> rfl
  | append_singleton lines line ih =>
    obtain ⟨rest, held, -⟩ := Threads.append.1 threads
    cases steps with
    | zero => simp at enough
    | succ steps =>
      have further := ih rest (by simpa using enough)
      simp [Arena.walk, held, further]

/-- The walk from the first place meets the lines of the body in order. -/
theorem lines (stores : Stores a b) : a.lines = b.code.linked := by
  rw [Arena.lines, stores.first]
  exact walk_after a stores.threads stores.length_le

theorem backward (stores : Stores a b) : a.backward = b.code.linked.reverse := by
  rw [Arena.backward, stores.last]
  exact walk_before a stores.threads stores.length_le

/-- An arena refers to a place if its linked slots or clauses name it, as the
body does. -/
theorem refersTo (stores : Stores a b) (place : Place) : a.refersTo place = b.refersTo place := by
  rw [Arena.refersTo, Body.refersTo, Code.isTarget, stores.lines, stores.clauses]

end Stores

end InlineCil
