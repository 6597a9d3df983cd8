import InlineCil.Edit
import InlineCil.Proofs.Removal
import Mathlib.Data.List.TakeWhile

/-!
# Edits of a body

Seen from outside, the code of a body is its list of linked places. Each edit
that is accepted changes this list as its name says, and each edit that is
refused leaves everything that is linked as it was. When an edit is accepted
hangs on the list alone, but for the one removal that would leave references
without a target.

`Edit.onPlaces`, `Edit.onClauses` and `Edit.onPoints` say what an accepted edit
makes of the list, of the clauses and of the debug points. `Edit.Fits` says when
it is accepted. None of them mentions lines, splits or neighbours in the code,
only the list of places and the references of clauses.

`Body.obeys` puts them together: every edit of every body does as it should. Its
parts are one lemma for each edit on what it changes, and one on when it is
accepted, since an edit that is refused may still have handed out a place.
-/

namespace InlineCil

namespace Code

variable {c : Code} {place : Place}

theorem contains_iff : c.contains place = true ↔ place ∈ c.places := by
  simp [contains, places, Line.isAt]

theorem after?_of_absent (absent : c.contains place = false) :
    c.after? place = none := by
  simp only [contains, List.any_eq_false] at absent
  have nothing : c.linesFrom place = [] :=
    List.dropWhile_eq_nil_iff.2 fun line member => by simpa using absent line member
  simp [after?, following?, linesAfter, nothing]

theorem instruction?_of_absent
    (absent : c.contains place = false) : c.instruction? place = none := by
  simp only [contains, List.any_eq_false] at absent
  exact Option.map_eq_none_iff.2 (List.find?_eq_none.2 absent)

/-- What comes after something is linked itself, as it is the next line of the
list. -/
theorem contains_of_after? {next : Place} (found : c.after? place = some next) :
    c.contains next = true := by
  cases contained : c.contains place with
  | false => simp [after?_of_absent contained] at found
  | true =>
    obtain ⟨before, line, after, rfl, split⟩ := exists_split contained
    rw [after?_of_split split] at found
    obtain ⟨following, head, rfl⟩ := Option.map_eq_some_iff.1 found
    simp only [contains, split, List.any_append, List.any_cons, Bool.or_eq_true]
    exact .inr (.inr (List.any_eq_true.2 ⟨following, List.mem_of_head? head, following.isAt_self⟩))

theorem linked_linkLast {new : Line} (waiting : new ∈ c.detached) :
    (c.linkLast new.place).linked = c.linked ++ [new] := by
  obtain ⟨front, rear, parts⟩ := List.mem_iff_append.1 waiting
  have alone : c.detached.filter (·.isAt new.place) = [new] := by
    rw [parts, filter_isAt_of_nodup (parts ▸ c.nodup_detached)]
  simp [linkLast, alone]

theorem place_ne {line other : Line} (linked : line ∈ c.linked)
    (detached : other ∈ c.detached) : line.place ≠ other.place := by
  have all := c.nodup_places
  rw [List.map_append] at all
  exact (List.nodup_append.1 all).2.2 _ (List.mem_map_of_mem linked) _
    (List.mem_map_of_mem detached)

/-- The instruction of a detached line is found at its place. Detached lines are
at distinct places too, so no other one is found before it. -/
theorem detachedInstruction?_of_mem {line : Line} (member : line ∈ c.detached) :
    c.detachedInstruction? line.place = some line.instruction := by
  obtain ⟨front, rear, parts⟩ := List.mem_iff_append.1 member
  obtain ⟨earlier, -⟩ := apart_of_nodup (parts ▸ c.nodup_detached)
  have absent : front.find? (·.isAt line.place) = none :=
    List.find?_eq_none.2 fun other among => by simp [earlier other among]
  simp [detachedInstruction?, parts, absent]

/-- Two places next to each other split the code. This turns a statement about
the list of places into one about the lines. -/
theorem exists_split_of_infix {left right : Place} (next : [left, right] <:+: c.places) :
    ∃ before first second after, first.place = left ∧ second.place = right ∧
      c.linked = before ++ first :: second :: after := by
  obtain ⟨front, rear, parts⟩ := next
  rw [List.append_assoc, places] at parts
  obtain ⟨before, rest, split, -, mapped⟩ := List.map_eq_append_iff.1 parts.symm
  obtain ⟨first, rest, rfl, rfl, further⟩ := List.map_eq_cons_iff.1 mapped
  obtain ⟨second, after, rfl, rfl, -⟩ := List.map_eq_cons_iff.1 further
  exact ⟨before, first, second, after, rfl, rfl, split⟩

/-- One place comes after another if they stand side by side in the list. Places
occur once, so at most one place can come after another. -/
theorem after?_eq_some_iff {next : Place} :
    c.after? place = some next ↔ [place, next] <:+: c.places := by
  constructor
  · intro found
    cases contained : c.contains place with
    | false => simp [after?_of_absent contained] at found
    | true =>
      obtain ⟨before, line, after, rfl, split⟩ := exists_split contained
      rw [after?_of_split split] at found
      obtain ⟨following, head, rfl⟩ := Option.map_eq_some_iff.1 found
      obtain ⟨rest, rfl⟩ := List.head?_eq_some_iff.1 head
      exact ⟨before.map Line.place, rest.map Line.place, by simp [places, split]⟩
  · intro next
    obtain ⟨before, first, second, after, rfl, rfl, split⟩ := exists_split_of_infix next
    simp [after?_of_split split]

/-- One place comes before another if they stand side by side in the list.
Looking back is thus the converse of looking forward, though the two are defined
separately. -/
theorem before?_eq_some_iff {previous : Place} :
    c.before? place = some previous ↔ [previous, place] <:+: c.places := by
  constructor
  · intro found
    cases contained : c.contains place with
    | false => simp [before?, contained] at found
    | true =>
      obtain ⟨before, line, after, rfl, split⟩ := exists_split contained
      rw [before?_of_split split] at found
      obtain ⟨preceding, last, rfl⟩ := Option.map_eq_some_iff.1 found
      obtain ⟨front, rfl⟩ := List.getLast?_eq_some_iff.1 last
      exact ⟨front.map Line.place, after.map Line.place, by simp [places, split]⟩
  · intro next
    obtain ⟨before, first, second, after, rfl, rfl, split⟩ := exists_split_of_infix next
    have split' : c.linked = (before ++ [first]) ++ second :: after := by simpa using split
    simp [before?_of_split split']

end Code

namespace Edit

/-- The list after an edit that is accepted; `fresh` is the next place to be
handed out. -/
def onPlaces (fresh : Place) (places : List Place) : Edit → List Place
  | .push _ => places ++ [fresh]
  | .create _ => places
  | .insertBefore anchor _ => places.insertIdx (places.idxOf anchor) fresh
  | .insertAfter anchor _ => places.insertIdx (places.idxOf anchor + 1) fresh
  | .linkBefore anchor place => places.insertIdx (places.idxOf anchor) place
  | .replace _ _ => places
  | .replaceWith old new => places.replace old new
  | .remove place => places.erase place
  | .clear => []

/-- The place after another one in the list. -/
def next? (places : List Place) (place : Place) : Option Place := places[places.idxOf place + 1]?

/-- The place that takes over from another one in the list: the one after it, or
the one before it if it is the last. -/
def heir (places : List Place) (place : Place) : Place :=
  ((next? places place).or (places.take (places.idxOf place)).getLast?).getD place

/-- The clauses after an edit that is accepted. The borders at a place that is
replaced go to the place that replaces it. Those at a place that leaves go to the
next one; from the last place the starts of regions go back, and the ends go to
the end of the body. Clauses follow nothing else. -/
def onClauses (places : List Place) (clauses : List Clause) : Edit → List Clause
  | .replaceWith old new =>
      clauses.map (Clause.moveBorders (single old new) fun place => some (single old new place))
  | .remove place =>
      clauses.map (Clause.moveBorders (single place (heir places place))
        (singleEnd place (next? places place)))
  | .clear => []
  | _ => clauses

/-- The debug points after an edit that is accepted: they stay at their places,
whatever becomes of these, until everything is dropped. -/
def onPoints (points : List DebugPoint) : Edit → List DebugPoint
  | .clear => []
  | _ => points

/-- The places that an edit takes as linked are in the list, a place that it
links was handed out and is not in the list, and the only place of the list
leaves only if nothing refers to it. -/
def Fits (count : Nat) (refersTo : Place → Bool) (places : List Place) : Edit → Prop
  | .push _ | .create _ | .clear => True
  | .insertBefore anchor _ | .insertAfter anchor _ => anchor ∈ places
  | .linkBefore anchor place => anchor ∈ places ∧ place.index < count ∧ place ∉ places
  | .replace place _ => place ∈ places
  | .replaceWith old new => old ∈ places ∧ new.index < count ∧ new ∉ places
  | .remove place => place ∈ places ∧ (places = [place] → refersTo place = false)

/-- The edit hands out a place, even if it is refused. -/
def handsOut : Edit → Bool
  | .push _ | .create _ | .insertBefore _ _ | .insertAfter _ _ => true
  | _ => false

end Edit

namespace Body

variable {b : Body}

/-- A line is linked before a linked one if it waits to be linked. The body that
is left differs in its code only. -/
theorem linkBefore_eq_ok {left : Body} {anchor place : Place} :
    b.linkBefore anchor place = .ok left ↔ b.code.contains anchor = true ∧
      (∃ new ∈ b.code.detached, new.place = place) ∧
      left = { b with code := b.code.linkBefore anchor place } := by
  have waits : (b.code.detachedInstruction? place).isNone = false ↔
      ∃ new ∈ b.code.detached, new.place = place := by
    simp [Code.detachedInstruction?, Line.isAt]
  rw [← waits, linkBefore]
  cases b.code.contains anchor <;> cases (b.code.detachedInstruction? place).isNone <;>
    simp [eq_comm]

/-- The newest line waits to be linked, at the place that was handed out for it. -/
theorem mem_create (b : Body) (i : Instruction) :
    ⟨(b.create i).1, i⟩ ∈ (b.create i).2.code.detached := by
  simp [create, Code.create]

section Anchored

variable {before after : List Place} {anchor : Place}

/-- Inserting at the index of a place puts the new one before it, as long as the
place does not occur earlier. -/
theorem insertIdx_idxOf (fresh : Place) (absent : anchor ∉ before) :
    (before ++ anchor :: after).insertIdx ((before ++ anchor :: after).idxOf anchor) fresh =
      before ++ fresh :: anchor :: after := by
  rw [List.idxOf_append_of_notMem absent, List.idxOf_cons_self, Nat.add_zero]
  clear absent
  induction before with
  | nil => rfl
  | cons place before ih => simpa using ih

/-- Inserting at the next index puts the new place after it. The anchor must not
occur earlier, which is so in a list without repetitions. -/
theorem insertIdx_idxOf_succ (fresh : Place) (absent : anchor ∉ before) :
    (before ++ anchor :: after).insertIdx ((before ++ anchor :: after).idxOf anchor + 1) fresh =
      before ++ anchor :: fresh :: after := by
  rw [List.idxOf_append_of_notMem absent, List.idxOf_cons_self, Nat.add_zero]
  clear absent
  induction before with
  | nil => rfl
  | cons place before ih => simpa using ih

end Anchored

/-- Where the lines split, so do the places, and the place in the middle does not
occur before. So its index is the number of lines before it. -/
theorem places_of_split {before after : List Line} {line : Line}
    (split : b.code.linked = before ++ line :: after) :
    b.code.places = before.map Line.place ++ line.place :: after.map Line.place ∧
      line.place ∉ before.map Line.place := by
  have places : b.code.places = before.map Line.place ++ line.place :: after.map Line.place := by
    simp [Code.places, split]
  refine ⟨places, fun among => ?_⟩
  have distinct : b.code.places.Nodup := b.code.nodup_linked
  rw [places, List.nodup_append] at distinct
  exact distinct.2.2 _ among _ List.mem_cons_self rfl

/-- A line is linked before its anchor, and the list is otherwise as it was. This
is how the edit is described on lists: an insertion at the index of the anchor. -/
theorem places_linkBefore {anchor place : Place} {left : Body}
    (linked : b.linkBefore anchor place = .ok left) :
    left.code.places = b.code.places.insertIdx (b.code.places.idxOf anchor) place := by
  obtain ⟨contained, ⟨new, waiting, rfl⟩, rfl⟩ := linkBefore_eq_ok.1 linked
  obtain ⟨before, line, after, rfl, split⟩ := Code.exists_split contained
  obtain ⟨places, absent⟩ := places_of_split split
  rw [places, insertIdx_idxOf new.place absent, Code.places, Code.linked_linkBefore split waiting]
  simp

/-- The neighbours of a place in the list are those of its line. So whoever
inherits the references to it can be told from the list alone. -/
theorem next?_of_split {before after : List Line} {line : Line}
    (split : b.code.linked = before ++ line :: after) :
    Edit.next? b.code.places line.place = after.head?.map Line.place ∧
      Edit.heir b.code.places line.place = heir before line after := by
  obtain ⟨places, absent⟩ := places_of_split split
  have index : b.code.places.idxOf line.place = (before.map Line.place).length := by
    rw [places, List.idxOf_append_of_notMem absent, List.idxOf_cons_self, Nat.add_zero]
  have next : Edit.next? b.code.places line.place = after.head?.map Line.place := by
    rw [Edit.next?, index, places, List.getElem?_append_right (Nat.le_add_right _ _),
      Nat.add_sub_cancel_left, List.getElem?_cons_succ, ← List.head?_eq_getElem?, List.head?_map]
  refine ⟨next, ?_⟩
  rw [Edit.heir, next, index, places, List.take_left' rfl, List.getLast?_map, heir]

/-- A line that leaves is erased from the list, and the borders at it go to its
neighbours. Points stay where they are. -/
theorem shape_remove {place : Place} {i : Instruction} {left : Body}
    (removed : b.remove place = .ok (i, left)) :
    left.code.places = b.code.places.erase place ∧
      left.clauses = Edit.onClauses b.code.places b.clauses (.remove place) ∧
      left.points = b.points := by
  obtain ⟨before, line, after, rfl, split⟩ := Code.exists_split (contains_of_remove removed)
  obtain ⟨places, absent⟩ := places_of_split split
  obtain ⟨next, heir⟩ := next?_of_split split
  have shed := sheds_of_remove split removed
  refine ⟨?_, ?_, shed.points⟩
  · rw [places, List.erase_append_right _ absent, List.erase_cons_head, shed.places,
      List.map_append]
  · rw [shed.clauses, Edit.onClauses, next, heir]

/-- A line that is replaced hands all its references to the waiting line that
comes to stand where it stood. -/
theorem sheds_of_replaceWith {old new : Place} {i : Instruction} {left : Body}
    (replaced : b.replaceWith old new = .ok (i, left)) :
    ∃ before line after fresh, line.place = old ∧ fresh.place = new ∧
      b.code.linked = before ++ line :: after ∧ fresh ∈ b.code.detached ∧
      { b with code := b.code.linkBefore old new : Body }.Sheds (before ++ fresh :: after) [line]
        (single old new) (singleEnd old (some new)) left := by
  obtain ⟨contained, fresh, waiting, rfl⟩ := waiting_of_replaceWith replaced
  obtain ⟨before, line, after, rfl, split⟩ := Code.exists_split contained
  obtain ⟨_, left', again, sheds⟩ := replaceWith_of_split split waiting
  obtain ⟨-, rfl⟩ := Prod.mk.inj (Except.ok.inj (again.symm.trans replaced))
  exact ⟨before, line, after, fresh, rfl, rfl, split, waiting, sheds⟩

/-- A place that is replaced is renamed in the list and in the clauses. Debug
points are not renamed, so one at the old place is off the code then. -/
theorem shape_replaceWith {old new : Place} {i : Instruction} {left : Body}
    (replaced : b.replaceWith old new = .ok (i, left)) :
    left.code.places = b.code.places.replace old new ∧
      left.clauses = Edit.onClauses b.code.places b.clauses (.replaceWith old new) ∧
      left.points = b.points := by
  obtain ⟨before, line, after, fresh, rfl, rfl, split, -, sheds⟩ := sheds_of_replaceWith replaced
  obtain ⟨places, absent⟩ := places_of_split split
  refine ⟨?_, ?_, sheds.points⟩
  · rw [places, List.replace_append_right absent, List.replace_cons_self, sheds.places,
      List.map_append, List.map_cons]
  · rw [sheds.clauses, singleEnd_some]
    rfl

theorem shape_replace {place : Place} {i : Instruction} {result : Instruction × Body}
    (replaced : b.replace place i = .ok result) : result.2.code.places = b.code.places ∧
      result.2.clauses = b.clauses ∧ result.2.points = b.points := by
  rw [eq_of_replace replaced]
  refine ⟨?_, rfl, rfl⟩
  simp [Code.places, Code.overwrite, Code.mapLinked, Function.comp_def]

/-- A new line comes in after its anchor, whatever stands there. Proof: with a
line after the anchor it is linked before that one, and else it is linked last. -/
theorem insertAfter_of_split {before after : List Line} {line : Line}
    (split : b.code.linked = before ++ line :: after) (i : Instruction) :
    ∃ left, b.insertAfter line.place i = (.ok ⟨b.code.next⟩, left) ∧
      left.code.linked = before ++ line :: ⟨⟨b.code.next⟩, i⟩ :: after ∧
      left.clauses = b.clauses ∧ left.points = b.points := by
  have created : (b.create i).2.code.linked = before ++ line :: after := split
  have waiting := b.mem_create i
  have after? := Code.after?_of_split created
  simp only [insertAfter, Code.contains_of_split created]
  cases after with
  | nil =>
    rw [List.head?_nil, Option.map_none] at after?
    rw [after?]
    refine ⟨_, rfl, ?_, rfl, rfl⟩
    rw [Code.linked_linkLast waiting, created]
    simp [create]
  | cons next after =>
    rw [List.head?_cons, Option.map_some] at after?
    rw [after?]
    have apart : (b.create i).2.code.linked = (before ++ [line]) ++ next :: after := by
      rw [created, List.append_assoc, List.singleton_append]
    refine ⟨_, rfl, ?_, rfl, rfl⟩
    rw [Code.linked_linkBefore apart waiting]
    simp [create]

/-- A refused insertion has still handed out its place, so a caller sees a later
index next time. -/
theorem insertAfter_of_absent {anchor : Place} {i : Instruction}
    (absent : b.code.contains anchor = false) :
    b.insertAfter anchor i = (.error (.dangling anchor), (b.create i).2) := by
  have still : (b.create i).2.code.contains anchor = false := absent
  simp [insertAfter, still]

theorem exists_of_taking {result : Except Fault (Instruction × Body)}
    (accepted : (b.taking result).1.isOk = true) :
    ∃ i, result = .ok (i, (b.taking result).2) := by
  cases result with
  | ok result => exact ⟨result.1, rfl⟩
  | error fault => simp [taking, Except.isOk, Except.toBool] at accepted

/-- A place waits to be linked if it was handed out and is not linked. Every
place that was handed out is accounted for, in one of the two lists. -/
theorem waits_iff {place : Place} : (∃ line ∈ b.code.detached, line.place = place) ↔
    place.index < b.code.next ∧ place ∉ b.code.places := by
  rw [← mem_handedOut, ← b.code.accounted.mem_iff, List.map_append, List.mem_append, Code.places]
  constructor
  · rintro ⟨line, member, rfl⟩
    refine ⟨.inr (List.mem_map_of_mem member), fun linked => ?_⟩
    obtain ⟨other, among, same⟩ := List.mem_map.1 linked
    exact Code.place_ne among member same
  · rintro ⟨linked | detached, outside⟩
    · exact absurd linked outside
    · exact List.mem_map.1 detached

/-- A line leaves if it is linked, and the only one if nothing refers to it. With
another line left there is always somewhere for the references to go. -/
theorem remove_accepted {place : Place} : (b.remove place).isOk = true ↔
    place ∈ b.code.places ∧ (b.code.places = [place] → b.refersTo place = false) := by
  rw [← Code.contains_iff]
  cases contained : b.code.contains place with
  | false => simp [remove, contained, Except.isOk, Except.toBool]
  | true =>
    obtain ⟨before, line, after, rfl, split⟩ := Code.exists_split contained
    obtain ⟨places, -⟩ := places_of_split split
    rw [remove_of_split split, places]
    cases heir : (after.head?.map Line.place).or (before.getLast?.map Line.place) with
    | none =>
      obtain ⟨noNext, noPrevious⟩ := Option.or_eq_none_iff.1 heir
      obtain rfl : after = [] := by simpa using noNext
      obtain rfl : before = [] := by simpa using noPrevious
      cases b.refersTo line.place <;> simp [Except.isOk, Except.toBool]
    | some start =>
      have several : before.map Line.place ++ line.place :: after.map Line.place ≠ [line.place] := by
        intro alone
        have count := congrArg List.length alone
        simp only [List.length_append, List.length_map, List.length_cons, List.length_nil] at count
        obtain rfl : before = [] := List.eq_nil_of_length_eq_zero (by omega)
        obtain rfl : after = [] := List.eq_nil_of_length_eq_zero (by omega)
        simp at heir
      simp [several, Except.isOk, Except.toBool]

/-- A line is linked before an anchor if the anchor is linked and the line waits:
its place has been handed out and is not linked. -/
theorem linkBefore_accepted {anchor place : Place} : (b.linkBefore anchor place).isOk = true ↔
    anchor ∈ b.code.places ∧ place.index < b.code.next ∧ place ∉ b.code.places := by
  rw [← waits_iff, ← Code.contains_iff]
  constructor
  · intro accepted
    cases linked : b.linkBefore anchor place with
    | error fault => simp [linked, Except.isOk, Except.toBool] at accepted
    | ok left =>
      obtain ⟨contained, waiting, -⟩ := linkBefore_eq_ok.1 linked
      exact ⟨contained, waiting⟩
  · rintro ⟨contained, waiting⟩
    rw [linkBefore_eq_ok.2 ⟨contained, waiting, rfl⟩]
    rfl

/-- A line is put into the position of another if that one is linked and the line
waits. Whether anything refers to the old line does not matter, for the
references go to the new one. -/
theorem replaceWith_accepted {old new : Place} : (b.replaceWith old new).isOk = true ↔
    old ∈ b.code.places ∧ new.index < b.code.next ∧ new ∉ b.code.places := by
  rw [← waits_iff, ← Code.contains_iff]
  constructor
  · intro accepted
    cases replaced : b.replaceWith old new with
    | error fault => simp [replaced, Except.isOk, Except.toBool] at accepted
    | ok result => exact waiting_of_replaceWith replaced
  · rintro ⟨contained, line, waiting, rfl⟩
    obtain ⟨before, old, after, rfl, split⟩ := Code.exists_split contained
    obtain ⟨i, left, replaced, -⟩ := replaceWith_of_split split waiting
    rw [replaced]
    rfl

/-- An instruction is overwritten if it is linked. What the new one is and where
it goes is not checked by this edit. -/
theorem replace_accepted {place : Place} {i : Instruction} :
    (b.replace place i).isOk = true ↔ place ∈ b.code.places := by
  rw [← Code.contains_iff]
  cases contained : b.code.contains place with
  | false =>
    simp [replace, Code.instruction?_of_absent contained, Except.isOk, Except.toBool]
  | true =>
    obtain ⟨before, line, after, rfl, split⟩ := Code.exists_split contained
    simp [replace_of_split split, Except.isOk, Except.toBool]

/-- What an edit does to a body, seen from its list of places. Accepted, it fits
and changes list, clauses and points as it should; refused, it does not fit and
changes nothing that is linked. -/
def Obeys (b : Body) (edit : Edit) : Except Fault Answer × Body → Prop
  | (.ok _, left) => edit.Fits b.code.next b.refersTo b.code.places ∧
      left.code.places = edit.onPlaces ⟨b.code.next⟩ b.code.places ∧
      left.clauses = edit.onClauses b.code.places b.clauses ∧
      left.points = edit.onPoints b.points
  | (.error _, left) => ¬ edit.Fits b.code.next b.refersTo b.code.places ∧
      left.code.linked = b.code.linked ∧ left.clauses = b.clauses ∧ left.points = b.points

/-- A change that takes an instruction obeys if it is accepted where it should
be. -/
theorem obeys_taking {edit : Edit} {result : Except Fault (Instruction × Body)}
    (accepted : result.isOk = true ↔ edit.Fits b.code.next b.refersTo b.code.places)
    (shape : ∀ i left, result = .ok (i, left) →
      left.code.places = edit.onPlaces ⟨b.code.next⟩ b.code.places ∧
        left.clauses = edit.onClauses b.code.places b.clauses ∧
        left.points = edit.onPoints b.points) :
    b.Obeys edit (b.taking result) := by
  cases result with
  | error fault => exact ⟨fun fits => Bool.false_ne_true (accepted.2 fits), rfl, rfl, rfl⟩
  | ok result => exact ⟨accepted.1 rfl, shape result.1 result.2 rfl⟩

/-- Every edit of every body obeys, by cases on the edit. A refused edit is left
with the list, the clauses and the points as they were, which each case shows by
the rule that says when its edit is accepted. -/
theorem obeys (b : Body) (edit : Edit) : b.Obeys edit (b.apply edit) := by
  cases edit with
  | push i =>
    refine ⟨trivial, ?_, rfl, rfl⟩
    have linked := Code.linked_linkLast (b.mem_create i)
    exact (congrArg (List.map Line.place) linked).trans List.map_append
  | create i => exact ⟨trivial, rfl, rfl, rfl⟩
  | insertBefore anchor i =>
    simp only [apply, insertBefore]
    cases linked : (b.create i).2.linkBefore anchor (b.create i).1 with
    | ok left =>
      obtain ⟨contained, -, rest⟩ := linkBefore_eq_ok.1 linked
      have places := places_linkBefore linked
      exact ⟨Code.contains_iff.1 contained, places, by rw [rest]; rfl, by rw [rest]; rfl⟩
    | error fault =>
      refine ⟨fun member => ?_, rfl, rfl, rfl⟩
      have again : anchor ∈ (b.create i).2.code.places := member
      have accepted := linkBefore_eq_ok.2
        ⟨Code.contains_iff.2 again, ⟨_, b.mem_create i, rfl⟩, rfl⟩
      exact absurd (linked.symm.trans accepted) (by simp)
  | insertAfter anchor i =>
    cases contained : b.code.contains anchor with
    | true =>
      obtain ⟨before, line, after, rfl, split⟩ := Code.exists_split contained
      obtain ⟨places, absent⟩ := places_of_split split
      obtain ⟨left, inserted, linked, clauses, points⟩ := insertAfter_of_split split i
      simp only [apply, inserted]
      refine ⟨Code.contains_iff.1 contained, ?_, clauses, points⟩
      rw [Edit.onPlaces, places, insertIdx_idxOf_succ _ absent, Code.places, linked]
      simp
    | false =>
      simp only [apply, insertAfter_of_absent contained]
      refine ⟨fun member => ?_, rfl, rfl, rfl⟩
      rw [Code.contains_iff.2 member] at contained
      contradiction
  | linkBefore anchor place =>
    have accepted := @linkBefore_accepted b anchor place
    simp only [apply]
    cases linked : b.linkBefore anchor place with
    | ok left =>
      obtain ⟨-, -, rest⟩ := linkBefore_eq_ok.1 linked
      exact ⟨accepted.1 (by rw [linked]; rfl), places_linkBefore linked, by rw [rest]; rfl,
        by rw [rest]; rfl⟩
    | error fault =>
      refine ⟨fun fits => ?_, rfl, rfl, rfl⟩
      have succeeds := accepted.2 fits
      rw [linked] at succeeds
      contradiction
  | replace place i =>
    exact obeys_taking replace_accepted fun i left replaced => shape_replace replaced
  | replaceWith old new =>
    exact obeys_taking replaceWith_accepted fun i left replaced => shape_replaceWith replaced
  | remove place =>
    exact obeys_taking remove_accepted fun i left removed => shape_remove removed
  | clear => exact ⟨trivial, rfl, rfl, rfl⟩

end Body

end InlineCil
