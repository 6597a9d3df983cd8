import InlineCil.Proofs.References
import Mathlib.Data.List.Nodup

/-!
# Lines in order

No place is handed out twice, so a linked line splits the code into the lines
before it and the lines after it in one way only. Looking for the place of the
line finds this split, and changes at the place are changes of the list at the
split.

The functions of the code search the list of lines from one end, so a proof about
them would go by induction on the list each time. `Code.exists_split` does this
once. Every other lemma takes a split as a hypothesis and says what a function
comes to there: what is looked up is the head, the last or the line of one of its
parts, and what is changed is changed between them. Callers that know the shape
of the code give the split themselves.

All of it rests on `Code.nodup_places`. Linked and detached lines together are at
different places, so neither part of a split has a line at the place in the
middle, and a line that waits to be linked is at no linked place.
-/

namespace InlineCil

@[simp] theorem Line.isAt_self (line : Line) : line.isAt line.place = true := by
  simp [Line.isAt]

/-- A line is not at a place exactly if its place is another one. -/
theorem Line.isAt_eq_false {line : Line} {place : Place} :
    line.isAt place = false ↔ line.place ≠ place := by
  simp [Line.isAt]

theorem nodup_handedOut (count : Nat) : (handedOut count).Nodup :=
  List.nodup_range.map fun _ _ same => Place.mk.inj same

/-- The places handed out are those below the next index. So a place with the
next index is one that no line has. -/
theorem mem_handedOut {count : Nat} {place : Place} :
    place ∈ handedOut count ↔ place.index < count := by
  constructor
  · intro member
    obtain ⟨index, inside, rfl⟩ := List.mem_map.1 member
    simpa using inside
  · intro inside
    exact List.mem_map.2 ⟨place.index, by simpa using inside, rfl⟩

section Distinct

variable {before after : List Line} {line : Line}

/-- The lines around a line are at other places. This is what different places
mean for a split, in the form in which searches ask for it. -/
theorem apart_of_nodup (distinct : ((before ++ line :: after).map Line.place).Nodup) :
    (∀ other ∈ before, other.isAt line.place = false) ∧
      ∀ other ∈ after, other.isAt line.place = false := by
  rw [List.map_append, List.map_cons, List.nodup_append, List.nodup_cons] at distinct
  obtain ⟨-, ⟨fresh, -⟩, differ⟩ := distinct
  constructor
  · intro other member
    exact Line.isAt_eq_false.2 (differ _ (List.mem_map_of_mem member) _ (by simp))
  · intro other member
    refine Line.isAt_eq_false.2 fun same => fresh ?_
    exact same ▸ List.mem_map_of_mem member

/-- Filtering for the place of a line gives that line alone. Places are distinct,
so no other line passes the filter. -/
theorem filter_isAt_of_nodup (distinct : ((before ++ line :: after).map Line.place).Nodup) :
    (before ++ line :: after).filter (·.isAt line.place) = [line] := by
  obtain ⟨earlier, later⟩ := apart_of_nodup distinct
  have nothingBefore : before.filter (·.isAt line.place) = [] :=
    List.filter_eq_nil_iff.2 fun other member => by simp [earlier other member]
  have nothingAfter : after.filter (·.isAt line.place) = [] :=
    List.filter_eq_nil_iff.2 fun other member => by simp [later other member]
  simp [nothingBefore, nothingAfter]

/-- Filtering it out leaves the lines before and after, in order. This is what
unlinking does to the list. -/
theorem filter_not_isAt_of_nodup
    (distinct : ((before ++ line :: after).map Line.place).Nodup) :
    (before ++ line :: after).filter (!·.isAt line.place) = before ++ after := by
  obtain ⟨earlier, later⟩ := apart_of_nodup distinct
  have keptBefore : before.filter (!·.isAt line.place) = before :=
    List.filter_eq_self.2 fun other member => by simp [earlier other member]
  have keptAfter : after.filter (!·.isAt line.place) = after :=
    List.filter_eq_self.2 fun other member => by simp [later other member]
  simp [keptBefore, keptAfter]

end Distinct

namespace Code

variable {c : Code} {before after : List Line} {line : Line}

/-- No two lines have one place, be they linked or detached: together they are
the places handed out, in some order. -/
theorem nodup_places (c : Code) : ((c.linked ++ c.detached).map Line.place).Nodup :=
  c.accounted.nodup_iff.2 (nodup_handedOut c.next)

theorem nodup_linked (c : Code) : (c.linked.map Line.place).Nodup := by
  have all := c.nodup_places
  rw [List.map_append] at all
  exact (List.nodup_append.1 all).1

/-- Every line is at a place that was handed out, so the next place is at no line
yet. -/
theorem index_lt (member : line ∈ c.linked ++ c.detached) : line.place.index < c.next :=
  mem_handedOut.1 (c.accounted.mem_iff.1 (List.mem_map_of_mem member))

/-- Linked lines at one place are one line. Their order in the list does not
matter for this. -/
theorem eq_of_place {other : Line} (left : line ∈ c.linked) (right : other ∈ c.linked)
    (same : line.place = other.place) : line = other :=
  List.inj_on_of_nodup_map c.nodup_linked left right same

/-- The lines before and after a linked line are at other places. All lemmas
about a split go through this one. -/
theorem apart (split : c.linked = before ++ line :: after) :
    (∀ other ∈ before, other.isAt line.place = false) ∧
      ∀ other ∈ after, other.isAt line.place = false :=
  apart_of_nodup (split ▸ c.nodup_linked)

theorem linesBefore_of_split (split : c.linked = before ++ line :: after) :
    c.linesBefore line.place = before := by
  obtain ⟨earlier, -⟩ := apart split
  unfold linesBefore
  rw [split, List.takeWhile_append_of_pos (fun other member => by simp [earlier other member])]
  simp

theorem linesFrom_of_split (split : c.linked = before ++ line :: after) :
    c.linesFrom line.place = line :: after := by
  obtain ⟨earlier, -⟩ := apart split
  unfold linesFrom
  rw [split, List.dropWhile_append_of_pos (fun other member => by simp [earlier other member])]
  simp

theorem linesAfter_of_split (split : c.linked = before ++ line :: after) :
    c.linesAfter line.place = after := by
  rw [linesAfter, linesFrom_of_split split, List.tail_cons]

/-- What follows a place is the first line after it, if there is one. -/
theorem following?_of_split (split : c.linked = before ++ line :: after) :
    c.following? line.place = after.head? := by
  rw [following?, linesAfter_of_split split]

theorem after?_of_split (split : c.linked = before ++ line :: after) :
    c.after? line.place = after.head?.map Line.place := by
  rw [after?, following?_of_split split]

theorem contains_of_split (split : c.linked = before ++ line :: after) :
    c.contains line.place = true := by
  simp [contains, split]

theorem before?_of_split (split : c.linked = before ++ line :: after) :
    c.before? line.place = before.getLast?.map Line.place := by
  rw [before?, contains_of_split split, if_pos rfl, linesBefore_of_split split]

theorem line?_of_split (split : c.linked = before ++ line :: after) :
    c.line? line.place = some line := by
  obtain ⟨earlier, -⟩ := apart split
  have absent : before.find? (·.isAt line.place) = none :=
    List.find?_eq_none.2 fun other member => by simp [earlier other member]
  simp [line?, split, absent]

/-- Looking up the instruction at the place finds the one of the line. -/
theorem instruction?_of_split (split : c.linked = before ++ line :: after) :
    c.instruction? line.place = some line.instruction := by
  simp [instruction?, line?_of_split split]

/-- A linked place has a line, which splits the code. The lines before it are
those that the search has passed over. -/
theorem exists_split {place : Place} (contained : c.contains place = true) :
    ∃ before line after, line.place = place ∧ c.linked = before ++ line :: after := by
  obtain ⟨line, member, there⟩ := List.any_eq_true.1 contained
  obtain ⟨before, after, split⟩ := List.mem_iff_append.1 member
  exact ⟨before, line, after, by simpa [Line.isAt] using there, split⟩

theorem linked_unlink (split : c.linked = before ++ line :: after) :
    (c.unlink line.place).linked = before ++ after := by
  simp only [unlink, split]
  exact filter_not_isAt_of_nodup (split ▸ c.nodup_linked)

/-- The line that was unlinked heads the detached ones, where it keeps its
instruction. -/
theorem detached_unlink (split : c.linked = before ++ line :: after) :
    (c.unlink line.place).detached = line :: c.detached := by
  simp only [unlink, split, filter_isAt_of_nodup (split ▸ c.nodup_linked)]
  rfl

/-- Overwriting changes the line in the middle of the split and no other. The
line keeps its place, so the split is the same otherwise. -/
theorem linked_overwrite (split : c.linked = before ++ line :: after) (i : Instruction) :
    (c.overwrite line.place i).linked = before ++ ⟨line.place, i⟩ :: after := by
  obtain ⟨earlier, later⟩ := apart split
  have kept (lines : List Line) (others : ∀ other ∈ lines, other.isAt line.place = false) :
      lines.map (fun other =>
        ⟨other.place, if other.isAt line.place then i else other.instruction⟩) = lines := by
    refine (List.map_congr_left fun other member => ?_).trans (List.map_id lines)
    simp [others other member]
  simp [overwrite, mapLinked, split, kept before earlier, kept after later]

theorem places_overwrite (c : Code) (place : Place) (i : Instruction) :
    (c.overwrite place i).places = c.places := by
  simp [places, overwrite, mapLinked, Function.comp_def]

/-- Changing instructions in place moves no line, so the places after each other
stay so. -/
theorem after?_mapLinked (change : Line → Instruction) (place : Place) :
    (c.mapLinked change).after? place = c.after? place := by
  have still : ((!Line.isAt place ·) ∘ fun line : Line => ⟨line.place, change line⟩) =
      (!Line.isAt place ·) := rfl
  simp only [after?, following?, linesAfter, linesFrom, mapLinked, List.dropWhile_map, still,
    ← List.map_tail, List.head?_map, Option.map_map]
  rfl

/-- Retargeting moves the branches of every linked line. Detached lines are left
as they are, which the list of linked lines does not show. -/
theorem linked_retarget (c : Code) (old new : Place) :
    (c.retarget old new).linked = c.linked.map (Line.moveTargets (single old new)) := by
  simp only [retarget, mapLinked, Instruction.retarget_eq_moveTargets]
  rfl

theorem nodup_detached (c : Code) : (c.detached.map Line.place).Nodup := by
  have all := c.nodup_places
  rw [List.map_append] at all
  exact (List.nodup_append.1 all).2.1

/-- A detached line is linked before an anchor. It is found among the detached
ones, where it is the only one at its place. -/
theorem linked_linkBefore (split : c.linked = before ++ line :: after) {new : Line}
    (waiting : new ∈ c.detached) :
    (c.linkBefore line.place new.place).linked = before ++ new :: line :: after := by
  obtain ⟨front, rear, parts⟩ := List.mem_iff_append.1 waiting
  have alone : c.detached.filter (·.isAt new.place) = [new] := by
    rw [parts, filter_isAt_of_nodup (parts ▸ c.nodup_detached)]
  simp [linkBefore, linesBefore_of_split split, linesFrom_of_split split, alone]

theorem mem_linked_linkBefore (split : c.linked = before ++ line :: after) {new other : Line}
    (waiting : new ∈ c.detached) :
    other ∈ (c.linkBefore line.place new.place).linked ↔ other = new ∨ other ∈ c.linked := by
  rw [linked_linkBefore split waiting, split]
  simp only [List.mem_append, List.mem_cons]
  tauto

theorem mem_detached_linkBefore {anchor place : Place} (waiting : line ∈ c.detached)
    (apart : line.place ≠ place) : line ∈ (c.linkBefore anchor place).detached :=
  List.mem_filter.2 ⟨waiting, by simpa [Line.isAt] using apart⟩

end Code

end InlineCil
