import InlineCil.Proofs.Edits
import InlineCil.Proofs.Layout

/-!
# Removing in any order

Every removal sends references to a neighbour that may be removed next, but where
a reference ends up is told by what is left alone: branches and starts of regions
go to the first line that is left at or after the place they named, or to the
last line that is left; ends of regions go to the first line that is left, or to
the end of the body. So the lines of a set leave in any order with one result, as
long as something is left to refer to.

The occupancy of the whole body, with the positions of the removed lines vacated,
is a description of the result that has no order in it. `remove_one` says that
one removal leads from the body it describes to the body that the next one
describes, and `remove_all` goes through a list of removals. Two lists with the
same lines come to one occupancy and hence to one body.

A survivor is needed. The only line of a body may leave as well if nothing refers
to it, so without one the answers depend on which line is the last to go.
-/

namespace InlineCil

namespace Occupancy

variable {occ : Occupancy} {original b : Body} {gone order : List Place} {place : Place}

/-- Positions that are vacated one after the other are vacated at once. -/
theorem vacate_vacate (occ : Occupancy) (gone : List Place) (place : Place) :
    (occ.vacate gone).vacate [place] = occ.vacate (place :: gone) := by
  funext position
  by_cases first : position = place <;> by_cases later : position ∈ gone <;>
    simp [vacate, first, later]

/-- It does not matter in what order positions were vacated, nor how often one is
listed. -/
theorem vacate_congr (occ : Occupancy) {others : List Place}
    (same : ∀ place, place ∈ gone ↔ place ∈ others) : occ.vacate gone = occ.vacate others := by
  funext position
  simp [vacate, same position]

/-- An original line stands in its own position until it leaves. -/
theorem own_vacate_full (inside : place ∈ original.code.places) (stays : place ∉ gone) :
    ((full original).vacate gone).Own original.code.linked place := by
  obtain ⟨line, member, rfl⟩ := List.mem_map.1 inside
  refine ⟨inside, ?_⟩
  rw [vacate, if_neg stays, full_of_mem member]
  rfl

/-- What stands when lines have left the original code is the rest of it, in
order. So what is left is told by the set of places that left, and not by their
order. -/
theorem standing_vacate_full (inside : ∀ place ∈ gone, place ∈ original.code.places) :
    ((full original).vacate gone).standing original.code.linked =
      original.code.linked.filter (·.place ∉ gone) := by
  have own : ∀ place ∈ gone, (full original).Own original.code.linked place := by
    intro place leaves
    obtain ⟨line, member, rfl⟩ := List.mem_map.1 (inside place leaves)
    exact ⟨List.mem_map_of_mem member, by rw [full_of_mem member]; rfl⟩
  rw [standing_vacate (settled_full original) own fun line member => member,
    standing_full fun line member => member]

namespace Lays

/-- What a body shows once lines have left is the rest of the original places. -/
theorem places_vacated (lays : ((full original).vacate gone).Lays original b)
    (inside : ∀ place ∈ gone, place ∈ original.code.places) :
    b.code.places = original.code.places.filter (· ∉ gone) := by
  rw [Code.places, lays.linked, standing_vacate_full inside, List.map_map, Code.places,
    List.filter_map]
  rfl

/-- A line leaves as long as another one is left, and vacates its position. So
the removal is accepted, as it is not the only line that leaves. -/
theorem remove_one (lays : ((full original).vacate gone).Lays original b)
    (vacated : ∀ place ∈ gone, place ∈ original.code.places)
    (inside : place ∈ original.code.places) (stays : place ∉ gone) {other : Place}
    (survives : other ∈ original.code.places) (left : other ∉ place :: gone) :
    ∃ i left, b.remove place = .ok (i, left) ∧
      ((full original).vacate (place :: gone)).Lays original left := by
  have places := lays.places_vacated vacated
  have linked : place ∈ b.code.places := by
    rw [places]
    exact List.mem_filter.2 ⟨inside, by simpa using stays⟩
  have several : b.code.places ≠ [place] := by
    intro alone
    have among : other ∈ b.code.places := by
      rw [places]
      exact List.mem_filter.2 ⟨survives, by
        simpa using fun hidden => left (List.mem_cons_of_mem place hidden)⟩
    rw [alone, List.mem_singleton] at among
    exact left (among ▸ List.mem_cons_self)
  have accepted := Body.remove_accepted.2 ⟨linked, fun alone => absurd alone several⟩
  cases removed : b.remove place with
  | error fault => simp [removed, Except.isOk, Except.toBool] at accepted
  | ok result =>
    obtain ⟨line, member, rfl⟩ := List.mem_map.1 inside
    have standing : line ∈ ((full original).vacate gone).standing original.code.linked := by
      rw [standing_vacate_full vacated]
      exact List.mem_filter.2 ⟨member, by simpa using stays⟩
    obtain ⟨before, after, parts⟩ := List.mem_iff_append.1 standing
    have laid := lays.removed parts (own_vacate_full inside stays) removed
    rw [vacate_vacate] at laid
    exact ⟨result.1, result.2, rfl, laid⟩

/-- The lines of a list leave one after the other as long as another one is left. By
induction on the list, from the removal of one line. -/
theorem remove_all (lays : ((full original).vacate gone).Lays original b)
    (vacated : ∀ place ∈ gone, place ∈ original.code.places)
    (inside : ∀ place ∈ order, place ∈ original.code.places) (distinct : (order ++ gone).Nodup)
    {other : Place} (survives : other ∈ original.code.places) (left : other ∉ order ++ gone) :
    (∀ answer ∈ (b.run (order.map .remove)).1, answer.isOk = true) ∧
      ((full original).vacate (order ++ gone)).Lays original (b.run (order.map .remove)).2 := by
  induction order generalizing gone b with
  | nil => exact ⟨by simp [Body.run, Edit.runWith], lays⟩
  | cons place order ih =>
    have shifted : (order ++ place :: gone).Perm (place :: order ++ gone) := List.perm_middle
    have apart : place ∉ order ++ gone := (List.nodup_cons.1 distinct).1
    obtain ⟨i, after, removed, laid⟩ := lays.remove_one vacated (inside place (by simp))
      (fun hidden => apart (List.mem_append_right order hidden)) survives
      (fun among => left (by
        simp only [List.mem_cons, List.cons_append, List.mem_append] at among ⊢
        tauto))
    have outcome : b.run ((place :: order).map .remove) =
        (.ok (.taken i) :: (after.run (order.map .remove)).1,
          (after.run (order.map .remove)).2) := by
      have done : b.apply (.remove place) = (.ok (.taken i), after) := by
        simp [Body.apply, removed, Body.taking]
      simp only [Body.run, List.map_cons, Edit.runWith, done]
    obtain ⟨accepted, last⟩ := ih laid
      (fun position hidden => (List.mem_cons.1 hidden).elim
        (fun here => here ▸ inside place (by simp)) (vacated position))
      (fun position among => inside position (List.mem_cons_of_mem place among))
      (shifted.nodup_iff.2 distinct) (fun among => left (shifted.mem_iff.1 among))
    rw [outcome]
    refine ⟨fun answer among => ?_, ?_⟩
    · rcases List.mem_cons.1 among with rfl | among
      · rfl
      · exact accepted answer among
    · rwa [vacate_congr (full original) fun position => shifted.mem_iff] at last

end Lays

end Occupancy

/-- Where everything goes when lines have left a body: what is left stays in
order, and every reference goes where the vacated positions send it. -/
structure Body.Without (b : Body) (gone : List Place) (left : Body) : Prop where
  linked : left.code.linked = (b.code.linked.filter (·.place ∉ gone)).map
    (Line.moveTargets (((Occupancy.full b).vacate gone).start b.code.linked))
  clauses : left.clauses = b.clauses.map (Clause.moveBorders
    (((Occupancy.full b).vacate gone).start b.code.linked)
    (((Occupancy.full b).vacate gone).stop b.code.linked))

/-- The lines of a set that leaves a line linked can be removed in every order:
every removal is accepted, and all orders leave the same lines, branching to the
same places, and the same clauses.

What is left is described by the set alone, so two orders are not compared with
each other but both with the description. -/
theorem Body.removals_agree {b : Body} {gone order : List Place}
    (linked : ∀ place ∈ gone, place ∈ b.code.places) (distinct : gone.Nodup)
    (survivor : ∃ place ∈ b.code.places, place ∉ gone) (reordered : order.Perm gone) :
    let first := b.run (gone.map .remove)
    let second := b.run (order.map .remove)
    (∀ answer ∈ first.1, answer.isOk = true) ∧ (∀ answer ∈ second.1, answer.isOk = true) ∧
      second.2.code.linked = first.2.code.linked ∧ second.2.clauses = first.2.clauses ∧
      b.Without gone first.2 := by
  obtain ⟨other, survives, left⟩ := survivor
  have start : ((Occupancy.full b).vacate []).Lays b b := by
    have none : (Occupancy.full b).vacate [] = Occupancy.full b :=
      funext fun place => if_neg List.not_mem_nil
    exact none ▸ Occupancy.lays_full b
  obtain ⟨accepted, laid⟩ := start.remove_all (by simp) linked (by simpa using distinct) survives
    (by simpa using left)
  obtain ⟨accepted', laid'⟩ := start.remove_all (by simp)
    (fun place among => linked place (reordered.mem_iff.1 among))
    (by simpa using reordered.nodup_iff.2 distinct) survives
    (by simpa [reordered.mem_iff] using left)
  rw [List.append_nil] at laid laid'
  rw [Occupancy.vacate_congr (Occupancy.full b) fun place => reordered.mem_iff] at laid'
  have whole := Occupancy.standing_vacate_full linked
  exact ⟨accepted, accepted', laid'.linked.trans laid.linked.symm,
    laid'.clauses.trans laid.clauses.symm, laid.linked.trans (by rw [whole]), laid.clauses⟩

/-- A branch into a handler of which little is left when lines leave. -/
def Body.handling : Body :=
  { ({} : Body).pushAll [⟨.br, .target ⟨2⟩⟩, ⟨.nop, .none⟩, ⟨.pop, .none⟩, ⟨.nop, .none⟩] with
    clauses := [⟨0, ⟨0⟩, some ⟨1⟩, none, ⟨1⟩, some ⟨3⟩, none⟩] }

/-- The last two lines of the handler leave in either order; the end of the
region is gone with them and the branch goes back to what is left. -/
theorem Body.removals_agree_handling :
    ((∀ place ∈ [⟨2⟩, ⟨3⟩], place ∈ handling.code.places) ∧ [(⟨2⟩ : Place), ⟨3⟩].Nodup ∧
        (∃ place ∈ handling.code.places, place ∉ [⟨2⟩, ⟨3⟩]) ∧
        [(⟨3⟩ : Place), ⟨2⟩].Perm [⟨2⟩, ⟨3⟩]) ∧
      (handling.run [.remove ⟨3⟩, .remove ⟨2⟩]).2.code.linked =
        (handling.run [.remove ⟨2⟩, .remove ⟨3⟩]).2.code.linked ∧
      (handling.run [.remove ⟨3⟩, .remove ⟨2⟩]).2.clauses =
        (handling.run [.remove ⟨2⟩, .remove ⟨3⟩]).2.clauses := by
  have linked : ∀ place ∈ [(⟨2⟩ : Place), ⟨3⟩], place ∈ handling.code.places := by decide
  have distinct : [(⟨2⟩ : Place), ⟨3⟩].Nodup := by decide
  have survivor : ∃ place ∈ handling.code.places, place ∉ [(⟨2⟩ : Place), ⟨3⟩] := by decide
  have swapped : [(⟨3⟩ : Place), ⟨2⟩].Perm [⟨2⟩, ⟨3⟩] := .swap _ _ _
  obtain ⟨-, -, lines, clauses, -⟩ := removals_agree linked distinct survivor swapped
  exact ⟨⟨linked, distinct, survivor, swapped⟩, lines, clauses⟩

end InlineCil
