import InlineCil.Proofs.Removal
import Mathlib.Data.List.TakeWhile

/-!
# Who stands where

A pass empties the positions of the original lines and puts other lines into
them, but it never opens new positions. An occupancy says what stands in each
original position now. All that happens to references follows from it: they go to
the first line at or after the position they named, whatever happened in between
and however often they were moved.

This is why a pass needs no history to account for its references. `start` and
`stop` are computed from the original code and the occupancy alone. The lemmas of
the second half say that the moves a body makes when lines leave or come in are
the ones that lead from `start` and `stop` of the old occupancy to those of the
new one.

Three kinds of changes are enough for all rules. A run of lines leaves and a line
after it takes over its references; the last line leaves, and its references go
back; another line comes into a position that is not empty.
-/

namespace InlineCil

/-- What stands in the position that was a place's originally, before its
branches are moved. -/
abbrev Occupancy := Place → Option Line

namespace Occupancy

/-- The lines that stand in the positions of lines, in order. -/
def standing (occ : Occupancy) (lines : List Line) : List Line :=
  lines.filterMap fun line => occ line.place

/-- The first place at or after an original position where something stands.
There is none if all positions from this one on are empty. -/
def resting (occ : Occupancy) (original : List Line) (place : Place) : Option Place :=
  (occ.standing (original.dropWhile (!·.isAt place))).head?.map Line.place

/-- The last place where something stands, which takes over branches to code
after which nothing is left. -/
def last (occ : Occupancy) (original : List Line) : Option Place :=
  (occ.standing original).getLast?.map Line.place

/-- Where branches and starts of regions go that named a place: to the first line
at or after its position, or to the last line if there is none. -/
def start (occ : Occupancy) (original : List Line) (place : Place) : Place :=
  if place ∈ original.map Line.place then
    ((occ.resting original place).or (occ.last original)).getD place
  else place

/-- Where ends of regions go that named a place: to the first line at or after
its position, or to the end of the body. -/
def stop (occ : Occupancy) (original : List Line) (place : Place) : Option Place :=
  if place ∈ original.map Line.place then occ.resting original place else some place

/-- Nothing stands at some places any more. -/
def vacate (occ : Occupancy) (gone : List Place) : Occupancy :=
  fun place => if place ∈ gone then none else occ place

/-- Another line stands at a place. -/
def put (occ : Occupancy) (position : Place) (line : Line) : Occupancy :=
  fun place => if place = position then some line else occ place

/-- Every line stands in its own position, or comes from outside of the original
code. -/
def Settled (occ : Occupancy) (original : List Line) : Prop :=
  ∀ line ∈ original, ∀ now, occ line.place = some now →
    now.place = line.place ∨ now.place ∉ original.map Line.place

variable {occ : Occupancy} {original lines before after : List Line} {place : Place}

/-- What stands in two stretches of positions is what stands in each of them, one
after the other. -/
theorem standing_append (first second : List Line) :
    occ.standing (first ++ second) = occ.standing first ++ occ.standing second :=
  List.filterMap_append

/-- Where references to an original position go is told by what stands from it
on. Nothing that stands before the position is considered. -/
theorem resting_of_split {line : Line} (distinct : (original.map Line.place).Nodup)
    (split : original = before ++ line :: after) :
    occ.resting original line.place = (occ.standing (line :: after)).head?.map Line.place := by
  subst split
  obtain ⟨earlier, -⟩ := apart_of_nodup distinct
  unfold resting
  rw [List.dropWhile_append_of_pos (fun other member => by simp [earlier other member])]
  simp

/-- References outside of the original code stay. Labels have such places: they
are handed out during the pass, so no original position is theirs. -/
theorem start_of_not_mem (outside : place ∉ original.map Line.place) :
    occ.start original place = place := if_neg outside

/-- An end of a region that is no original position stays as well. -/
theorem stop_of_not_mem (outside : place ∉ original.map Line.place) :
    occ.stop original place = some place := if_neg outside

/-- Only references to original positions rest somewhere, since the search starts
at the position that was named. -/
theorem mem_of_resting {found : Place} (rests : occ.resting original place = some found) :
    place ∈ original.map Line.place := by
  by_contra outside
  have nothing : original.dropWhile (!·.isAt place) = [] := by
    refine List.dropWhile_eq_nil_iff.2 fun line member => ?_
    have other : line.isAt place = false := Line.isAt_eq_false.2 fun same =>
      outside (same ▸ List.mem_map_of_mem member)
    simp [other]
  simp [resting, nothing, standing] at rests

/-- A branch goes to where its target rests, if it rests anywhere. Only then the
last line is not asked for. -/
theorem start_of_resting {found : Place} (rests : occ.resting original place = some found) :
    occ.start original place = found := by
  rw [start, if_pos (mem_of_resting rests), rests]
  rfl

/-- The end of a region rests where a branch to it would, as long as something
stands there. -/
theorem stop_of_resting {found : Place} (rests : occ.resting original place = some found) :
    occ.stop original place = some found := by
  rw [stop, if_pos (mem_of_resting rests), rests]

/-- A line from the original code that stands anywhere stands in its own
position: lines leave, but they never change positions among each other. -/
theorem Settled.self {line now : Line} (settled : occ.Settled original) (member : line ∈ original)
    (stands : occ line.place = some now) (inside : now.place ∈ original.map Line.place) :
    now.place = line.place :=
  (settled line member now stands).resolve_right fun outside => outside inside

/-- The line of a place stands in the position of the place. -/
def Own (occ : Occupancy) (original : List Line) (place : Place) : Prop :=
  place ∈ original.map Line.place ∧ (occ place).map Line.place = some place

/-- A standing line from the original code stands in its own position. -/
theorem Settled.own {line : Line} (settled : occ.Settled original)
    (stands : line ∈ occ.standing original) (inside : line.place ∈ original.map Line.place) :
    occ.Own original line.place ∧ occ line.place = some line := by
  obtain ⟨position, member, found⟩ := List.mem_filterMap.1 stands
  have same := settled.self member found inside
  rw [← same] at found
  exact ⟨⟨inside, by simp [found]⟩, found⟩

/-- Lines from the original code stand in their original order, whatever else
stands between them. By induction on the lines: each position holds its own line,
another one, or none. -/
theorem Settled.sublist {lines : List Line} (settled : occ.Settled original)
    (part : ∀ line ∈ lines, line ∈ original) :
    (((occ.standing lines).map Line.place).filter (· ∈ original.map Line.place)).Sublist
      (lines.map Line.place) := by
  induction lines with
  | nil => exact List.Sublist.slnil
  | cons line rest ih =>
    have restPart := ih fun other member => part other (List.mem_cons_of_mem _ member)
    rw [standing, List.filterMap_cons, List.map_cons]
    split
    · exact restPart.cons _
    · next now stands =>
      rw [List.map_cons, List.filter_cons]
      split
      · next inside =>
        rw [settled.self (part line List.mem_cons_self) stands (by simpa using inside)]
        exact restPart.cons_cons _
      · exact restPart.cons _

/-- An original position splits the original code. With distinct places the split
is the only one, so it can be used as the position's address. -/
theorem split_of_mem (inside : place ∈ original.map Line.place) :
    ∃ before line after, line.place = place ∧ original = before ++ line :: after := by
  obtain ⟨line, member, same⟩ := List.mem_map.1 inside
  obtain ⟨before, after, split⟩ := List.mem_iff_append.1 member
  exact ⟨before, line, after, same, split⟩

/-- Everything that named an original position goes to the only line that stands,
whether this one is behind the position or before it. -/
theorem start_of_alone {line : Line} (parts : occ.standing original = [line])
    (inside : place ∈ original.map Line.place) : occ.start original place = line.place := by
  have whole : occ.standing (original.takeWhile (!·.isAt place)) ++
      occ.standing (original.dropWhile (!·.isAt place)) = [line] := by
    rw [← standing_append, List.takeWhile_append_dropWhile, parts]
  unfold start
  rw [if_pos inside, resting, last, parts]
  rcases List.append_eq_singleton_iff.1 whole with ⟨-, found⟩ | ⟨-, found⟩ <;> rw [found] <;> rfl

/-- If what stands in every stretch of code moves, branches and starts move with
it. It is enough to know this for the stretches that begin at original positions
and for the last line, which catches all others. -/
theorem start_of_moved {next : Occupancy} {move : Place → Place}
    (restings : next.resting original place = (occ.resting original place).map move)
    (lasts : next.last original = (occ.last original).map move)
    (standing : occ.last original ≠ none)
    (outside : place ∉ original.map Line.place → move place = place) :
    next.start original place = move (occ.start original place) := by
  unfold start
  by_cases inside : place ∈ original.map Line.place
  · obtain ⟨final, found⟩ := Option.ne_none_iff_exists'.1 standing
    rw [if_pos inside, if_pos inside, restings, lasts, found]
    cases occ.resting original place <;> rfl
  · rw [if_neg inside, if_neg inside, outside inside]

/-- Ends of regions move as well. Where nothing rests there is no line to fall
back to, so the last line does not matter. -/
theorem stop_of_moved {next : Occupancy} {move : Place → Option Place}
    (restings : next.resting original place = (occ.resting original place).bind move)
    (outside : place ∉ original.map Line.place → move place = some place) :
    next.stop original place = (occ.stop original place).bind move := by
  unfold stop
  by_cases inside : place ∈ original.map Line.place
  · rw [if_pos inside, if_pos inside, restings]
  · rw [if_neg inside, if_neg inside, Option.bind_some, outside inside]

section Vacating

variable {gone : List Place}

/-- What stands after lines have left is what stood, without them. Each of these
lines has to stand in its own position, or the wrong position would be emptied. -/
theorem standing_vacate (settled : occ.Settled original)
    (own : ∀ place ∈ gone, occ.Own original place) (part : ∀ line ∈ lines, line ∈ original) :
    (occ.vacate gone).standing lines = (occ.standing lines).filter (·.place ∉ gone) := by
  unfold standing
  rw [List.filter_filterMap]
  refine List.filterMap_congr fun line member => ?_
  unfold vacate
  by_cases leaves : line.place ∈ gone
  · obtain ⟨-, stands⟩ := own line.place leaves
    obtain ⟨now, found, same⟩ := Option.map_eq_some_iff.1 stands
    simp [leaves, found, same, Option.filter_some]
  · cases found : occ line.place with
    | none => simp
    | some now =>
      have stays : now.place ∉ gone := by
        intro among
        have same := settled.self (part line member) found (own now.place among).1
        exact leaves (same ▸ among)
      simp [leaves, stays, Option.filter_some]

/-- A settled occupancy stays settled when positions are emptied, since no line
comes to stand anywhere. -/
theorem settled_vacate (settled : occ.Settled original) : (occ.vacate gone).Settled original := by
  intro line member now stands
  unfold vacate at stands
  split at stands
  · simp at stands
  · exact settled line member now stands

variable {front stretch run : List Line} {heir : Line}

/-- No line outside of a run is at a place of the run. Places are distinct along
the code, so both sides are elsewhere. -/
theorem not_mem_run (distinct : ((before ++ run ++ heir :: after).map Line.place).Nodup)
    {line : Line}
    (member : line ∈ before ∨ line ∈ heir :: after) : line.place ∉ run.map Line.place := by
  rw [List.map_append, List.map_append, List.nodup_append, List.nodup_append] at distinct
  obtain ⟨⟨-, -, earlier⟩, -, later⟩ := distinct
  intro among
  rcases member with member | member
  · exact earlier _ (List.mem_map_of_mem member) _ among rfl
  · exact later _ (List.mem_append_right _ among) _ (List.mem_map_of_mem member) rfl

/-- Where the first line of a stretch of code is when a run of lines has left: if
it was in the run, at the line after the run.

The stretch reaches to the end of the code, so it either begins inside the run,
and then everything up to the line after it goes, or contains the run as a whole
or not at all. -/
theorem head?_filter_of_append
    (distinct : ((before ++ run ++ heir :: after).map Line.place).Nodup)
    (parts : front ++ stretch = before ++ run ++ heir :: after) :
    (stretch.filter (·.place ∉ run.map Line.place)).head?.map Line.place =
      (stretch.head?.map Line.place).map (gather (run.map Line.place) heir.place) := by
  have kept {part : List Line} (others : ∀ line ∈ part, line ∈ before ∨ line ∈ heir :: after) :
      part.filter (·.place ∉ run.map Line.place) = part :=
    List.filter_eq_self.2 fun line member => by
      simpa using not_mem_run distinct (others line member)
  have left {part : List Line} (leaving : ∀ line ∈ part, line ∈ run) :
      part.filter (·.place ∉ run.map Line.place) = [] :=
    List.filter_eq_nil_iff.2 fun line member => by
      simpa using ⟨line, leaving line member, rfl⟩
  have stays {line : Line} (other : line ∈ before ∨ line ∈ heir :: after) :
      gather (run.map Line.place) heir.place line.place = line.place :=
    if_neg (not_mem_run distinct other)
  have moves {line : Line} (leaving : line ∈ run) :
      gather (run.map Line.place) heir.place line.place = heir.place :=
    if_pos (List.mem_map_of_mem leaving)
  have ending : (heir :: after).filter (·.place ∉ run.map Line.place) = heir :: after :=
    kept fun line member => .inr member
  generalize gather (run.map Line.place) heir.place = move at stays moves ⊢
  rcases List.append_eq_append_iff.1 parts with ⟨rest, split, rfl⟩ | ⟨rest, rfl, split⟩
  · rcases List.append_eq_append_iff.1 split with ⟨early, rfl, rfl⟩ | ⟨late, rfl, rfl⟩
    · -- The stretch begins within the run.
      have leaving : ∀ line ∈ rest, line ∈ early ++ rest := fun line member =>
        List.mem_append_right _ member
      rw [List.filter_append, ending, left leaving]
      cases rest with
      | nil => simp [@stays heir (.inr (by simp))]
      | cons line rest => simp [moves (leaving line (by simp))]
    · -- The stretch begins before the run.
      have staying : ∀ line ∈ late, line ∈ front ++ late ∨ line ∈ heir :: after :=
        fun line member => .inl (List.mem_append_right _ member)
      rw [List.filter_append, List.filter_append, ending, left fun line member => member,
        kept staying, List.append_nil]
      cases late with
      | nil =>
        cases run with
        | nil => simp [@stays heir (.inr (by simp))]
        | cons line run => simp [@moves line (by simp)]
      | cons line late => simp [stays (staying line (by simp))]
  · -- The stretch begins after the run.
    have others : ∀ line ∈ stretch, line ∈ before ∨ line ∈ heir :: after := fun line member =>
      .inr (split ▸ List.mem_append_right _ member)
    rw [kept others]
    cases stretch with
    | nil => rfl
    | cons line rest => simp [stays (others line (by simp))]

/-- References to a run of lines that leaves go to the line after it. All other
references rest where they did. -/
theorem resting_vacate (settled : occ.Settled original)
    (codeDistinct : (original.map Line.place).Nodup)
    (distinct : ((occ.standing original).map Line.place).Nodup)
    (parts : occ.standing original = before ++ run ++ heir :: after)
    (own : ∀ place ∈ run.map Line.place, occ.Own original place)
    (inside : place ∈ original.map Line.place) :
    (occ.vacate (run.map Line.place)).resting original place =
      (occ.resting original place).map (gather (run.map Line.place) heir.place) := by
  obtain ⟨front, line, rear, rfl, split⟩ := split_of_mem inside
  have part : ∀ other ∈ line :: rear, other ∈ original := fun other member =>
    split ▸ List.mem_append_right _ member
  rw [resting_of_split codeDistinct split, resting_of_split codeDistinct split,
    standing_vacate settled own part]
  have stretch : occ.standing front ++ occ.standing (line :: rear) =
      before ++ run ++ heir :: after := by
    rw [← standing_append, ← split, parts]
  exact head?_filter_of_append (parts ▸ distinct) stretch

/-- A run with a line after it is not last, so the last line stays when the run
leaves. Put as a move it can be used together with the other stretches. -/
theorem last_vacate (settled : occ.Settled original)
    (distinct : ((occ.standing original).map Line.place).Nodup)
    (parts : occ.standing original = before ++ run ++ heir :: after)
    (own : ∀ place ∈ run.map Line.place, occ.Own original place) :
    (occ.vacate (run.map Line.place)).last original =
      (occ.last original).map (gather (run.map Line.place) heir.place) := by
  rw [parts] at distinct
  have stays : ∀ line ∈ heir :: after,
      gather (run.map Line.place) heir.place line.place = line.place :=
    fun line member => if_neg (not_mem_run distinct (.inr member))
  have kept : (heir :: after).filter (·.place ∉ run.map Line.place) = heir :: after :=
    List.filter_eq_self.2 fun line member => by simpa using not_mem_run distinct (.inr member)
  unfold last
  rw [standing_vacate settled own fun line member => member, parts, List.filter_append, kept,
    List.getLast?_append_of_ne_nil _ (by simp), List.getLast?_append_of_ne_nil _ (by simp)]
  cases found : (heir :: after).getLast? with
  | none => rfl
  | some line => simp [stays line (List.mem_of_getLast? found)]

/-- Branches to a run of lines that leaves go to the line after it, by one move
for all places at once. -/
theorem start_vacate (settled : occ.Settled original)
    (codeDistinct : (original.map Line.place).Nodup)
    (distinct : ((occ.standing original).map Line.place).Nodup)
    (parts : occ.standing original = before ++ run ++ heir :: after)
    (own : ∀ place ∈ run.map Line.place, occ.Own original place) (place : Place) :
    (occ.vacate (run.map Line.place)).start original place =
      gather (run.map Line.place) heir.place (occ.start original place) := by
  have outside (absent : place ∉ original.map Line.place) :
      gather (run.map Line.place) heir.place place = place :=
    if_neg fun leaves => absent (own place leaves).1
  by_cases inside : place ∈ original.map Line.place
  · exact start_of_moved (resting_vacate settled codeDistinct distinct parts own inside)
      (last_vacate settled distinct parts own) (by simp [last, parts]) outside
  · rw [start_of_not_mem inside, start_of_not_mem inside, outside inside]

/-- Ends of regions in a run that leaves go to the line after it, as branches do.
The end of the body is not reached, for a line is left. -/
theorem stop_vacate (settled : occ.Settled original)
    (codeDistinct : (original.map Line.place).Nodup)
    (distinct : ((occ.standing original).map Line.place).Nodup)
    (parts : occ.standing original = before ++ run ++ heir :: after)
    (own : ∀ place ∈ run.map Line.place, occ.Own original place) (place : Place) :
    (occ.vacate (run.map Line.place)).stop original place =
      (occ.stop original place).bind
        fun place => some (gather (run.map Line.place) heir.place place) := by
  have outside (absent : place ∉ original.map Line.place) :
      gather (run.map Line.place) heir.place place = place :=
    if_neg fun leaves => absent (own place leaves).1
  by_cases inside : place ∈ original.map Line.place
  · refine stop_of_moved ?_ fun absent => congrArg some (outside absent)
    rw [resting_vacate settled codeDistinct distinct parts own inside, Option.map_eq_bind]
    rfl
  · rw [stop_of_not_mem inside, stop_of_not_mem inside, Option.bind_some, outside inside]

variable {line : Line}

/-- When the last line leaves, nothing is left after its position. References
that rested there now rest nowhere, which for the end of a region is the end of
the body. -/
theorem resting_vacate_last (settled : occ.Settled original)
    (codeDistinct : (original.map Line.place).Nodup)
    (distinct : ((occ.standing original).map Line.place).Nodup)
    (parts : occ.standing original = before ++ [line]) (own : occ.Own original line.place)
    (inside : place ∈ original.map Line.place) :
    (occ.vacate [line.place]).resting original place =
      (occ.resting original place).bind (singleEnd line.place none) := by
  obtain ⟨front, first, rear, rfl, split⟩ := split_of_mem inside
  have part : ∀ other ∈ first :: rear, other ∈ original := fun other member =>
    split ▸ List.mem_append_right _ member
  rw [resting_of_split codeDistinct split, resting_of_split codeDistinct split,
    standing_vacate settled (by simpa using own) part]
  have stretch : occ.standing front ++ occ.standing (first :: rear) = before ++ [line] := by
    rw [← standing_append, ← split, parts]
  have others : ∀ other ∈ before, other.place ≠ line.place := by
    rw [parts, List.map_append, List.nodup_append] at distinct
    exact fun other member => distinct.2.2 _ (List.mem_map_of_mem member) _ (by simp)
  rcases List.append_eq_append_iff.1 stretch with ⟨rest, split, found⟩ | ⟨rest, -, found⟩
  · have kept : rest.filter (·.place ∉ [line.place]) = rest :=
      List.filter_eq_self.2 fun other member => by
        simpa using others other (split ▸ List.mem_append_right _ member)
    rw [found, List.filter_append, kept]
    cases rest with
    | nil => simp [singleEnd]
    | cons other rest =>
      simp [singleEnd, others other (split ▸ List.mem_append_right _ (by simp))]
  · rcases List.append_eq_singleton_iff.1 found.symm with ⟨-, found⟩ | ⟨-, found⟩
    · simp [found, singleEnd]
    · simp [found]

/-- Branches to the last line go to the line before it when it leaves, because
code has no place after its last line to branch to. -/
theorem start_vacate_last {heir : Line} {rest : List Line} (settled : occ.Settled original)
    (codeDistinct : (original.map Line.place).Nodup)
    (distinct : ((occ.standing original).map Line.place).Nodup)
    (parts : occ.standing original = rest ++ [heir] ++ [line]) (own : occ.Own original line.place)
    (place : Place) :
    (occ.vacate [line.place]).start original place =
      single line.place heir.place (occ.start original place) := by
  have other : heir.place ≠ line.place := by
    rw [parts, List.map_append, List.nodup_append] at distinct
    exact distinct.2.2 _ (by simp) _ (by simp)
  have before : (occ.vacate [line.place]).last original = some heir.place := by
    have kept : (rest ++ [heir]).filter (·.place ∉ [line.place]) = rest ++ [heir] := by
      rw [parts, List.map_append, List.nodup_append] at distinct
      exact List.filter_eq_self.2 fun other member => by
        simpa using distinct.2.2 _ (List.mem_map_of_mem member) line.place (by simp)
    unfold last
    rw [standing_vacate settled (by simpa using own) fun line member => member, parts,
      List.filter_append, kept]
    simp
  have final : occ.last original = some line.place := by simp [last, parts]
  unfold start
  by_cases inside : place ∈ original.map Line.place
  · rw [if_pos inside, if_pos inside, before, final,
      resting_vacate_last settled codeDistinct distinct parts own inside]
    cases occ.resting original place with
    | none => simp [single]
    | some found => by_cases same : found = line.place <;> simp [singleEnd, single, same]
  · have absent : place ≠ line.place := fun same => inside (same ▸ own.1)
    rw [if_neg inside, if_neg inside, single, if_neg absent]

/-- Ends of regions at the last line become the end of the body. In this they
differ from branches, which have to go back. -/
theorem stop_vacate_last (settled : occ.Settled original)
    (codeDistinct : (original.map Line.place).Nodup)
    (distinct : ((occ.standing original).map Line.place).Nodup)
    (parts : occ.standing original = before ++ [line]) (own : occ.Own original line.place)
    (place : Place) :
    (occ.vacate [line.place]).stop original place =
      (occ.stop original place).bind (singleEnd line.place none) := by
  have outside (absent : place ∉ original.map Line.place) :
      singleEnd line.place none place = some place :=
    if_neg fun same : place = line.place => absent (same ▸ own.1)
  by_cases inside : place ∈ original.map Line.place
  · exact stop_of_moved
      (resting_vacate_last settled codeDistinct distinct parts own inside) outside
  · rw [stop_of_not_mem inside, stop_of_not_mem inside, Option.bind_some, outside inside]

end Vacating

section Putting

variable {position : Place} {new : Line}

/-- When a line is put into a position, what stands is what stood with this one
line exchanged. The position has to be occupied by its own line, which is then
the one that goes. -/
theorem standing_put (settled : occ.Settled original) (own : occ.Own original position)
    (part : ∀ line ∈ lines, line ∈ original) :
    (occ.put position new).standing lines =
      (occ.standing lines).map fun line => if line.isAt position then new else line := by
  unfold standing
  rw [List.map_filterMap]
  refine List.filterMap_congr fun line member => ?_
  unfold put
  by_cases here : line.place = position
  · obtain ⟨now, found, same⟩ := Option.map_eq_some_iff.1 own.2
    simp [here, found, Line.isAt, same]
  · cases found : occ line.place with
    | none => simp [here]
    | some now =>
      have elsewhere : now.place ≠ position := by
        intro same
        have inside := settled.self (part line member) found (same ▸ own.1)
        exact here (inside ▸ same)
      simp [here, Line.isAt, elsewhere]

/-- The place of an exchanged line, written as a move of places. -/
theorem place_ite (line : Line) : (if line.isAt position then new else line).place =
    single position new.place line.place := by
  by_cases here : line.place = position <;> simp [Line.isAt, single, here]

/-- References to the position go to the line that was put there. It stands where
the other line stood, so all other references rest where they did. -/
theorem resting_put (settled : occ.Settled original)
    (codeDistinct : (original.map Line.place).Nodup) (own : occ.Own original position)
    (inside : place ∈ original.map Line.place) :
    (occ.put position new).resting original place =
      (occ.resting original place).map (single position new.place) := by
  obtain ⟨front, line, rear, rfl, split⟩ := split_of_mem inside
  have part : ∀ other ∈ line :: rear, other ∈ original := fun other member =>
    split ▸ List.mem_append_right _ member
  rw [resting_of_split codeDistinct split, resting_of_split codeDistinct split,
    standing_put settled own part, List.head?_map, Option.map_map, Option.map_map]
  exact congrArg (Option.map · _) (funext place_ite)

/-- Branches and starts of regions follow the line that is put into a position,
also those that had come to rest there because their own lines had left. -/
theorem start_put (settled : occ.Settled original)
    (codeDistinct : (original.map Line.place).Nodup) (own : occ.Own original position)
    (place : Place) :
    (occ.put position new).start original place =
      single position new.place (occ.start original place) := by
  have outside (absent : place ∉ original.map Line.place) :
      single position new.place place = place :=
    if_neg fun same : place = position => absent (same ▸ own.1)
  have lasts : (occ.put position new).last original =
      (occ.last original).map (single position new.place) := by
    unfold last
    rw [standing_put settled own fun line member => member, List.getLast?_map, Option.map_map,
      Option.map_map]
    exact congrArg (Option.map · _) (funext place_ite)
  have standing : occ.last original ≠ none := by
    obtain ⟨line, member, same⟩ := List.mem_map.1 own.1
    obtain ⟨now, found, -⟩ := Option.map_eq_some_iff.1 own.2
    have stands : now ∈ occ.standing original :=
      List.mem_filterMap.2 ⟨line, member, by rw [same, found]⟩
    simpa [last] using List.ne_nil_of_mem stands
  by_cases inside : place ∈ original.map Line.place
  · exact start_of_moved (resting_put settled codeDistinct own inside) lasts standing outside
  · rw [start_of_not_mem inside, start_of_not_mem inside, outside inside]

/-- Ends of regions follow the line that is put into a position: a line stands
there before and after, so no end gets lost. -/
theorem stop_put (settled : occ.Settled original)
    (codeDistinct : (original.map Line.place).Nodup) (own : occ.Own original position)
    (place : Place) :
    (occ.put position new).stop original place =
      (occ.stop original place).bind (singleEnd position (some new.place)) := by
  have outside (absent : place ∉ original.map Line.place) :
      singleEnd position (some new.place) place = some place :=
    if_neg fun same : place = position => absent (same ▸ own.1)
  by_cases inside : place ∈ original.map Line.place
  · refine stop_of_moved ?_ outside
    rw [resting_put settled codeDistinct own inside]
    cases occ.resting original place with
    | none => rfl
    | some found => by_cases same : found = position <;> simp [singleEnd, single, same]
  · rw [stop_of_not_mem inside, stop_of_not_mem inside, Option.bind_some, outside inside]

/-- A line may be put into a position if it is the position's own line, with
other content, or comes from outside of the original code. -/
theorem settled_put (settled : occ.Settled original)
    (fitting : new.place = position ∨ new.place ∉ original.map Line.place) :
    (occ.put position new).Settled original := by
  intro line member now stands
  unfold put at stands
  split at stands
  · next here =>
    obtain rfl := Option.some.inj stands
    rw [here]
    exact fitting
  · exact settled line member now stands

end Putting

end Occupancy

end InlineCil
