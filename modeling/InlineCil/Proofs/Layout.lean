import InlineCil.Proofs.Expression.Exactness
import InlineCil.Proofs.Occupancy

/-!
# Bodies laid out by an occupancy

A body is laid out over an original one by an occupancy if its lines are those
that stand in the original positions and its references are the original ones,
moved as the occupancy says. Each change that a rule makes to a body is one
change of the occupancy.

`Lays` is the part of the frame that speaks of a single moment. It says nothing
about why a line stands where it does, which is the subject of fates. What it
gives is the exact code, branches and clauses of the current body, so a lemma
about a rule can be proved on the standing lines and then be read off the body.

`moved` is the step that all changes share: if the new lines, branches and
clauses are the old ones moved, and the new occupancy moves `start` and `stop` in
the same way, then the new body is laid out by the new occupancy. `taken`,
`removed`, `replaced` and `overwritten` use it for the four kinds of changes.
-/

namespace InlineCil

namespace Occupancy

/-- The body is what an occupancy makes of an original body. -/
structure Lays (occ : Occupancy) (original b : Body) : Prop where
  settled : occ.Settled original.code.linked
  linked : b.code.linked =
    (occ.standing original.code.linked).map (Line.moveTargets (occ.start original.code.linked))
  clauses : b.clauses = original.clauses.map
    (Clause.moveBorders (occ.start original.code.linked) (occ.stop original.code.linked))

/-- Every line of the original code stands in its own position. -/
def full (original : Body) : Occupancy := original.code.line?

variable {occ next : Occupancy} {original b left : Body} {before after : List Line} {line : Line}

theorem full_of_mem (member : line ∈ original.code.linked) :
    full original line.place = some line := by
  obtain ⟨before, after, split⟩ := List.mem_iff_append.1 member
  exact Code.line?_of_split split

/-- All lines stand in the full occupancy, in the order of the code. -/
theorem standing_full {lines : List Line} (part : ∀ line ∈ lines, line ∈ original.code.linked) :
    (full original).standing lines = lines := by
  refine (List.filterMap_congr fun line member => full_of_mem (part line member)).trans ?_
  exact List.filterMap_some

/-- The full occupancy is settled, since every line stands in its own position. -/
theorem settled_full (original : Body) : (full original).Settled original.code.linked := by
  intro line member now stands
  rw [full_of_mem member] at stands
  exact .inl (congrArg Line.place (Option.some.inj stands)).symm

/-- With every position taken, a reference rests at the very place that it names. -/
theorem resting_full {place : Place} (inside : place ∈ original.code.linked.map Line.place) :
    (full original).resting original.code.linked place = some place := by
  obtain ⟨front, line, rear, rfl, split⟩ := split_of_mem inside
  rw [resting_of_split original.code.nodup_linked split,
    standing_full fun other member => split ▸ List.mem_append_right _ member]
  rfl

/-- While every line stands in its own position, references go where they went. -/
theorem start_full (original : Body) : (full original).start original.code.linked = id := by
  funext place
  by_cases inside : place ∈ original.code.linked.map Line.place
  · rw [start, if_pos inside, resting_full inside]
    rfl
  · exact start_of_not_mem inside

theorem stop_full (original : Body) : (full original).stop original.code.linked = some := by
  funext place
  by_cases inside : place ∈ original.code.linked.map Line.place
  · rw [stop, if_pos inside, resting_full inside]
  · exact stop_of_not_mem inside

/-- A body is laid out over itself. Every pass begins here, with an occupancy
that empties nothing. -/
theorem lays_full (original : Body) : (full original).Lays original original where
  settled := settled_full original
  linked := by
    rw [start_full, standing_full fun _ member => member, funext Line.moveTargets_id]
    simp
  clauses := by
    rw [start_full, stop_full, funext Clause.moveBorders_id]
    simp

namespace Lays

/-- No two lines that stand are at one place: they are the lines of the body, and
no place is handed out twice. -/
theorem distinct (lays : occ.Lays original b) :
    ((occ.standing original.code.linked).map Line.place).Nodup := by
  have places := b.code.nodup_linked
  rw [lays.linked, List.map_map] at places
  exact places

/-- What stands, split at a line, is how the code is split. Branches are moved in
all three parts, since a branch to a line that is gone may be anywhere. -/
theorem split (lays : occ.Lays original b)
    (parts : occ.standing original.code.linked = before ++ line :: after) :
    b.code.linked = before.map (Line.moveTargets (occ.start original.code.linked)) ++
      line.moveTargets (occ.start original.code.linked) ::
        after.map (Line.moveTargets (occ.start original.code.linked)) := by
  rw [lays.linked, parts, List.map_append, List.map_cons]

/-- Only the code and the clauses matter. Changes of local variables, labels or
debug points keep a body laid out as it is. -/
theorem congr (lays : occ.Lays original b) (linked : left.code.linked = b.code.linked)
    (clauses : left.clauses = b.clauses) : occ.Lays original left where
  settled := lays.settled
  linked := linked.trans lays.linked
  clauses := clauses.trans lays.clauses

/-- A body whose references move along with what stands is laid out again. The
branches of its lines have been moved twice, by the layout before and by this
step, and the hypotheses on `start` and `stop` say that this is what the next
occupancy does at once. -/
theorem moved (lays : occ.Lays original b) {move : Place → Place}
    {moveEnd : Place → Option Place} (settled : next.Settled original.code.linked)
    (linked : left.code.linked = ((next.standing original.code.linked).map
      (Line.moveTargets (occ.start original.code.linked))).map (Line.moveTargets move))
    (clauses : left.clauses = b.clauses.map (Clause.moveBorders move moveEnd))
    (starts : ∀ place, next.start original.code.linked place =
      move (occ.start original.code.linked place))
    (stops : ∀ place, next.stop original.code.linked place =
      (occ.stop original.code.linked place).bind moveEnd) : next.Lays original left where
  settled := settled
  linked := by
    rw [linked, List.map_map]
    refine List.map_congr_left fun line _ => ?_
    exact (line.moveTargets_moveTargets _ _).trans
      (Line.moveTargets_congr fun place _ => (starts place).symm)
  clauses := by
    rw [clauses, lays.clauses, List.map_map]
    refine List.map_congr_left fun clause _ => ?_
    exact (Clause.moveBorders_moveBorders _ _ _ _ clause).trans
      (Clause.moveBorders_congr (fun place _ => (starts place).symm)
        fun place _ => (stops place).symm)

/-- What is left of a code from which the lines of a run are filtered out, places
being distinct. Filtering by place takes out the run and nothing besides. -/
theorem standing_of_run {run rear : List Line}
    (distinct : ((before ++ run ++ rear).map Line.place).Nodup) :
    (before ++ run ++ rear).filter (·.place ∉ run.map Line.place) = before ++ rear := by
  rw [List.map_append, List.map_append, List.nodup_append, List.nodup_append] at distinct
  obtain ⟨⟨-, -, earlier⟩, -, later⟩ := distinct
  have keptBefore : before.filter (·.place ∉ run.map Line.place) = before :=
    List.filter_eq_self.2 fun line member => by
      simpa using fun other among same =>
        earlier _ (List.mem_map_of_mem member) _ (List.mem_map_of_mem among) same.symm
  have leaving : run.filter (·.place ∉ run.map Line.place) = [] :=
    List.filter_eq_nil_iff.2 fun line member => by simpa using ⟨line, member, rfl⟩
  have keptRear : rear.filter (·.place ∉ run.map Line.place) = rear :=
    List.filter_eq_self.2 fun line member => by
      simpa using fun other among same =>
        later _ (List.mem_append_right _ (List.mem_map_of_mem among)) _
          (List.mem_map_of_mem member) same
  rw [List.filter_append, List.filter_append, keptBefore, leaving, keptRear, List.append_nil]

/-- What stands once the lines of a run have left their positions: the lines
before the run and the lines after it, next to each other. -/
theorem standing_vacate_run (lays : occ.Lays original b) {run rear : List Line}
    (parts : occ.standing original.code.linked = before ++ run ++ rear)
    (own : ∀ place ∈ run.map Line.place, occ.Own original.code.linked place) :
    (occ.vacate (run.map Line.place)).standing original.code.linked = before ++ rear := by
  rw [standing_vacate lays.settled own fun _ member => member, parts]
  exact standing_of_run (parts ▸ lays.distinct)

/-- Arguments that are taken before a call vacate their positions. The call stays
for now and takes over the references to all of them. -/
theorem taken (lays : occ.Lays original b) {run : List Line} {call : Line}
    (parts : occ.standing original.code.linked = before ++ run ++ call :: after)
    (own : ∀ place ∈ run.map Line.place, occ.Own original.code.linked place)
    (took : Rewrite.TakenFrom b (before.map (Line.moveTargets (occ.start original.code.linked)))
      (run.map (Line.moveTargets (occ.start original.code.linked)))
      (call.moveTargets (occ.start original.code.linked))
      (after.map (Line.moveTargets (occ.start original.code.linked))) left) :
    (occ.vacate (run.map Line.place)).Lays original left := by
  have places : (run.map (Line.moveTargets (occ.start original.code.linked))).map Line.place =
      run.map Line.place := by simp [Function.comp_def]
  unfold Rewrite.TakenFrom at took
  rw [places, Line.place_moveTargets] at took
  refine lays.moved (settled_vacate lays.settled) ?_ took.clauses
    (start_vacate lays.settled original.code.nodup_linked lays.distinct parts own)
    (stop_vacate lays.settled original.code.nodup_linked lays.distinct parts own)
  rw [took.linked, standing_vacate_run lays parts own, List.map_append, List.map_append,
    List.map_append, List.map_cons, List.map_cons, List.map_cons]

/-- The only line leaves if nothing refers to it, so no references are left that
could go anywhere. This case is apart because there is no heir to name. -/
theorem removed_alone (lays : occ.Lays original b) {i : Instruction}
    (parts : occ.standing original.code.linked = [line])
    (own : occ.Own original.code.linked line.place)
    (leaves : b.remove line.place = .ok (i, left)) :
    (occ.vacate [line.place]).Lays original left := by
  have alone : occ.standing original.code.linked = [] ++ [line] := parts
  have split := lays.split alone
  have sheds := Body.sheds_of_remove split leaves
  have run : occ.standing original.code.linked = [] ++ [line] ++ [] := parts
  have empty := standing_vacate_run lays run (by simpa using own)
  have unnamed := (Body.not_named (Body.unnamed_of_remove split leaves)).2
  refine ⟨settled_vacate lays.settled, ?_, ?_⟩
  · rw [List.map_singleton] at empty
    rw [sheds.linked, empty]
    rfl
  · rw [sheds.clauses, lays.clauses, List.map_map]
    refine List.map_congr_left fun clause member => ?_
    refine (Clause.moveBorders_moveBorders _ _ _ _ clause).trans
      (Clause.moveBorders_congr (fun place border => ?_) fun place _ => ?_)
    · have moved : clause.moveBorders (occ.start original.code.linked)
          (occ.stop original.code.linked) ∈ b.clauses :=
        lays.clauses ▸ List.mem_map_of_mem member
      have other : occ.start original.code.linked place ≠ line.place := fun same =>
        unnamed _ moved (same ▸ Clause.mem_borders_of_starts border)
      have outside : place ∉ original.code.linked.map Line.place := fun inside =>
        other (start_of_alone parts inside)
      rw [start_of_not_mem outside, Function.comp_apply, start_of_not_mem outside]
      simp +contextual [Body.heir, single, eq_comm]
    · exact (stop_vacate_last lays.settled original.code.nodup_linked lays.distinct
        alone own place).symm

/-- A line that leaves vacates its position. Its references go to the next line,
or to the line before it if it was the last one, as `start` and `stop` say
without looking at the case. -/
theorem removed (lays : occ.Lays original b) {i : Instruction}
    (parts : occ.standing original.code.linked = before ++ line :: after)
    (own : occ.Own original.code.linked line.place)
    (leaves : b.remove line.place = .ok (i, left)) :
    (occ.vacate [line.place]).Lays original left := by
  have sheds := Body.sheds_of_remove (lays.split parts) leaves
  have alone : ∀ place ∈ [line].map Line.place, occ.Own original.code.linked place := by
    simpa using own
  have stands := standing_vacate_run lays (by simpa using parts) alone
  have settled : (occ.vacate [line.place]).Settled original.code.linked :=
    settled_vacate lays.settled
  have codeDistinct := original.code.nodup_linked
  cases after with
  | cons heir rest =>
    have heirs : Body.heir (before.map (Line.moveTargets (occ.start original.code.linked)))
        (line.moveTargets (occ.start original.code.linked))
        ((heir :: rest).map (Line.moveTargets (occ.start original.code.linked))) =
          heir.place := rfl
    rw [heirs] at sheds
    refine lays.moved settled ?_ sheds.clauses (fun place => ?_) fun place => ?_
    · rw [sheds.linked, ← List.map_append]
      exact congrArg _ (congrArg _ stands.symm)
    · have moved := start_vacate lays.settled codeDistinct lays.distinct
        (by simpa using parts) alone place
      rwa [List.map_singleton, gather_singleton] at moved
    · have moved := stop_vacate lays.settled codeDistinct lays.distinct
        (by simpa using parts) alone place
      rw [List.map_singleton] at moved
      rw [gather_singleton] at moved
      exact moved.trans (congrArg _ (singleEnd_some _ _).symm)
  | nil =>
    rcases List.eq_nil_or_concat' before with rfl | ⟨rest, heir, rfl⟩
    · exact removed_alone lays (by simpa using parts) own leaves
    · have heirs : Body.heir
          ((rest ++ [heir]).map (Line.moveTargets (occ.start original.code.linked)))
          (line.moveTargets (occ.start original.code.linked))
          ([].map (Line.moveTargets (occ.start original.code.linked))) = heir.place := by
        simp [Body.heir]
      rw [heirs] at sheds
      refine lays.moved settled ?_ sheds.clauses
        (start_vacate_last lays.settled codeDistinct lays.distinct parts own)
        (stop_vacate_last lays.settled codeDistinct lays.distinct parts own)
      rw [sheds.linked, ← List.map_append]
      exact congrArg _ (congrArg _ stands.symm)

/-- What stands once another line was put into the position of a line: the two
are exchanged in the split. The lines on both sides are at other places. -/
theorem standing_put_of_split (lays : occ.Lays original b) {new : Line}
    (parts : occ.standing original.code.linked = before ++ line :: after)
    (own : occ.Own original.code.linked line.place) :
    (occ.put line.place new).standing original.code.linked = before ++ new :: after := by
  have distinct := lays.distinct
  rw [parts] at distinct
  obtain ⟨earlier, later⟩ := apart_of_nodup distinct
  have same (lines : List Line) (others : ∀ other ∈ lines, other.isAt line.place = false) :
      lines.map (fun other => if other.isAt line.place then new else other) = lines := by
    refine (List.map_congr_left fun other member => ?_).trans (List.map_id lines)
    simp [others other member]
  rw [standing_put lays.settled own fun _ member => member, parts, List.map_append,
    List.map_cons, same before earlier, same after later]
  simp

/-- A line from outside that takes the position of another one stands there, and
all references to the other go to it. It has no branches of its own that would
have to be moved. -/
theorem replaced (lays : occ.Lays original b) {new : Line}
    (parts : occ.standing original.code.linked = before ++ line :: after)
    (own : occ.Own original.code.linked line.place)
    (outside : new.place ∉ original.code.linked.map Line.place)
    (still : new.instruction.targets = [])
    (sheds : { b with code := b.code.linkBefore line.place new.place : Body }.Sheds
      (before.map (Line.moveTargets (occ.start original.code.linked)) ++
        new :: after.map (Line.moveTargets (occ.start original.code.linked)))
      [line.moveTargets (occ.start original.code.linked)] (single line.place new.place)
      (singleEnd line.place (some new.place)) left) :
    (occ.put line.place new).Lays original left := by
  have fixed : new.moveTargets (occ.start original.code.linked) = new :=
    (Line.moveTargets_congr (by simp [still])).trans new.moveTargets_id
  refine lays.moved (settled_put lays.settled (.inr outside)) ?_ sheds.clauses
    (start_put lays.settled original.code.nodup_linked own)
    (stop_put lays.settled original.code.nodup_linked own)
  rw [sheds.linked, standing_put_of_split lays parts own]
  simp [fixed]

/-- An instruction that is overwritten stands at its place with new content, and
no reference moves. The body holds the new content with its branches moved, as it
holds every line that stands. -/
theorem overwritten (lays : occ.Lays original b) {i : Instruction}
    (parts : occ.standing original.code.linked = before ++ line :: after)
    (own : occ.Own original.code.linked line.place) :
    (occ.put line.place ⟨line.place, i⟩).Lays original
      { b with
        code := b.code.overwrite line.place
          (i.moveTargets (occ.start original.code.linked)) } := by
  have still : single line.place line.place = id := by
    funext place
    by_cases here : place = line.place <;> simp [single, here]
  have stillEnd : singleEnd line.place (some line.place) = some := by
    rw [singleEnd_some, still]
    rfl
  have starts (place : Place) : (occ.put line.place ⟨line.place, i⟩).start _ place = _ :=
    start_put lays.settled original.code.nodup_linked own place
  have stops (place : Place) : (occ.put line.place ⟨line.place, i⟩).stop _ place = _ :=
    stop_put lays.settled original.code.nodup_linked own place
  refine ⟨settled_put lays.settled (.inl rfl), ?_, ?_⟩
  · have overwrite := Code.linked_overwrite (lays.split parts)
      (i.moveTargets (occ.start original.code.linked))
    rw [Line.place_moveTargets] at overwrite
    refine overwrite.trans ?_
    rw [standing_put_of_split lays parts own, funext starts, still]
    simp only [id_eq, List.map_append, List.map_cons]
    rfl
  · refine lays.clauses.trans ?_
    rw [funext starts, funext stops, still, stillEnd]
    simp

end Lays

end Occupancy

end InlineCil
