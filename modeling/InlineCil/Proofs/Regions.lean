import InlineCil.Proofs.Framing.Whole

/-!
# Regions of exception clauses

A border of a clause is as far into the code as there are lines before it. A pass
moves every border to the number of lines that still stand before its original
position, so regions keep their order and do not come to overlap; a region is
empty in the end if nothing is left of it. The exception are clauses whose
handler has nothing at or after it any more: a start of a region cannot be the
end of the body and goes back to the last line.

The proof turns borders into numbers. `Code.position` counts the lines before a
border, `Occupancy.rank` the lines that stand before an original position, and a
moved border has the rank of its original position for its position. Ranks do not
decrease along the code, and they grow over a region exactly if something of it
is left.

With this an arranged clause is a set of inequalities between positions, and the
moved clause the same set between ranks. `OrderKept` reads off what holds of it,
and `arranged_protectingJob` shows that a region can really come to be empty.
-/

namespace InlineCil

/-- How many lines come before a border; the end of the body comes after all of
them. -/
def Code.position (c : Code) : Option Place → Nat
  | some place => c.places.idxOf place
  | none => c.places.length

/-- The lines from a place up to a border. -/
def Code.stretch (c : Code) (first : Place) (ending : Option Place) : List Line :=
  (c.linked.take (c.position ending)).drop (c.position (some first))

/-- Something holds of the borders of all regions of a clause. -/
def Clause.AllRegions (p : Place → Option Place → Prop) (c : Clause) : Prop :=
  p c.tryStart c.tryEnd ∧ (∀ first ∈ c.filterStart, p first (some c.handlerStart)) ∧
    p c.handlerStart c.handlerEnd

/-- The borders of a clause are linked and in order: its protected code comes
before the filter and the handler, and the ends of each region are in a relation. -/
structure Clause.Arranged (rel : Nat → Nat → Prop) (code : Code) (c : Clause) : Prop where
  linked : ∀ place ∈ c.borders, place ∈ code.places
  regions : c.AllRegions fun first ending => rel (code.position (some first)) (code.position ending)
  apart : code.position c.tryEnd ≤ code.position (some (c.filterStart.getD c.handlerStart))

namespace Code

variable {c : Code} {before after : List Line} {line : Line}

/-- A line is as far into the code as there are lines before it. -/
theorem position_of_split (split : c.linked = before ++ line :: after) :
    c.position (some line.place) = before.length := by
  have absent : line.place ∉ before.map Line.place := fun member => by
    obtain ⟨other, among, same⟩ := List.mem_map.1 member
    exact Line.isAt_eq_false.1 ((apart split).1 other among) same
  simp [position, places, split, List.idxOf_append_of_notMem absent]

theorem position_none : c.position none = c.linked.length := by
  rw [position, places, List.length_map]

theorem position_le (border : Option Place) : c.position border ≤ c.position none := by
  cases border with
  | none => exact Nat.le_refl _
  | some place => exact List.idxOf_le_length

end Code

namespace Occupancy

variable {occ : Occupancy} {original woven : Code} {place first : Place} {ending : Option Place}
  {i j : Nat}

/-- How many lines stand before a position. -/
def rank (occ : Occupancy) (lines : List Line) (i : Nat) : Nat :=
  (occ.standing (lines.take i)).length

/-- What stands between two positions is what the later one has more before it.
So a stretch is empty exactly if both have the same rank. -/
theorem rank_eq_add (lines : List Line) (ordered : i ≤ j) :
    occ.rank lines j = occ.rank lines i + (occ.standing ((lines.take j).drop i)).length := by
  have parts : (lines.take j).take i ++ (lines.take j).drop i = lines.take j :=
    List.take_append_drop i _
  rw [List.take_take, Nat.min_eq_left ordered] at parts
  have whole := congrArg (fun part => (occ.standing part).length) parts
  simpa only [rank, standing_append, List.length_append] using whole.symm

theorem rank_mono (lines : List Line) (ordered : i ≤ j) : occ.rank lines i ≤ occ.rank lines j := by
  rw [rank_eq_add lines ordered]
  exact Nat.le_add_right _ _

theorem standing_stretch_iff
    (ordered : original.position (some first) ≤ original.position ending) :
    occ.standing (original.stretch first ending) ≠ [] ↔
      occ.rank original.linked (original.position (some first)) <
        occ.rank original.linked (original.position ending) := by
  rw [rank_eq_add original.linked ordered, Nat.lt_add_right_iff_pos, List.length_pos_iff]
  rfl

variable (linked : woven.linked =
  (occ.standing original.linked).map (Line.moveTargets (occ.start original.linked)))

include linked

theorem position_end :
    woven.position none = occ.rank original.linked (original.position none) := by
  rw [Code.position_none, Code.position_none, linked, List.length_map, rank, List.take_length]

/-- Where a reference comes to rest is told by what stands before it, as it rests
on the next line that stands. If none does, this is the end of the code, and the
count is that of all lines. -/
theorem position_resting (inside : place ∈ original.places) :
    woven.position (occ.resting original.linked place) =
      occ.rank original.linked (original.position (some place)) := by
  obtain ⟨before, line, after, rfl, split⟩ := split_of_mem inside
  have whole : occ.standing original.linked =
      occ.standing before ++ occ.standing (line :: after) := by
    rw [split, standing_append]
  have front : occ.rank original.linked (original.position (some line.place)) =
      (occ.standing before).length := by
    rw [Code.position_of_split split, rank, split, List.take_left' rfl]
  rw [resting_of_split original.nodup_linked split, front]
  cases stands : occ.standing (line :: after) with
  | nil =>
    rw [stands, List.append_nil] at whole
    rw [List.head?_nil, Option.map_none, Code.position, Code.places, linked, whole]
    simp
  | cons now more =>
    rw [whole, stands, List.map_append, List.map_cons] at linked
    have here := Code.position_of_split linked
    rwa [List.length_map, Line.place_moveTargets] at here

/-- An end of a region is where its original position has come to. An end that
has become absent is at the end of the code. -/
theorem position_stop (ending : Option Place) (inside : ∀ place ∈ ending, place ∈ original.places) :
    woven.position (ending.bind (occ.stop original.linked)) =
      occ.rank original.linked (original.position ending) := by
  cases ending with
  | none => exact position_end linked
  | some place =>
    have member : place ∈ original.linked.map Line.place := inside place rfl
    rw [Option.bind_some, stop, if_pos member]
    exact position_resting linked member

/-- So is a start, if anything stands at or after it. Otherwise it falls back to
the last line that stands, which is before it. -/
theorem position_start (inside : place ∈ original.places)
    (late : occ.rank original.linked (original.position (some place)) <
      occ.rank original.linked (original.position none)) :
    woven.position (some (occ.start original.linked place)) =
      occ.rank original.linked (original.position (some place)) := by
  have position := position_resting linked inside
  cases rests : occ.resting original.linked place with
  | none =>
    rw [rests, position_end linked] at position
    exact absurd position.symm (Nat.ne_of_lt late)
  | some found => rw [start_of_resting rests, ← rests, position]

theorem mem_places_of_standing {now : Line} (stands : now ∈ occ.standing original.linked) :
    now.place ∈ woven.places := by
  rw [Code.places, linked, List.map_map]
  exact List.mem_map.2 ⟨now, stands, rfl⟩

theorem mem_places_of_resting {found : Place}
    (rests : occ.resting original.linked place = some found) : found ∈ woven.places := by
  obtain ⟨now, first, rfl⟩ := Option.map_eq_some_iff.1 rests
  exact mem_places_of_standing linked
    (((List.dropWhile_sublist _).filterMap _).subset (List.mem_of_head? first))

/-- While anything stands, references go to something that does. This is where an
empty body has to be excluded. -/
theorem start_mem_places (inside : place ∈ original.places)
    (stands : occ.standing original.linked ≠ []) :
    occ.start original.linked place ∈ woven.places := by
  cases rests : occ.resting original.linked place with
  | some found =>
    rw [start_of_resting rests]
    exact mem_places_of_resting linked rests
  | none =>
    have member : place ∈ original.linked.map Line.place := inside
    rw [start, if_pos member, rests, Option.none_or, last, List.getLast?_eq_some_getLast stands]
    exact mem_places_of_standing linked (List.getLast_mem stands)

end Occupancy

namespace Clause

variable {c : Clause} {p q : Place → Option Place → Prop}

theorem AllRegions.imp (all : c.AllRegions p)
    (implies : ∀ first ending, p first ending → q first ending) : c.AllRegions q :=
  ⟨implies _ _ all.1, fun first member => implies _ _ (all.2.1 first member), implies _ _ all.2.2⟩

theorem AllRegions.and (all : c.AllRegions p) (also : c.AllRegions q) :
    c.AllRegions fun first ending => p first ending ∧ q first ending :=
  ⟨⟨all.1, also.1⟩, fun first member => ⟨all.2.1 first member, also.2.1 first member⟩,
    ⟨all.2.2, also.2.2⟩⟩

end Clause

/-- What becomes of the order of a clause whose regions were in order and not
empty. It is kept if something is left of each region. If something is left at or
after the start of the handler, no region is turned around or overlaps another
one, and they are all in use only if something is left of each. -/
structure OrderKept (occ : Occupancy) (original woven : Code) (clause now : Clause) : Prop where
  strict : clause.AllRegions (fun first ending => occ.standing (original.stretch first ending) ≠ []) →
    now.Arranged (· < ·) woven
  weak : occ.standing (original.stretch clause.handlerStart none) ≠ [] →
    now.Arranged (· ≤ ·) woven
  only : occ.standing (original.stretch clause.handlerStart none) ≠ [] →
    now.Arranged (· < ·) woven →
      clause.AllRegions fun first ending => occ.standing (original.stretch first ending) ≠ []

namespace Clause.Arranged

variable {occ : Occupancy} {original woven : Code} {c : Clause}

/-- The original borders in the order of the code. Of a filter clause the filter
comes between the protected code and the handler; of any other the protected code
ends no later than the handler starts. -/
theorem positions (ordered : c.Arranged (· < ·) original) :
    original.position (some c.tryStart) < original.position (some c.handlerStart) ∧
      original.position c.tryEnd ≤ original.position (some c.handlerStart) ∧
      ∀ first ∈ c.filterStart, original.position c.tryEnd ≤ original.position (some first) ∧
        original.position (some first) < original.position (some c.handlerStart) := by
  obtain ⟨-, ⟨protects, filters, -⟩, apart⟩ := ordered
  cases filter : c.filterStart with
  | none =>
    rw [filter, Option.getD_none] at apart
    exact ⟨Nat.lt_of_lt_of_le protects apart, apart, by simp⟩
  | some first =>
    rw [filter, Option.getD_some] at apart
    have before := filters first filter
    have earlier := Nat.lt_of_le_of_lt apart before
    refine ⟨Nat.lt_trans protects earlier, Nat.le_of_lt earlier, fun other same => ?_⟩
    obtain rfl := Option.some.inj same
    exact ⟨apart, before⟩

variable (linked : woven.linked =
  (occ.standing original.linked).map (Line.moveTargets (occ.start original.linked)))

include linked

/-- While anything stands at or after the start of a handler, every border of its
clause is where its original position has come to. -/
theorem moved_iff (ordered : c.Arranged (· < ·) original)
    (late : occ.rank original.linked (original.position (some c.handlerStart)) <
      occ.rank original.linked (original.position none)) (rel : Nat → Nat → Prop) :
    (c.moveBorders (occ.start original.linked) (occ.stop original.linked)).Arranged rel woven ↔
      c.AllRegions fun first ending => rel
        (occ.rank original.linked (original.position (some first)))
        (occ.rank original.linked (original.position ending)) := by
  obtain ⟨front, clear, filtering⟩ := ordered.positions
  have border {place : Place} (member : place ∈ c.borders) : place ∈ original.places :=
    ordered.linked place member
  have start {place : Place} (member : place ∈ c.borders)
      (early : original.position (some place) ≤ original.position (some c.handlerStart)) :
      woven.position (some (occ.start original.linked place)) =
        occ.rank original.linked (original.position (some place)) :=
    Occupancy.position_start linked (border member)
      (Nat.lt_of_le_of_lt (Occupancy.rank_mono _ early) late)
  have tryStart := start (by simp [borders]) (Nat.le_of_lt front)
  have handlerStart := @start c.handlerStart (by simp [borders]) (Nat.le_refl _)
  have tryEnd := Occupancy.position_stop linked c.tryEnd fun place held =>
    border (by simp [borders, Option.mem_def.1 held])
  have handlerEnd := Occupancy.position_stop linked c.handlerEnd fun place held =>
    border (by simp [borders, Option.mem_def.1 held])
  have filterStart (first : Place) (held : first ∈ c.filterStart) :=
    @start first (by simp [borders, Option.mem_def.1 held])
      (Nat.le_of_lt (filtering first held).2)
  have regions : (c.moveBorders (occ.start original.linked) (occ.stop original.linked)).AllRegions
      (fun first ending => rel (woven.position (some first)) (woven.position ending)) ↔
        c.AllRegions fun first ending => rel
          (occ.rank original.linked (original.position (some first)))
          (occ.rank original.linked (original.position ending)) := by
    simp only [AllRegions, moveBorders, tryStart, tryEnd, handlerStart, handlerEnd]
    refine and_congr_right fun _ => and_congr_left fun _ => ?_
    constructor
    · intro all first held
      have found := all _ (Option.mem_map_of_mem _ held)
      rwa [filterStart first held] at found
    · intro all moved held
      obtain ⟨first, member, rfl⟩ := Option.map_eq_some_iff.1 held
      rw [filterStart first member]
      exact all first member
  refine ⟨fun arranged => regions.1 arranged.regions, fun all => ⟨?_, regions.2 all, ?_⟩⟩
  · have stands : occ.standing original.linked ≠ [] := by
      rintro nothing
      simp [Occupancy.rank, Code.position_none, nothing] at late
    intro place member
    obtain ⟨old, held, moves⟩ := mem_borders_moveBorders member
    rcases moves with rfl | stops
    · exact Occupancy.start_mem_places linked (border held) stands
    · have inside : old ∈ original.linked.map Line.place := border held
      rw [Occupancy.stop, if_pos inside] at stops
      exact Occupancy.mem_places_of_resting linked stops
  · dsimp only [moveBorders]
    rw [tryEnd]
    cases filter : c.filterStart with
    | none =>
      rw [Option.map_none, Option.getD_none, handlerStart]
      exact Occupancy.rank_mono _ clear
    | some first =>
      rw [Option.map_some, Option.getD_some, filterStart first filter]
      exact Occupancy.rank_mono _ (filtering first filter).1

/-- The order of a clause is kept as far as something is left of its regions,
from the ranks of its borders. Borders are in strict order where a line is left
between them, and never in the wrong order as long as something is left behind
the start of the handler. -/
theorem orderKept (ordered : c.Arranged (· < ·) original) :
    OrderKept occ original woven c
      (c.moveBorders (occ.start original.linked) (occ.stop original.linked)) := by
  have late {ending : Option Place} (before : original.position (some c.handlerStart) ≤
      original.position ending)
      (left : occ.standing (original.stretch c.handlerStart ending) ≠ []) :
      occ.rank original.linked (original.position (some c.handlerStart)) <
        occ.rank original.linked (original.position none) :=
    Nat.lt_of_lt_of_le ((Occupancy.standing_stretch_iff before).1 left)
      (Occupancy.rank_mono _ (original.position_le ending))
  refine ⟨fun held => ?_, fun left => ?_, fun left arranged => ?_⟩
  · refine (ordered.moved_iff linked (late (Nat.le_of_lt ordered.regions.2.2) held.2.2) _).2 ?_
    exact (ordered.regions.and held).imp fun first ending ⟨before, left⟩ =>
      (Occupancy.standing_stretch_iff (Nat.le_of_lt before)).1 left
  · refine (ordered.moved_iff linked (late (original.position_le _) left) _).2 ?_
    exact ordered.regions.imp fun first ending before =>
      Occupancy.rank_mono _ (Nat.le_of_lt before)
  · have all := (ordered.moved_iff linked (late (original.position_le _) left) _).1 arranged
    exact (ordered.regions.and all).imp fun first ending ⟨before, less⟩ =>
      (Occupancy.standing_stretch_iff (Nat.le_of_lt before)).2 less

end Clause.Arranged

namespace Weave

/-- Whenever a method has been rewritten, the clauses whose regions were in order
are still in order, as far as there is something left of their regions. The
occupancy that tells the frame of the pass tells what is left. -/
theorem method_regions (settings : Settings) (j : Job) (symbols : Symbols) (outcome : Outcome)
    (gave : (method settings j symbols).result = .ok outcome)
    (status : outcome.status = .rewritten) :
    ∃ occ, Kept settings.markerNamespace j.body (method settings j symbols).body occ ∧
      List.Forall₂ (fun clause now => clause.Arranged (· < ·) j.body.code →
          OrderKept occ j.body.code (method settings j symbols).body.code clause now)
        j.body.clauses (method settings j symbols).body.clauses := by
  obtain ⟨frame, warnings, final, space, blocks, passed, body⟩ := run_of_rewritten gave status
  obtain ⟨occ, kept⟩ := Rewrite.kept_of_run blocks passed
  rw [← body, space] at kept
  refine ⟨occ, kept, ?_⟩
  rw [kept.clauses, List.forall₂_map_right_iff, List.forall₂_same]
  exact fun clause _ ordered => ordered.orderKept kept.linked

/-- A method that protects nothing but code that is never reached. -/
def protectingJob : Job where
  declaringType := { nameSpace := "Program", name := "Main" }
  method := { name := "Run", returnType := emptyProgram.undefinedCoreType "System" "Void" }
  body :=
    { ({} : Body).pushAll [primitiveCall "Unreachable" [], ⟨.throw, .none⟩, ⟨.pop, .none⟩,
        ⟨.leaveS, .target ⟨4⟩⟩, ⟨.ret, .none⟩] with
      clauses := [⟨0, ⟨0⟩, some ⟨2⟩, none, ⟨2⟩, some ⟨4⟩, none⟩] }

/-- What the theorem says of the method that protects unreachable code only. -/
theorem method_regions_protectingJob :
    ∃ occ, Kept "InlineIL" protectingJob.body (method {} protectingJob emptyProgram).body occ ∧
      List.Forall₂ (fun clause now => clause.Arranged (· < ·) protectingJob.body.code →
          OrderKept occ protectingJob.body.code (method {} protectingJob emptyProgram).body.code
            clause now)
        protectingJob.body.clauses (method {} protectingJob emptyProgram).body.clauses :=
  method_regions {} protectingJob emptyProgram _ rfl rfl

/-- The regions of the method are in order, and afterwards the protected one is
empty. -/
theorem arranged_protectingJob :
    (∀ clause ∈ protectingJob.body.clauses, clause.Arranged (· < ·) protectingJob.body.code) ∧
      (∃ outcome, (method {} protectingJob emptyProgram).result = .ok outcome ∧
        outcome.status = .rewritten) ∧
      ∃ clause ∈ (method {} protectingJob emptyProgram).body.clauses,
        ¬ clause.Arranged (· < ·) (method {} protectingJob emptyProgram).body.code := by
  refine ⟨fun clause member => ?_, ⟨_, rfl, rfl⟩, ⟨0, ⟨2⟩, some ⟨2⟩, none, ⟨2⟩, some ⟨4⟩, none⟩,
    ?_, fun arranged => ?_⟩
  · obtain rfl := List.mem_singleton.1 member
    exact ⟨by decide, ⟨by decide, by decide, by decide⟩, by decide⟩
  · exact List.mem_singleton.2 rfl
  · exact absurd arranged.regions.1 (by decide)

end Weave

end InlineCil
