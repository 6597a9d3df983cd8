import InlineCil.Proofs.Points.Sites

/-!
# Debug points survive a pass

A pass collapses the points of one site after the other and finishes what is
left. A place off all sites keeps its first point from visit to visit, and
finishing keeps it as well; so no point of the author is given up for one that
was moved.

`PointsSurvive` has what can be said of the woven points alone, that they are on
the code and in its order, one to a place, and what relates them to the original
ones. The sites of a pass are those of its visits, and a place is spared if it is
on none of them.

For the sites themselves the theorem says what is left in their position. A site
that carried a point leaves one there, unless an instruction right before it
modifies the target and carries a point of its own, which is then widened.
-/

namespace InlineCil

variable {frame : Frame} {original : Body} {symbols : Symbols} {state final : Rewriting}
  {site : List Place} {target cursor : Option Place} {x : Place} {p : DebugPoint}

/-- Rewriting a site leaves the first point at a place off it, or widens it,
whether or not points are maintained. -/
theorem Rewrites.first? (rewrites : Rewrites frame state final site target) (outside : x ∉ site)
    (found : PointMap.first? x state.body.points = some p) :
    ∃ q, PointMap.first? x final.body.points = some q ∧ q.Covers p := by
  cases maintains : frame.mapsPoints with
  | false => exact ⟨p, by rw [rewrites.unmaintained maintains, found], .refl p⟩
  | true => exact (rewrites.maintained maintains).first? outside found

/-- The place is on no site that a pass over a body rewrites. -/
def Visits.Spare (frame : Frame) (original : Body) (symbols : Symbols) (x : Place) : Prop :=
  ∀ place state site, Visits frame original symbols place state →
    Rewrite.site? frame place state = some site → x ∉ site

/-- A visit leaves the first point at a place off all sites, or widens it. -/
theorem Visits.first? {place : Place} (visits : Visits frame original symbols place state)
    (spares : Visits.Spare frame original symbols x)
    (ran : (Rewrite.visit frame place).run state = .ok cursor final)
    (found : PointMap.first? x state.body.points = some p) :
    ∃ q, PointMap.first? x final.body.points = some q ∧ q.Covers p := by
  rcases Rewrites.visit ran with ⟨site, target, here, rewrites⟩ | ⟨-, rfl⟩
  · exact rewrites.first? (spares place state site visits here) found
  · exact ⟨p, found, .refl p⟩

/-- So do all visits, by induction on their number. The place is on no site of
any visit, and the points that cover one another do so along the whole pass. -/
theorem Visits.first?_of_scan {count : Nat} {done : Unit}
    (visits : ∀ place, cursor = some place → Visits frame original symbols place state)
    (spares : Visits.Spare frame original symbols x)
    (ran : (Rewrite.scan frame count cursor).run state = .ok done final)
    (found : PointMap.first? x state.body.points = some p) :
    ∃ q, PointMap.first? x final.body.points = some q ∧ q.Covers p := by
  induction count generalizing cursor state p with
  | zero =>
    cases cursor <;> obtain ⟨-, rfl⟩ := by simpa [Rewrite.scan] using ran
    all_goals exact ⟨p, found, .refl p⟩
  | succ count ih =>
    cases cursor with
    | none =>
      obtain ⟨-, rfl⟩ := by simpa [Rewrite.scan] using ran
      exact ⟨p, found, .refl p⟩
    | some place =>
      have here := visits place rfl
      obtain ⟨next, left, visiting, ran⟩ := Steps.run_bind_ok.1 ran
      obtain ⟨q, stays, covers⟩ := here.first? spares visiting found
      obtain ⟨r, kept, more⟩ := ih (fun following there => .next here (there ▸ visiting)) ran stays
      exact ⟨r, kept, covers.trans more⟩

/-- What a pass leaves of debug points. -/
structure PointsSurvive (frame : Frame) (original : Body) (symbols : Symbols) (woven : Body) :
    Prop where
  /-- All points are on the code. -/
  linked : ∀ p ∈ woven.points, p.place ∈ woven.code.places
  /-- Their positions ascend strictly, so there is at most one to a place. -/
  ascending : woven.points.Pairwise fun p q =>
    woven.code.places.idxOf p.place < woven.code.places.idxOf q.place
  /-- A place that is still linked and on no site keeps the first of its points, or it is widened. -/
  kept : ∀ x ∈ woven.code.places, Visits.Spare frame original symbols x →
    ∀ p, original.points.find? (·.place = x) = some p →
      ∃ q ∈ woven.points, q.place = x ∧ q.Covers p
  /-- Each site is rewritten as a whole, and the points off it stay but for one that is widened. -/
  sites : ∀ place state cursor final site, Visits frame original symbols place state →
    (Rewrite.visit frame place).run state = .ok cursor final →
    Rewrite.site? frame place state = some site →
      ∃ target, Rewrites frame state final site target ∧
        (frame.mapsPoints = true → ∀ p ∈ state.body.points, p.place ∈ site →
          ∀ left, target = some left →
            ∃ q ∈ final.body.points, q.place = left ∨ PointMap.Modifies final.body q.place left)
  /-- A visit without a site changes nothing. -/
  elsewhere : ∀ place state cursor final, Visits frame original symbols place state →
    (Rewrite.visit frame place).run state = .ok cursor final →
    Rewrite.site? frame place state = none → final = state

/-- Debug points survive a pass that comes to its end. In the end they are on the
code and in its order, one to a place. An instruction that is still there and on
no site keeps the first of its points, with its document and at least its range.

Whenever points are maintained and a site with a point has been rewritten, what
is left in its position carries one, or the instruction before it that modifies
it does. -/
theorem Rewrite.points_survive (frame : Frame) (original : Body) (symbols : Symbols)
    (warnings : List (Warning × Place)) (final : Rewriting)
    (passed : (run frame).run { body := original, symbols } = .ok warnings final) :
    PointsSurvive frame original symbols final.body := by
  obtain ⟨_, scanned, scanning, closed⟩ := Steps.run_bind_ok.1 (body_bind_eq_ok.1 passed)
  obtain ⟨-, -, rfl, -⟩ := finish_eq_ok closed
  refine ⟨fun p => PointMap.mem_places_of_finish, PointMap.ascending_finish scanned.body, ?_, ?_, ?_⟩
  · intro x linked spares p found
    obtain ⟨q, stays, covers⟩ :=
      Visits.first?_of_scan (fun _ starts => .first starts) spares scanning found
    have last := (@PointMap.first?_finish scanned.body x linked).trans stays
    exact ⟨q, List.mem_of_find?_eq_some last, PointMap.place_of_first? last, covers⟩
  · intro place state cursor left site _ ran here
    rcases Rewrites.visit ran with ⟨_, target, there, rewrites⟩ | ⟨nowhere, -⟩
    · obtain rfl := Option.some.inj (here.symm.trans there)
      exact ⟨target, rewrites, fun maintains _ among onSite _ remains =>
        (rewrites.maintained maintains).carries among onSite remains⟩
    · simp [here] at nowhere
  · intro place state cursor left _ ran nowhere
    rcases Rewrites.visit ran with ⟨_, _, there, -⟩ | ⟨-, same⟩
    · simp [nowhere] at there
    · exact same

/-- The method that branches to the name of a label, with points on the name and
on the return. -/
def pointedBody : Body :=
  { Weave.markingJob.body with
    points :=
      [⟨⟨1⟩, "Program.cs", ⟨10, 9⟩, ⟨10, 30⟩⟩, ⟨⟨3⟩, "Program.cs", ⟨11, 5⟩, ⟨11, 6⟩⟩] }

def pointedFrame : Frame := { Visits.markingFrame with mapsPoints := true }

/-- The name and the call are a site, and the label stands in its position. -/
theorem Rewrite.points_survive_pointedBody :
    ∃ warnings final,
      (run pointedFrame).run { body := pointedBody, symbols := Weave.emptyProgram } =
          .ok warnings final ∧
        PointsSurvive pointedFrame pointedBody Weave.emptyProgram final.body ∧
        site? pointedFrame ⟨2⟩ { body := pointedBody, symbols := Weave.emptyProgram } =
          some [⟨1⟩, ⟨2⟩] ∧
        final.body.code.places = [⟨0⟩, ⟨4⟩, ⟨3⟩] :=
  ⟨_, _, rfl, points_survive _ _ _ _ _ rfl, rfl, rfl⟩

end InlineCil
