import InlineCil.Proofs.Labels.Rules
import InlineCil.Proofs.Locality
import InlineCil.Proofs.Points

/-!
# The sites of a pass and their debug points

A visit that rewrites a marker call rewrites a site: the call with the arguments
taken for it, or with the load of an address before it, or with the throw after
it. The site is a run of the code, and something may be left in its position. The
debug points of the site are collapsed onto the first place that is left there or
comes after it.

`Rewrite.site?` tells the site from the state before the visit, by the marker
that is called. `Rewrites` then relates the states before and after: how the
places split around the site, what stands there afterwards, which target follows
from it, and what has become of the points. It holds whether or not points are
maintained.

Each rule changes the code first and collapses the points at the end, so
`of_mapPoints` has the common part, and a lemma for a rule has to say only how
the places change. Composing an instruction in between leaves lines and points as
they are, which `Rewriting.Steady` keeps track of.
-/

namespace InlineCil

namespace Rewrite

/-- The places that the rule for a marker rewrites, in the order of the code. A
builder that stands alone is left as it is. -/
def ruleSite? (frame : Frame) (state : Rewriting) (call : Line) : Marker → Option (List Place)
  | .builder _ => none
  | .primitive .pop => some ((state.body.code.before? call.place).toList ++ [call.place])
  | .primitive .unreachable => some (call.place :: (state.body.code.after? call.place).toList)
  | marker =>
      match marker.reader? with
      | some ⟨_, reader⟩ => some ((consumed frame state call reader).reverse ++ [call.place])
      | none => some [call.place]

/-- The places that a visit rewrites, if it rewrites any. -/
def site? (frame : Frame) (place : Place) (state : Rewriting) : Option (List Place) :=
  (state.body.code.line? place).bind fun call =>
    match call.instruction.marker? (space frame) with
    | .ok (some marker) => ruleSite? frame state call marker
    | _ => none

end Rewrite

/-- A site is rewritten: what is left of it stands in its position, and its debug
points are collapsed onto the target, if debug points are maintained. -/
structure Rewrites (frame : Frame) (state final : Rewriting) (site : List Place)
    (target : Option Place) : Prop where
  places : ∃ front left back, state.body.code.places = front ++ site ++ back ∧
    final.body.code.places = front ++ left ++ back ∧ target = (left ++ back).head?
  unmaintained : frame.mapsPoints = false → final.body.points = state.body.points
  maintained : frame.mapsPoints = true →
    PointMap.Collapses final.body site target state.body.points final.body.points

variable {frame : Frame} {state middle final : Rewriting} {call : Line}
  {before after : List Line} {site order : List Place} {target cursor : Option Place}

namespace Rewrites

/-- Every rule changes the code first and then collapses the points. This lemma
takes the two changes together: the caller says what the code was and is, split
around the site. -/
theorem of_mapPoints {done : Unit}
    (ran : (Rewrite.mapPoints frame order target).run middle = .ok done final)
    (front left back : List Place) (whole : state.body.code.places = front ++ site ++ back)
    (changed : middle.body.code.places = front ++ left ++ back)
    (points : middle.body.points = state.body.points) (next : target = (left ++ back).head?)
    (same : ∀ place, place ∈ order ↔ place ∈ site) :
    Rewrites frame state final site target := by
  unfold Rewrite.mapPoints at ran
  cases maintains : frame.mapsPoints with
  | false =>
    rw [maintains] at ran
    obtain rfl : middle = final := by simpa using ran
    exact ⟨⟨front, left, back, whole, changed, next⟩, fun _ => points, by simp [maintains]⟩
  | true =>
    rw [maintains] at ran
    obtain rfl : { middle with body := PointMap.collapse middle.body order target } = final := by
      simpa using Rewrite.body_bind_eq_ok.1 ran
    obtain ⟨_, collapsed⟩ := PointMap.collapse_eq middle.body order target
    have code : (PointMap.collapse middle.body order target).code = middle.body.code := by
      rw [collapsed]
    have collapses := PointMap.collapses_collapse middle.body order target
    rw [points] at collapses
    exact ⟨⟨front, left, back, whole, code ▸ changed, next⟩, by simp [maintains],
      fun _ => (collapses.congr same).of_code code⟩

/-- A call leaves with what was taken for it. What follows the site is found
before the call leaves, and is what the points go to. -/
theorem removeCall {place : Place} {taken : List Place}
    (ran : (Rewrite.removeCall frame place taken).run middle = .ok cursor final)
    (split : middle.body.code.linked = before ++ call :: after) (here : call.place = place)
    (whole : state.body.code.places = before.map Line.place ++ site ++ after.map Line.place)
    (points : middle.body.points = state.body.points)
    (same : ∀ other, other ∈ taken ++ [place] ↔ other ∈ site) :
    ∃ target, Rewrites frame state final site target := by
  subst here
  obtain ⟨_, _, removing, ran⟩ := Steps.run_bind_ok.1 (Rewrite.body_bind_eq_ok.1 ran)
  obtain ⟨i, b, removed, rfl⟩ := Rewrite.remove_eq_ok.1 removing
  obtain ⟨_, _, mapping, ran⟩ := Steps.run_bind_ok.1 ran
  obtain ⟨-, rfl⟩ := by simpa using ran
  have sheds := Body.sheds_of_remove split removed
  refine ⟨_, of_mapPoints mapping _ [] _ whole ?_ (sheds.points.trans points) ?_ same⟩
  · rw [sheds.places]
    simp
  · rw [Code.after?_of_split split]
    simp

/-- Push leaves nothing in the position of its call. Its argument stays in the
code as it is, so the site is the call alone. -/
theorem push (split : state.body.code.linked = before ++ call :: after)
    (ran : (Rewrite.push frame call.place).run state = .ok cursor final) :
    ∃ target, Rewrites frame state final [call.place] target := by
  have whole : state.body.code.places =
      before.map Line.place ++ [call.place] ++ after.map Line.place := by
    simp [Code.places, split]
  unfold Rewrite.push at ran
  split at ran
  · replace ran := Rewrite.body_bind_eq_ok.1 ran
    dsimp only at ran
    split at ran
    · simp at ran
    · exact removeCall ran split rfl whole rfl (by simp)
  · exact removeCall ran split rfl whole rfl (by simp)

theorem returnValue (split : state.body.code.linked = before ++ call :: after)
    (ran : (Rewrite.returnValue frame call.place).run state = .ok cursor final) :
    ∃ target, Rewrites frame state final [call.place] target := by
  replace ran := Rewrite.body_bind_eq_ok.1 ran
  split at ran
  · simp at ran
  · exact removeCall ran split rfl (by simp [Code.places, split]) rfl (by simp)

/-- The load of an address becomes a store, which is left in the position of the
site. It keeps its place, so the points of the site go to a line of the site
itself. -/
theorem pop (split : state.body.code.linked = before ++ call :: after)
    (ran : (Rewrite.pop frame call.place).run state = .ok cursor final) :
    ∃ site target, Rewrite.ruleSite? frame state call (.primitive .pop) = some site ∧
      Rewrites frame state final site target := by
  replace ran := Rewrite.body_bind_eq_ok.1 ran
  split at ran
  · simp at ran
  next address found =>
  split at ran
  · simp at ran
  obtain ⟨loading, _, looking, ran⟩ := Steps.run_bind_ok.1 (Rewrite.body_bind_eq_ok.1 ran)
  obtain ⟨loads, rfl⟩ := Rewrite.faultless_eq_ok.1 looking
  split at ran
  · simp at ran
  next store stores =>
  obtain ⟨i, _, checking, ran⟩ := Steps.run_bind_ok.1 ran
  obtain ⟨-, rfl⟩ := Steps.run_liftExcept_eq_ok.1 checking
  obtain ⟨_, _, replacing, ran⟩ := Steps.run_bind_ok.1 ran
  obtain ⟨old, b, replaced, rfl⟩ := Rewrite.replace_eq_ok.1 replacing
  obtain rfl := Body.eq_of_replace replaced
  obtain ⟨_, _, removing, ran⟩ := Steps.run_bind_ok.1 (Rewrite.body_bind_eq_ok.1 ran)
  obtain ⟨gone, b, removed, rfl⟩ := Rewrite.remove_eq_ok.1 removing
  obtain ⟨_, mapped, mapping, ran⟩ := Steps.run_bind_ok.1 ran
  obtain ⟨rfl, rfl⟩ := by simpa using ran
  have nearest := Code.before?_of_split split
  rw [found] at nearest
  obtain ⟨last, ends, rfl⟩ := Option.map_eq_some_iff.1 nearest.symm
  obtain ⟨front, rfl⟩ := List.getLast?_eq_some_iff.1 ends
  rw [List.append_assoc, List.singleton_append] at split
  have stored : { state.body with code := state.body.code.overwrite last.place i }.code.linked =
      (front ++ [⟨last.place, i⟩]) ++ call :: after := by
    simpa using Code.linked_overwrite split i
  have sheds := Body.sheds_of_remove stored removed
  refine ⟨_, _, by rw [Rewrite.ruleSite?, found], of_mapPoints mapping (front.map Line.place)
    [last.place] (after.map Line.place) ?_ ?_ sheds.points rfl (by simp)⟩
  · simp [Code.places, split]
  · rw [sheds.places]
    simp

/-- The throw after the call leaves with it. The points of both go to what
follows the throw, if anything does. -/
theorem unreachable (split : state.body.code.linked = before ++ call :: after)
    (ran : (Rewrite.unreachable frame call.place).run state = .ok cursor final) :
    ∃ site target, Rewrite.ruleSite? frame state call (.primitive .unreachable) = some site ∧
      Rewrites frame state final site target := by
  replace ran := Rewrite.body_bind_eq_ok.1 ran
  split at ran
  · simp at ran
  next thrown follows =>
  split at ran
  · simp at ran
  obtain ⟨_, _, calling, ran⟩ := Steps.run_bind_ok.1 (Rewrite.body_bind_eq_ok.1 ran)
  obtain ⟨i, b, called, rfl⟩ := Rewrite.remove_eq_ok.1 calling
  obtain ⟨_, _, removing, ran⟩ := Steps.run_bind_ok.1 ran
  obtain ⟨j, c, removed, rfl⟩ := Rewrite.remove_eq_ok.1 removing
  obtain ⟨_, _, mapping, ran⟩ := Steps.run_bind_ok.1 ran
  obtain ⟨-, rfl⟩ := by simpa using ran
  have following := Code.following?_of_split split
  rw [follows] at following
  obtain ⟨more, rfl⟩ := List.head?_eq_some_iff.1 following.symm
  have whole : state.body.code.linked = (before ++ [call]) ++ thrown :: more := by simpa using split
  have next := Code.after?_of_split whole
  have first := Body.sheds_of_remove split called
  have parts := first.linked
  rw [List.map_append, List.map_cons] at parts
  have second := Body.sheds_of_remove parts removed
  refine ⟨_, _, rfl, of_mapPoints mapping (before.map Line.place) [] (more.map Line.place) ?_ ?_
    (second.points.trans first.points) ?_ ?_⟩
  · simp [Code.places, split, Code.after?_of_split split]
  · rw [second.places]
    simp [Function.comp_def]
  · simpa using next
  · simp [Code.after?_of_split split]

end Rewrites

/-- The linked lines and the debug points are as they were. -/
structure Rewriting.Steady (state final : Rewriting) : Prop where
  linked : final.body.code.linked = state.body.code.linked
  points : final.body.points = state.body.points

namespace Rewriting.Steady

variable {name : String} {place : Place} {opcode : Opcode} {value : Argument} {i : Instruction}

theorem refl (state : Rewriting) : state.Steady state := ⟨rfl, rfl⟩

theorem trans (first : state.Steady middle) (second : middle.Steady final) : state.Steady final :=
  ⟨second.linked.trans first.linked, second.points.trans first.points⟩

/-- The instruction of a label waits to be linked. So handing out its place
changes neither the code nor the points. -/
theorem labelPlace (ran : (Rewrite.labelPlace name).run state = .ok place final) :
    state.Steady final := by
  unfold Rewrite.labelPlace at ran
  split at ran
  · simp at ran
  replace ran := Rewrite.get_bind_eq_ok.1 ran
  split at ran
  · obtain ⟨-, rfl⟩ := by simpa using ran
    exact .refl _
  · obtain ⟨-, rfl⟩ := by simpa using ran
    exact ⟨rfl, rfl⟩

theorem useLabel (ran : (Rewrite.useLabel name place).run state = .ok label final) :
    state.Steady final := by
  obtain ⟨_, _, registering, ran⟩ := Steps.run_bind_ok.1 ran
  obtain ⟨-, rfl⟩ := by simpa using ran
  exact (labelPlace registering).trans ⟨rfl, rfl⟩

/-- So are several, one after the other. Handing out places links nothing, so
neither the code nor the points change. -/
theorem useLabels {names : List String} {places : List Place}
    (ran : (names.mapM (Rewrite.useLabel · place)).run state = .ok places final) :
    state.Steady final := by
  induction names generalizing state places with
  | nil =>
    obtain ⟨-, rfl⟩ := by simpa using ran
    exact .refl _
  | cons name names ih =>
    rw [List.mapM_cons] at ran
    obtain ⟨_, _, noting, ran⟩ := Steps.run_bind_ok.1 ran
    obtain ⟨_, _, remaining, ran⟩ := Steps.run_bind_ok.1 ran
    obtain ⟨-, rfl⟩ := by simpa using ran
    exact (useLabel noting).trans (ih remaining)

/-- Composing an instruction links nothing, whatever its argument is. Labels may
be added and local variables marked as used, and neither moves a line or a point. -/
theorem instruction (ran : (Rewrite.instruction frame place opcode value).run state = .ok i final) :
    state.Steady final := by
  cases mentioned : LabelCall.ofArgument? place opcode value with
  | none =>
    obtain ⟨body, -⟩ := LabelCall.instruction_still mentioned ran
    exact ⟨by rw [body], by rw [body]⟩
  | some c =>
    unfold LabelCall.ofArgument? at mentioned
    split at mentioned
    · obtain ⟨takes, -⟩ := Option.ite_none_right_eq_some.1 mentioned
      obtain ⟨_, noting, -⟩ := Rewrite.exists_of_branch takes ran
      exact useLabel noting
    · obtain ⟨takes, -⟩ := Option.ite_none_right_eq_some.1 mentioned
      obtain ⟨_, noting, -⟩ := Rewrite.exists_of_switch takes ran
      exact useLabels noting
    · simp at mentioned

end Rewriting.Steady

namespace Rewrites

/-- Arguments leave from right before the call, in one piece, and the call stays. -/
theorem reading {α : Type} {reader : Site → Nat → Reader α} {value : α} {taken : List Place}
    (restrained : ∀ site bound, (Reader.restraint site).KeptBy (reader site bound))
    (split : state.body.code.linked = before ++ call :: after)
    (ran : (Rewrite.reading frame call.place reader).run state = .ok (value, taken) middle) :
    ∃ kept lines move, before = kept ++ lines ∧ taken = (lines.map Line.place).reverse ∧
      (Rewrite.consumed frame state call reader).reverse = lines.map Line.place ∧
      middle.body.code.linked = (kept ++ call :: after).map (Line.moveTargets move) ∧
      middle.body.points = state.body.points := by
  obtain ⟨kept, lines, rfl, consumed, -⟩ :=
    @Rewrite.exists_consumed frame _ _ _ _ reader _ restrained split
  obtain ⟨took, body⟩ := (Rewrite.consumes_of_split split).ok ran
  have sheds := Body.sheds_takeOut split
  rw [← consumed] at sheds
  exact ⟨kept, lines, _, rfl, took.trans consumed, by rw [consumed, List.reverse_reverse],
    body ▸ sheds.linked, body ▸ sheds.points⟩

/-- The instruction of a label takes the position of a call. The points on the
call stay where they were until they are collapsed. -/
theorem defineLabel {name : String} {place : Place}
    (split : state.body.code.linked = before ++ call :: after)
    (ran : (Rewrite.defineLabel name call.place).run state = .ok place final) :
    final.body.code.places = before.map Line.place ++ place :: after.map Line.place ∧
      final.body.points = state.body.points := by
  obtain ⟨found, middle, registering, ran⟩ := Steps.run_bind_ok.1 ran
  have steady := Rewriting.Steady.labelPlace registering
  replace ran := Rewrite.get_bind_eq_ok.1 ran
  dsimp only at ran
  split at ran
  · simp at ran
  obtain ⟨_, _, noting, ran⟩ := Steps.run_bind_ok.1 ran
  obtain rfl := by simpa using noting
  obtain ⟨result, _, replacing, ran⟩ := Steps.run_bind_ok.1 (Rewrite.body_bind_eq_ok.1 ran)
  obtain ⟨replaced, rfl⟩ := Rewrite.faultless_eq_ok.1 replacing
  obtain ⟨rfl, rfl⟩ := by simpa using ran
  obtain ⟨-, new, waiting, rfl⟩ := Body.waiting_of_replaceWith replaced
  obtain ⟨i, left, run, sheds⟩ :=
    Body.replaceWith_of_split (steady.linked.trans split) waiting
  rw [replaced] at run
  obtain rfl := Except.ok.inj run
  refine ⟨?_, sheds.points.trans steady.points⟩
  rw [sheds.places]
  simp

/-- The instruction of a label is left in the position of the site. The line that
loads the name leaves first, and its points go to the label with those of the
call. -/
theorem markLabel (split : state.body.code.linked = before ++ call :: after)
    (ran : (Rewrite.markLabel frame call.place).run state = .ok cursor final) :
    ∃ site target, Rewrite.ruleSite? frame state call (.primitive .markLabel) = some site ∧
      Rewrites frame state final site target := by
  obtain ⟨⟨name, taken⟩, middle, taking, ran⟩ := Steps.run_bind_ok.1 ran
  obtain ⟨kept, lines, move, rfl, rfl, site, linked, points⟩ :=
    reading (fun _ _ => Reader.inherited_restraint.string) split taking
  obtain ⟨place, defined, defining, ran⟩ := Steps.run_bind_ok.1 ran
  obtain ⟨_, mapped, mapping, ran⟩ := Steps.run_bind_ok.1 ran
  obtain ⟨-, rfl⟩ := by simpa using Rewrite.body_bind_eq_ok.1 ran
  rw [List.map_append, List.map_cons] at linked
  obtain ⟨places, still⟩ := defineLabel linked (Rewrite.located_eq_ok.1 defining)
  refine ⟨_, _, rfl, of_mapPoints mapping (kept.map Line.place) [place] (after.map Line.place) ?_ ?_
    (still.trans points) rfl ?_⟩
  · rw [site]
    simp [Code.places, split]
  · simpa [Function.comp_def] using places
  · rw [site]
    simp

/-- A declaration leaves nothing in the position of its site. Declaring changes
the local variables in between, which is neither code nor points. -/
theorem declareLocals {hasInitFlag : Bool} (split : state.body.code.linked = before ++ call :: after)
    (ran : (Rewrite.declareLocals frame call.place hasInitFlag).run state = .ok cursor final) :
    ∃ site target,
      Rewrite.ruleSite? frame state call (.primitive (.declareLocals hasInitFlag)) = some site ∧
      Rewrites frame state final site target := by
  obtain ⟨⟨⟨declared, init⟩, taken⟩, middle, taking, ran⟩ := Steps.run_bind_ok.1 ran
  obtain ⟨kept, lines, move, rfl, rfl, site, linked, points⟩ :=
    reading (fun _ _ => Reader.inherited_restraint.declarations) split taking
  obtain ⟨_, _, declaring, ran⟩ := Steps.run_bind_ok.1 ran
  obtain ⟨-, _, -, rfl⟩ := Rewrite.declare_eq_ok declaring
  rw [List.map_append, List.map_cons] at linked
  have whole : state.body.code.places = (kept.map (Line.moveTargets move)).map Line.place ++
      (lines.map Line.place ++ [call.place]) ++
        (after.map (Line.moveTargets move)).map Line.place := by
    simp [Code.places, split, Function.comp_def]
  obtain ⟨target, rewrites⟩ := removeCall ran linked rfl whole points (by simp)
  exact ⟨_, target, by rw [← site]; rfl, rewrites⟩

/-- The emitted instruction is left in the position of the site. It stands at the
place of the call, so the site ends with the line that is left. -/
theorem emit {opcode : Opcode} {parameter : EmitParameter}
    (split : state.body.code.linked = before ++ call :: after)
    (ran : (Rewrite.emit frame call.place opcode parameter).run state = .ok cursor final) :
    ∃ site target, Rewrite.ruleSite? frame state call (.emit opcode parameter) = some site ∧
      Rewrites frame state final site target := by
  obtain ⟨⟨value, taken⟩, middle, taking, ran⟩ := Steps.run_bind_ok.1 ran
  obtain ⟨kept, lines, move, rfl, rfl, site, linked, points⟩ :=
    reading (fun _ _ => Reader.inherited_restraint.argument _) split taking
  obtain ⟨i, _, composing, ran⟩ := Steps.run_bind_ok.1 ran
  have composed := Rewriting.Steady.instruction (Rewrite.located_eq_ok.1 composing)
  obtain ⟨_, _, replacing, ran⟩ := Steps.run_bind_ok.1 ran
  obtain ⟨old, b, replaced, rfl⟩ := Rewrite.replace_eq_ok.1 replacing
  obtain rfl := Body.eq_of_replace replaced
  obtain ⟨_, mapped, mapping, ran⟩ := Steps.run_bind_ok.1 ran
  obtain ⟨-, rfl⟩ := by simpa using Rewrite.body_bind_eq_ok.1 ran
  refine ⟨_, _, rfl, of_mapPoints mapping (kept.map Line.place) [call.place]
    (after.map Line.place) ?_ ?_ (composed.points.trans points) rfl ?_⟩
  · rw [site]
    simp [Code.places, split]
  · simp [Code.places, Code.overwrite, Code.mapLinked, composed.linked, linked, Function.comp_def]
  · rw [site]
    simp

/-- Every rule rewrites its site, and a builder is left alone. By the marker that
is called: each rule has its own lemma, which also says what its site is. -/
theorem rewriteCall {marker : Marker} (split : state.body.code.linked = before ++ call :: after)
    (ran : (Rewrite.rewriteCall frame call.place marker).run state = .ok cursor final) :
    (∃ site target, Rewrite.ruleSite? frame state call marker = some site ∧
      Rewrites frame state final site target) ∨
      (Rewrite.ruleSite? frame state call marker = none ∧ final = state) := by
  cases marker with
  | primitive p =>
    cases p with
    | push | pushInRef | pushOutRef =>
      obtain ⟨target, rewrites⟩ := push split ran
      exact .inl ⟨_, target, rfl, rewrites⟩
    | pop => exact .inl (pop split ran)
    | unreachable => exact .inl (unreachable split ran)
    | returnValue | returnRef | returnPointer =>
      obtain ⟨target, rewrites⟩ := returnValue split ran
      exact .inl ⟨_, target, rfl, rewrites⟩
    | markLabel => exact .inl (markLabel split ran)
    | declareLocals hasInitFlag => exact .inl (declareLocals split ran)
  | emit opcode parameter => exact .inl (emit split ran)
  | builder b =>
    obtain ⟨-, rfl⟩ := by simpa using Rewrite.body_bind_eq_ok.1 ran
    exact .inr ⟨rfl, rfl⟩

/-- So does every visit; where no marker is called nothing changes. What the site
is can be told from the state before the visit. -/
theorem visit {place : Place} (ran : (Rewrite.visit frame place).run state = .ok cursor final) :
    (∃ site target, Rewrite.site? frame place state = some site ∧
      Rewrites frame state final site target) ∨
      (Rewrite.site? frame place state = none ∧ final = state) := by
  obtain ⟨i, _, looking, ran⟩ := Steps.run_bind_ok.1 (Rewrite.body_bind_eq_ok.1 ran)
  obtain ⟨found, rfl⟩ := Rewrite.faultless_eq_ok.1 looking
  obtain ⟨before, call, after, rfl, -, split⟩ :=
    (Body.runs_of_instruction? (Body.instruction_eq_ok.1 found)).split
  have content := Code.instruction?_of_split split
  rw [Body.instruction_eq_ok.1 found] at content
  obtain rfl := Option.some.inj content
  unfold Rewrite.site?
  rw [Code.line?_of_split split, Option.bind_some]
  split at ran
  · simp at ran
  · next plain =>
    obtain ⟨-, rfl⟩ := by simpa using Rewrite.body_bind_eq_ok.1 ran
    rw [plain]
    exact .inr ⟨rfl, rfl⟩
  · next marker marks =>
    rw [marks]
    exact rewriteCall split ran

end Rewrites

end InlineCil
