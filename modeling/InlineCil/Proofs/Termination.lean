import InlineCil.Proofs.Expression.Recursion
import InlineCil.Proofs.Locality

/-!
# A pass comes to its end

A pass goes from place to place while its rules remove, overwrite and link
instructions before the place, at it and after it. What is left to be visited
only gets shorter: the pending lines after a visit are the last ones of those
before it. So the pass ends without counting its visits, and so does every
reading of arguments without counting its steps.

`Scans` describes a pass without a count, as an inductive relation between a
start and an outcome with the places visited. That it has a derivation from every
start is the statement that the pass ends; that the counted scan agrees with it
for every sufficient count says that the count in the program is never what ends
a pass.

For readers the corresponding statement is that the readers without a bound exist
and are unique, and that the bounded ones are them whenever the bound covers the
lines ahead. Whatever comes of a reading, each line that it takes was ahead of
it, so it takes no more steps than there are lines.
-/

namespace InlineCil

variable {frame : Frame} {original : Body} {symbols : Symbols} {occ : Occupancy} {line : Line}
  {unread pending rest : List Line} {cursor : Option Place} {place : Place} {state left : Rewriting}

/-- Visit after visit until there is no place to go on from or a visit fails,
however many it takes: the places visited, in their order, and what comes of it. -/
inductive Scans (frame : Frame) : Option Place → Rewriting → List Place →
    EStateM.Result Failure Rewriting Unit → Prop where
  | ended {state : Rewriting} : Scans frame none state [] (.ok () state)
  | failed {place : Place} {state left : Rewriting} {failure : Failure}
      (visited : (Rewrite.visit frame place).run state = .error failure left) :
      Scans frame (some place) state [place] (.error failure left)
  | visited {place : Place} {cursor : Option Place} {state left : Rewriting}
      {places : List Place} {outcome : EStateM.Result Failure Rewriting Unit}
      (visited : (Rewrite.visit frame place).run state = .ok cursor left)
      (rest : Scans frame cursor left places outcome) :
      Scans frame (some place) state (place :: places) outcome

namespace Framed

/-- The place to visit is linked, and behind it are the other pending lines. So
the lines from the cursor on get fewer with every visit. -/
theorem linesFrom (framed : Framed frame original occ unread (line :: rest) state) :
    line.place ∈ state.body.code.places ∧
      (state.body.code.linesFrom line.place).length = (line :: rest).length := by
  obtain ⟨done, split⟩ := framed.placed.split
  have code := framed.placed.code split
  have behind := Code.linesFrom_of_split code
  rw [Line.place_moveTargets] at behind
  refine ⟨?_, by simp [behind]⟩
  rw [Code.places, code]
  simp

/-- A visit goes on at a linked line, nearer to the end of the code: the lines
that are pending after it are the last ones of those before it. -/
theorem nearer (framed : Framed frame original occ (line :: rest) (line :: rest) state)
    (visited : (Rewrite.visit frame line.place).run state = .ok (some place) left) :
    place ∈ left.body.code.places ∧ (left.body.code.linesFrom place).length <
      (state.body.code.linesFrom line.place).length := by
  obtain ⟨_, pending, after, there, later⟩ := framed.visit visited
  cases pending with
  | nil => simp at there
  | cons next others =>
    obtain rfl : place = next.place := by simpa using there
    obtain ⟨linked, behind⟩ := after.linesFrom
    rw [behind, framed.linesFrom.2]
    exact ⟨linked, Nat.lt_succ_of_le later.length_le⟩

/-- From the first pending line on, the pass ends. It visits some of the pending
lines, each once, and no other number of visits than there are pending lines has
to be allowed for. By induction on their number. -/
theorem scans (framed : Framed frame original occ pending pending state) :
    ∃ places outcome, Scans frame (pending.head?.map Line.place) state places outcome ∧
      places.Sublist (pending.map Line.place) ∧ ∀ visits, pending.length ≤ visits →
        (Rewrite.scan frame visits (pending.head?.map Line.place)).run state = outcome := by
  generalize size : pending.length = n
  induction n using Nat.strong_induction_on generalizing occ pending state with
  | _ n ih =>
  subst size
  cases pending with
  | nil =>
    refine ⟨[], _, .ended, List.Sublist.slnil, fun visits _ => ?_⟩
    cases visits <;> rfl
  | cons line rest =>
    have begins {visits : Nat} (enough : (line :: rest).length ≤ visits) :
        ∃ others, visits = others + 1 ∧ rest.length ≤ others :=
      ⟨visits - 1, by simp at enough; omega, by simp at enough; omega⟩
    cases visited : (Rewrite.visit frame line.place).run state with
    | error failure left =>
      refine ⟨_, _, .failed visited, List.Sublist.cons_cons _ (List.nil_sublist _), ?_⟩
      intro visits enough
      obtain ⟨others, rfl, -⟩ := begins enough
      exact (Steps.run_bind _ _ _).trans (by rw [visited])
    | ok cursor left =>
      obtain ⟨_, remaining, after, rfl, later⟩ := framed.visit visited
      obtain ⟨places, outcome, scans, part, same⟩ :=
        ih remaining.length (Nat.lt_succ_of_le later.length_le) after rfl
      refine ⟨_, outcome, .visited visited scans,
        (part.trans (later.sublist.map Line.place)).cons_cons _, fun visits enough => ?_⟩
      obtain ⟨others, rfl, room⟩ := begins enough
      refine (Steps.run_bind _ _ _).trans ?_
      rw [visited]
      exact same others (Nat.le_trans later.length_le room)

end Framed

/-- Every visit goes on nearer to the end of the code or not at all. So the pass
ends: it visits original instructions in their order, each at most once, and its
number of visits need not be counted. -/
structure ScanEnds (frame : Frame) (original : Body) (symbols : Symbols) : Prop where
  nearer : ∀ place state, Visits frame original symbols place state →
    ∀ cursor left, (Rewrite.visit frame place).run state = .ok cursor left →
      ∀ next, cursor = some next → next ∈ left.body.code.places ∧
        (left.body.code.linesFrom next).length < (state.body.code.linesFrom place).length
  once : ∃ places outcome,
    Scans frame original.code.first? { body := original, symbols } places outcome ∧
      places.Nodup ∧ places.Sublist original.code.places ∧
      ∀ visits, original.code.linked.length ≤ visits →
        (Rewrite.scan frame visits original.code.first?).run { body := original, symbols } = outcome

/-- What a marker reads before its call, read with readers that may go on to each
other. -/
def Marker.reads? (site : Site) (readers : Readers) : Marker → Option ((α : Type) × Reader α)
  | .primitive .markLabel => some ⟨_, Reader.string site⟩
  | .primitive (.declareLocals hasInitFlag) => some ⟨_, readers.declarations site hasInitFlag⟩
  | .emit _ parameter => some ⟨_, readers.argument site parameter⟩
  | _ => none

/-- Nothing but lines that were ahead is taken, so there are no more steps than
these. -/
def Site.StepsWithin {α : Type} (site : Site) (reader : Reader α) (state : Reading) : Prop :=
  Steps.Meets reader state
    (fun _ left => ∃ lines, Took site state lines left ∧ lines.length ≤ state.ahead.length)
    fun _ left => ∃ lines, Took site state lines left ∧ lines.length ≤ state.ahead.length

/-- A step of a reader takes a line before it goes on to readers, so it only
depends on what these do with fewer lines ahead. So there is exactly one way to
go on without a bound. As many steps as there are lines ahead, and one that finds
nothing ahead, are the whole of it, whatever would come after them; reading up to
a bound is just that if no more lines are ahead. Whatever comes of it, every line
taken was ahead. -/
structure ReadingEnds (site : Site) : Prop where
  step : ∀ n one other, Readers.Agree n one other →
    Readers.Agree (n + 1) (one.next site) (other.next site)
  recursion : ∃! readers : Readers, readers.next site = readers
  steps : ∀ readers : Readers, readers.next site = readers →
    ∀ after n, Readers.Agree (n + 1) ((Readers.next site)^[n + 1] after) readers
  bounded : ∀ readers : Readers, readers.next site = readers →
    ∀ bound, Readers.Agree (bound + 1) (.bounded site bound) readers
  arguments : ∀ readers : Readers, readers.next site = readers →
    ∀ (marker : Marker) (α : Type) reader, marker.reader? = some ⟨α, reader⟩ →
      ∃ whole, marker.reads? site readers = some ⟨α, whole⟩ ∧
        ∀ (state : Reading) bound, state.ahead.length ≤ bound →
          (reader site bound).run state = whole.run state ∧
            site.StepsWithin (reader site bound) state

variable {site : Site} {α : Type}

/-- A reader that takes lines from ahead takes no more than are ahead, also when
it fails. -/
theorem Site.stepsWithin {reader : Reader α} (kept : (Reader.restraint site).KeptBy reader)
    (state : Reading) : site.StepsWithin reader state := by
  have within {left : Reading} (took : ∃ lines, Took site state lines left) :
      ∃ lines, Took site state lines left ∧ lines.length ≤ state.ahead.length := by
    obtain ⟨lines, took⟩ := took
    refine ⟨lines, took, ?_⟩
    rw [took.ahead, List.length_append, List.length_reverse]
    exact Nat.le_add_right _ _
  exact (kept state).mono (fun _ _ reached => within reached.1) fun _ _ reached => within reached.1.1

/-- What a marker reads under a bound that covers the lines ahead is what it
reads without a bound. Proof: for each marker with arguments, from the agreement
of its readers. -/
theorem Marker.run_reader? {marker : Marker} {reader : Site → Nat → Reader α}
    (reads : marker.reader? = some ⟨α, reader⟩) {readers : Readers}
    (fixed : readers.next site = readers) :
    ∃ whole, marker.reads? site readers = some ⟨α, whole⟩ ∧
      ∀ (state : Reading) bound, state.ahead.length ≤ bound →
        (reader site bound).run state = whole.run state := by
  unfold Marker.reader? at reads
  split at reads
  · obtain ⟨rfl, rfl⟩ := by simpa using reads
    exact ⟨_, rfl, fun _ _ _ => rfl⟩
  · next hasInitFlag =>
    obtain ⟨rfl, rfl⟩ := by simpa using reads
    refine ⟨_, rfl, fun state bound few => ?_⟩
    exact ((Readers.agree_bounded fixed bound).declarations site hasInitFlag state
      (Nat.lt_succ_of_le few)).1
  · next opcode parameter =>
    obtain ⟨rfl, rfl⟩ := by simpa using reads
    refine ⟨_, rfl, fun state bound few => ?_⟩
    dsimp only
    rw [← Readers.argument_bounded]
    exact ((Readers.agree_bounded fixed bound).argument site parameter state
      (Nat.lt_succ_of_le few)).1
  · simp at reads

/-- Readings end, from what is known of the readers without a bound. Each part of
the statement is one lemma: on steps, on the recursion, on its rounds and on the
bounded readers. -/
theorem readingEnds (site : Site) : ReadingEnds site where
  step _ _ _ agree := agree.next site
  recursion := ⟨.unbounded site, Readers.next_unbounded site, fun _ fixed =>
    Readers.eq_of_fixed fixed (Readers.next_unbounded site)⟩
  steps readers fixed after n := by
    have agree := Readers.agree_steps site after readers (n + 1)
    rwa [Function.iterate_fixed fixed] at agree
  bounded _ fixed := Readers.agree_bounded fixed
  arguments readers fixed marker α reader reads := by
    obtain ⟨whole, same, runs⟩ := Marker.run_reader? reads fixed
    exact ⟨whole, same, fun state bound few =>
      ⟨runs state bound few, Site.stepsWithin (Marker.restrained reads site bound) state⟩⟩

/-- A pass over a body ends, whatever code it finds before its calls: it goes on
nearer to the end of the code at every visit, and a rule that reads arguments
takes an instruction at every step. -/
theorem Rewrite.comes_to_end (frame : Frame) (original : Body) (symbols : Symbols)
    (blocks : frame.blocks = Blocks.ofBody original) :
    ScanEnds frame original symbols ∧ ∀ site, ReadingEnds site := by
  refine ⟨⟨?_, ?_⟩, readingEnds⟩
  · rintro place state visits cursor left visited next rfl
    obtain ⟨occ, line, rest, rfl, framed⟩ := visits.exists_framed blocks
    exact framed.nearer visited
  · obtain ⟨places, outcome, scans, part, same⟩ :=
      (Framed.initial frame original symbols blocks).scans
    exact ⟨places, outcome, scans, part.nodup original.code.nodup_linked, part, same⟩

/-- A method that marks a label without giving its name. -/
def namelessBody : Body :=
  ({} : Body).pushAll
    [⟨.ldnull, .none⟩,
      Weave.primitiveCall "MarkLabel" [Weave.emptyProgram.undefinedCoreType "System" "String"],
      ⟨.ret, .none⟩]

/-- The pass over it ends at the mark, where something else than a name is taken. -/
theorem Rewrite.comes_to_end_namelessBody :
    (∃ failure left, Scans { Visits.markingFrame with blocks := .ofBody namelessBody } (some ⟨0⟩)
      { body := namelessBody, symbols := Weave.emptyProgram } [⟨0⟩, ⟨1⟩]
      (.error failure left)) ∧
      ScanEnds { Visits.markingFrame with blocks := .ofBody namelessBody } namelessBody
        Weave.emptyProgram ∧
      ∀ site, ReadingEnds site :=
  ⟨⟨_, _, .visited rfl (.failed rfl)⟩, Rewrite.comes_to_end _ _ _ rfl⟩

end InlineCil
