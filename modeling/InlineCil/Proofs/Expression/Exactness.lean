import InlineCil.Proofs.Expression.Soundness
import InlineCil.Proofs.Removal

/-!
# Reading the arguments of a call in a body

A rule reads the arguments of its call from the body and takes their instructions
out. The readers are exact, so a reading takes the code of one expression, which
stands right before the call and in its block, and leaves the lines before it; or
it fails because no such code is there or because the expression denotes nothing.

The modules before this one speak of a reader on lines ahead of it. Here the
lines come from a body that is split at the call, and taking them out is a change
of the body that moves references to the call. The bound of a reader is the
number of lines before the call, which covers any code that can stand there.

`reading_exact` has both halves. The first starts from an expression whose code
is in the body and says what the reading gives, including how it fails when the
denotation does. The second starts from a reading that succeeded and gives the
expression.
-/

namespace InlineCil

namespace Rewrite

variable {α : Type} {frame : Frame} {state : Rewriting} {before after : List Line} {call : Line}

/-- The site of a call in a pass: the namespace of the vocabulary, the call, and
the blocks of the body as it was before the pass. -/
def siteOf (frame : Frame) (call : Line) : Site := ⟨space frame, call, frame.blocks⟩

/-- A reading runs its reader on the lines before a call, the nearest first, with
as many rounds as there are lines. If the reader succeeds, the lines it took are
taken out. -/
theorem run_reading_of_instruction {place : Place} {i : Instruction}
    (found : state.body.instruction place = .ok i) (reader : Site → Nat → Reader α) :
    (reading frame place reader).run state =
      let ahead := (state.body.code.linesBefore place).reverse
      match (reader (siteOf frame ⟨place, i⟩) ahead.length).run ⟨ahead, [], state.symbols⟩ with
      | .ok value rest =>
          .ok (value, rest.taken)
            { state with body := takeOut state.body rest.taken, symbols := rest.symbols }
      | .error failure rest =>
          .error (failure.locatedAt place)
            { state with body := takeOut state.body rest.taken, symbols := rest.symbols } := by
  unfold reading siteOf
  simp only [found, Steps.run_bind, Steps.run_get, faultless, Steps.run_pure]
  cases (reader ⟨space frame, ⟨place, i⟩, frame.blocks⟩ _).run _ <;> rfl

/-- At a call that the code is split at, the lines ahead are those before the
split. The number of them is the bound that the reader is given, and what it took
is taken out of the body whatever came of it. -/
theorem run_reading (split : state.body.code.linked = before ++ call :: after)
    (reader : Site → Nat → Reader α) :
    (reading frame call.place reader).run state =
      match (reader (siteOf frame call) before.length).run ⟨before.reverse, [], state.symbols⟩ with
      | .ok value rest =>
          .ok (value, rest.taken)
            { state with body := takeOut state.body rest.taken, symbols := rest.symbols }
      | .error failure rest =>
          .error (failure.locatedAt call.place)
            { state with body := takeOut state.body rest.taken, symbols := rest.symbols } := by
  obtain ⟨place, i⟩ := call
  have found : state.body.code.instruction? place = some i := Code.instruction?_of_split split
  have ahead : state.body.code.linesBefore place = before := Code.linesBefore_of_split split
  have instruction : state.body.instruction place = .ok i := by rw [Body.instruction, found]
  rw [run_reading_of_instruction instruction, ahead]
  dsimp only
  rw [List.length_reverse]

/-- What taking lines before a call leaves of a body: references to the lines go
to the call, those of branches and those of regions. -/
def TakenFrom (b : Body) (kept lines : List Line) (call : Line) (after : List Line)
    (left : Body) : Prop :=
  b.Sheds (kept ++ call :: after) lines (gather (lines.map Line.place) call.place)
    (fun place => some (gather (lines.map Line.place) call.place place)) left

/-- Reading before a call takes certain lines and gives the value of a meaning,
or fails as the meaning fails. -/
def Yields (frame : Frame) (state : Rewriting) (reader : Site → Nat → Reader α)
    (kept lines : List Line) (call : Line) (after : List Line) (meaning : Resolving α) : Prop :=
  match meaning.run state.symbols with
  | .ok value found =>
      ∃ left, TakenFrom state.body kept lines call after left ∧
        (reading frame call.place reader).run state =
          .ok (value, (lines.map Line.place).reverse)
            { state with body := left, symbols := found }
  | .error failure found =>
      ∃ told left, (reading frame call.place reader).run state = .error told left ∧
        told.unplaced = failure.unplaced ∧ left.symbols = found

/-- A reading whose reader follows the code of lines before the call takes these
lines. Success and failure are those of the meaning of the code. -/
theorem reading_of_follows {kept lines : List Line} {reader : Site → Nat → Reader α}
    {code : List Instruction} {meaning : Resolving α}
    (split : state.body.code.linked = kept ++ lines ++ call :: after)
    (held : lines.map Line.instruction = code)
    (together : ∀ line ∈ lines, frame.blocks.sameBlock line.place call.place = true)
    (follows : Reader.Follows (siteOf frame call)
      (reader (siteOf frame call) (kept ++ lines).length) code meaning) :
    Yields frame state reader kept lines call after meaning := by
  have run := @run_reading _ frame _ _ _ _ split reader
  have read := follows lines kept.reverse [] state.symbols held together
  rw [List.reverse_append] at run
  unfold Yields
  cases outcome : meaning.run state.symbols with
  | ok value found =>
    simp only [outcome] at read ⊢
    rw [read] at run
    exact ⟨_, Body.sheds_takeOut split, run⟩
  | error failure found =>
    simp only [outcome] at read ⊢
    obtain ⟨told, left, failed, same, kept⟩ := read
    rw [failed] at run
    exact ⟨_, _, run, by simpa using same, kept⟩

/-- A reading that succeeds took the lines that its reader took, and changed the
body in no other way. -/
theorem taken_of_reading {reader : Site → Nat → Reader α}
    {value : α} {taken : List Place} {final : Rewriting}
    (split : state.body.code.linked = before ++ call :: after)
    (succeeded : (reading frame call.place reader).run state = .ok (value, taken) final) :
    ∃ rest : Reading, (reader (siteOf frame call) before.length).run
        ⟨before.reverse, [], state.symbols⟩ = .ok value rest ∧ rest.taken = taken ∧
      final = { state with body := takeOut state.body taken, symbols := rest.symbols } := by
  rw [run_reading split] at succeeded
  split at succeeded
  · next found rest run =>
    obtain ⟨⟨rfl, rfl⟩, rfl⟩ := by simpa using succeeded
    exact ⟨rest, run, rfl, rfl⟩
  · simp at succeeded

/-- Lines that were taken from before a call stood right before it, so taking
them out leaves the lines before them and the call next to each other. -/
theorem takenFrom_of_took {lines : List Line} {rest : Reading}
    (split : state.body.code.linked = before ++ call :: after)
    (took : Took (siteOf frame call) ⟨before.reverse, [], state.symbols⟩ lines rest) :
    before = rest.ahead.reverse ++ lines ∧ rest.taken = (lines.map Line.place).reverse ∧
      TakenFrom state.body rest.ahead.reverse lines call after
        (takeOut state.body rest.taken) := by
  have parts : before = rest.ahead.reverse ++ lines := by
    have reversed := congrArg List.reverse took.ahead
    simpa using reversed
  have places : rest.taken = (lines.map Line.place).reverse := by simpa using took.taken
  refine ⟨parts, places, ?_⟩
  rw [places]
  exact Body.sheds_takeOut (parts ▸ split)

/-- The readers are exact. Complete: where the code of an expression stands right
before a call and in its block, reading gives what the expression denotes and
leaves what was before the code; if some conversion, composition or lookup fails,
reading fails for that reason.

Sound: a reading that succeeds took the lines right before the call, all in its
block, and they hold the code of an expression that denotes the value. -/
theorem reading_exact (frame : Frame) (k : ArgumentKind) (state : Rewriting)
    (before after : List Line) (call : Line)
    (split : state.body.code.linked = before ++ call :: after) :
    (∀ (e : Expression (space frame) k) (kept lines : List Line),
      before = kept ++ lines → lines.map Line.instruction = e.code →
      (∀ line ∈ lines, frame.blocks.sameBlock line.place call.place = true) →
      Yields frame state (fun site bound => Reader.expression site k bound bound)
        kept lines call after e.denote) ∧
    ∀ (value : k.Value) (taken : List Place) (final : Rewriting),
      (reading frame call.place fun site bound =>
          Reader.expression site k bound bound).run state = .ok (value, taken) final →
      ∃ (e : Expression (space frame) k) (kept lines : List Line) (left : Body),
        before = kept ++ lines ∧ lines.map Line.instruction = e.code ∧
        (∀ line ∈ lines, frame.blocks.sameBlock line.place call.place = true) ∧
        e.denote.run state.symbols = .ok value final.symbols ∧
        taken = (lines.map Line.place).reverse ∧
        TakenFrom state.body kept lines call after left ∧
        final = { state with body := left, symbols := final.symbols } := by
  constructor
  · intro e kept lines parts held together
    subst parts
    have room : e.code.length ≤ (kept ++ lines).length := by
      rw [← held]
      simp
    have follows := @Reader.follows_expression (siteOf frame call) k e _ _ room room
    exact @reading_of_follows _ _ _ _ _ _ _ (fun site bound => Reader.expression site k bound bound)
      _ _ split held together follows
  · intro value taken final succeeded
    obtain ⟨rest, run, rfl, rfl⟩ := taken_of_reading split succeeded
    obtain ⟨e, lines, took, held, means⟩ := Reader.recovers_expression k _ _ _ _ _ run
    obtain ⟨parts, places, left⟩ := takenFrom_of_took split took
    exact ⟨e, _, lines, _, parts, held, took.together, means, places, left, rfl⟩

/-- The number 0, in the shortest way. -/
def zero (space : String) : Expression space .integer :=
  .whole (.literal ⟨.ldcI40, .none⟩ (.int32 0) rfl)

/-- The number 1, in the shortest way. -/
def one (space : String) : Expression space .integer :=
  .whole (.literal ⟨.ldcI41, .none⟩ (.int32 1) rfl)

/-- An array of one text, written group by group. -/
def oneText (space : String) : Expression space (.array .string) :=
  .filledArray (one space)
    (.firstElement ⟨.newarr, .none⟩ ⟨.dup, .none⟩ rfl rfl (zero space) (.text "exit"))
    ⟨.stelemRef, .none⟩ rfl

/-- A pass over a body that holds the array and then a place to read it from. -/
def oneTextRead : Rewriting where
  body := ({} : Body).pushAll ((oneText "InlineIL").code ++ [⟨.nop, .none⟩])
  symbols := { current := "Program", coreLibrary := "System.Private.CoreLib" }

/-- The frame of the pass. -/
def oneTextFrame : Frame where
  settings := {}
  method := { name := "Run", returnType := oneTextRead.symbols.undefinedCoreType "System" "Void" }
  blocks := Blocks.ofBody oneTextRead.body
  mapsPoints := false

/-- The array of one text is read back, and all six instructions of it are taken,
the nearest first. -/
theorem reading_exact_oneText :
    ∃ taken final, (reading oneTextFrame ⟨6⟩ fun site bound =>
      Reader.expression site (.array .string) bound bound).run oneTextRead =
        .ok (["exit"], taken) final ∧ taken = [⟨5⟩, ⟨4⟩, ⟨3⟩, ⟨2⟩, ⟨1⟩, ⟨0⟩] := by
  have exact := reading_exact oneTextFrame (.array .string) oneTextRead
    (oneTextRead.body.code.linked.take 6) [] ⟨⟨6⟩, ⟨.nop, .none⟩⟩ rfl
  obtain ⟨left, -, run⟩ := exact.1 (oneText "InlineIL") [] _ rfl rfl (by decide)
  exact ⟨_, _, run, rfl⟩

end Rewrite

end InlineCil
