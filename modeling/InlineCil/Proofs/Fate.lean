import InlineCil.Proofs.Arguments
import InlineCil.Proofs.Blocks
import InlineCil.Proofs.Layout

/-!
# What becomes of a line

Every original line has one of a few fates. It keeps its instruction, or its
position holds what a marker call stands for; or it is gone, because it was such
a call, or an argument of one, or the throw after code that is never reached. A
pass is right about its frame if every line has a fate at every step; positions
that are empty stay empty, so a fate is never revised for the worse.

That a line was an argument cannot be told from the line itself: a text is loaded
for a marker call or for the program's own use. So an account keeps what each
call has read as a taking. The lines of a taking are together one code that the
marker reads. They stood directly before the call, in its block, once the
arguments of earlier calls had gone, and no line is in two takings. Nothing can
leave the code as an argument unless a call has read it as part of such a code.

`Account` says this of a moment of the pass. The lemmas at the end say how it is
kept when a line is passed over, when lines leave or come in, and when a call
reads its arguments.
-/

namespace InlineCil

/-- The line calls a marker. -/
def Line.Marks (space : String) (line : Line) (marker : Marker) : Prop :=
  line.instruction.marker? space = .ok (some marker)

/-- Nothing stands in the positions of the lines. -/
def Occupancy.Vacant (occ : Occupancy) (lines : List Line) : Prop :=
  ∀ line ∈ lines, occ line.place = none

/-- What a marker call has read: the call with its marker, the original lines
from the first one that was read up to the call, and the lines that were read, as
they stood at that time. -/
structure Taking where
  call : Line
  marker : Marker
  stretch : List Line
  lines : List Line

/-- Why an original line may be gone, given what calls have read: it called a
marker; or it was one of the lines that a call has read; or it was the throw
after a call that says that it is never reached. -/
inductive Leaves (space : String) (original : Body) (takings : List Taking) (line : Line) :
    Prop where
  | marker {marker : Marker} (marks : line.Marks space marker)
  | argument {taking : Taking} (taken : taking ∈ takings)
      (part : line.place ∈ taking.lines.map Line.place)
  | thrown {before after : List Line} {call : Line}
      (split : original.code.linked = before ++ call :: line :: after)
      (marks : call.Marks space (.primitive .unreachable))
      (throws : line.instruction.opcode = .throw)

/-- What a call may read in the position of an original line: the line itself,
with its branches moved, or what an emitting call stands for. -/
inductive ReadAs (space : String) (line now : Line) : Prop where
  | kept (move : Place → Place) (same : now = line.moveTargets move)
  | emitted {opcode : Opcode} {parameter : EmitParameter}
      (marks : line.Marks space (.emit opcode parameter)) (here : now.place = line.place)

/-- A taking is right if its lines are together one code that the marker reads.
They stand in the block of the call and directly before it: whatever else was
there originally had gone already, for calls before this one, and no line is read
twice. -/
structure Taking.Fits (taking : Taking) (space : String) (original : Body)
    (earlier : List Taking) : Prop where
  marks : taking.call.Marks space taking.marker
  reads : taking.marker.Reads space (taking.lines.map Line.instruction)
  split : ∃ before after, original.code.linked = before ++ taking.stretch ++ taking.call :: after ∧
    ∀ other ∈ earlier, other.call ∈ before ++ taking.stretch
  together : ∀ line ∈ taking.lines,
    (Blocks.ofBody original).sameBlock line.place taking.call.place = true
  order : (taking.lines.map Line.place).Sublist (taking.stretch.map Line.place)
  origins : ∀ now ∈ taking.lines, ∃ line ∈ taking.stretch, ReadAs space line now
  between : ∀ line ∈ taking.stretch, line.place ∉ taking.lines.map Line.place →
    Leaves space original earlier line
  apart : ∀ other ∈ earlier, ∀ line ∈ taking.lines, line.place ∉ other.lines.map Line.place

/-- What calls have read in the course of a pass, the last taking first. A call
is in one taking at most, since each taking is for a call after those of the
earlier ones. -/
inductive Takings (space : String) (original : Body) : List Taking → Prop where
  | nothing : Takings space original []
  | next {earlier : List Taking} {taking : Taking} (fits : taking.Fits space original earlier)
      (rest : Takings space original earlier) : Takings space original (taking :: earlier)

/-- What may stand in the position of an original line: the line itself; what an
emitting call stands for; the store that loading an address before a popping call
became, where all that stood between them originally had gone for calls before
that one; or the instruction of a label in the position of the call that marks
it. -/
inductive Stays (space : String) (original : Body) (occ : Occupancy) (takings : List Taking)
    (line now : Line) : Prop where
  | kept (same : now = line)
  | emitted {opcode : Opcode} {parameter : EmitParameter}
      (marks : line.Marks space (.emit opcode parameter)) (here : now.place = line.place)
  | stored {before between after : List Line} {pop : Line} {store : Opcode}
      {earlier : List Taking}
      (split : original.code.linked = before ++ line :: between ++ pop :: after)
      (marks : pop.Marks space (.primitive .pop))
      (together : (Blocks.ofBody original).sameBlock line.place pop.place = true)
      (vacant : occ.Vacant (between ++ [pop])) (history : earlier <:+ takings)
      (behind : ∀ taking ∈ earlier, taking.call ∈ before ++ line :: between)
      (spent : ∀ other ∈ between, Leaves space original earlier other)
      (stores : Rewrite.storeFor? line.instruction.opcode = some store)
      (same : now = ⟨line.place, ⟨store, line.instruction.operand⟩⟩)
  | labelled (marks : line.Marks space (.primitive .markLabel))
      (fresh : original.code.next ≤ now.place.index) (nop : now.instruction = ⟨.nop, .none⟩)

/-- The fate of an original line. -/
def Fate (space : String) (original : Body) (occ : Occupancy) (takings : List Taking)
    (line : Line) : Prop :=
  match occ line.place with
  | some now => Stays space original occ takings line now
  | none => Leaves space original takings line

/-- The account of a pass: what calls have read, all of which is gone, and the
fate of every original line. The calls of the unread lines, which are the last
ones, have read nothing yet. -/
structure Account (space : String) (original : Body) (occ : Occupancy) (takings : List Taking)
    (unread : List Line) : Prop where
  history : Takings space original takings
  vacant : ∀ taking ∈ takings, occ.Vacant taking.lines
  fates : ∀ line ∈ original.code.linked, Fate space original occ takings line
  behind : ∃ done, original.code.linked = done ++ unread ∧
    ∀ taking ∈ takings, taking.call ∈ done

namespace Occupancy

variable {occ next : Occupancy} {place : Place}

/-- Positions that are empty stay empty. -/
def Shrinks (occ next : Occupancy) : Prop := ∀ place, occ place = none → next place = none

/-- Emptying positions in two steps empties them: no step fills a position again. -/
theorem Shrinks.trans {later : Occupancy} (first : occ.Shrinks next)
    (second : next.Shrinks later) : occ.Shrinks later :=
  fun place empty => second place (first place empty)

/-- Vacating positions fills none that was empty. What has left the code does not
come back. -/
theorem shrinks_vacate (occ : Occupancy) (gone : List Place) : occ.Shrinks (occ.vacate gone) := by
  intro place empty
  unfold vacate
  split
  · rfl
  · exact empty

/-- Putting a line where one stands fills no position that was empty. The
position was occupied before, by another line. -/
theorem shrinks_put {position : Place} {line now : Line} (stands : occ position = some now) :
    occ.Shrinks (occ.put position line) := by
  intro place empty
  have other : place ≠ position := by
    rintro rfl
    simp [stands] at empty
  simp [put, other, empty]

/-- A vacant stretch stays vacant for the rest of the pass. This is what makes it
safe to record that code was gone at the time of a call. -/
theorem Vacant.mono {lines : List Line} (vacant : occ.Vacant lines) (shrinks : occ.Shrinks next) :
    next.Vacant lines := fun line member => shrinks line.place (vacant line member)

theorem vacate_of_mem {gone : List Place} (leaves : place ∈ gone) :
    occ.vacate gone place = none := if_pos leaves

theorem vacate_of_not_mem {gone : List Place} (stays : place ∉ gone) :
    occ.vacate gone place = occ place := if_neg stays

@[simp] theorem put_self (position : Place) (line : Line) :
    occ.put position line position = some line := if_pos rfl

/-- Positions other than the one a line is put into keep what stands in them. -/
theorem put_of_ne {position : Place} {line : Line} (other : place ≠ position) :
    occ.put position line place = occ place := if_neg other

end Occupancy

section Fates

variable {space : String} {original : Body} {occ next : Occupancy} {line now call : Line}
  {takings later : List Taking} {taking : Taking} {unread : List Line}

/-- Reasons stay when further calls have read something, since takings are never
given up. -/
theorem Leaves.mono (leaves : Leaves space original takings line) (more : takings ⊆ later) :
    Leaves space original later line := by
  cases leaves with
  | marker marks => exact .marker marks
  | argument taken part => exact .argument (more taken) part
  | thrown split marks throws => exact .thrown split marks throws

/-- What stands keeps its reason when positions are emptied and further calls
read something. Of the reasons only that of a store looks at emptied positions
and at takings, and both only grow. -/
theorem Stays.mono (stays : Stays space original occ takings line now)
    (shrinks : occ.Shrinks next) (more : takings <:+ later) :
    Stays space original next later line now := by
  cases stays with
  | kept same => exact .kept same
  | emitted marks here => exact .emitted marks here
  | stored split marks together vacant history behind spent stores same =>
    exact .stored split marks together (vacant.mono shrinks) (history.trans more) behind spent
      stores same
  | labelled marks fresh nop => exact .labelled marks fresh nop

/-- The fate of a line whose position is taken is that what stands there may
stand there. -/
theorem fate_of_some (stands : occ line.place = some now)
    (stays : Stays space original occ takings line now) : Fate space original occ takings line := by
  unfold Fate
  rw [stands]
  exact stays

/-- The fate of a line whose position is empty is that it may be gone. -/
theorem fate_of_none (empty : occ line.place = none)
    (leaves : Leaves space original takings line) : Fate space original occ takings line := by
  unfold Fate
  rw [empty]
  exact leaves

theorem Fate.stays (fate : Fate space original occ takings line)
    (stands : occ line.place = some now) : Stays space original occ takings line now := by
  unfold Fate at fate
  rwa [stands] at fate

theorem Fate.leaves (fate : Fate space original occ takings line)
    (empty : occ line.place = none) : Leaves space original takings line := by
  unfold Fate at fate
  rwa [empty] at fate

/-- A position that nothing happens to keeps its fate, whatever happens in other
positions. -/
theorem Fate.mono (fate : Fate space original occ takings line) (shrinks : occ.Shrinks next)
    (more : takings <:+ later) (same : next line.place = occ line.place) :
    Fate space original next later line := by
  unfold Fate at fate ⊢
  rw [same]
  split at fate
  · exact fate.mono shrinks more
  · exact fate.mono more.subset

/-- Whatever a call reads in a position is at the place of the position:
references are moved, and an emitting call is overwritten where it stands. -/
theorem ReadAs.place_eq (read : ReadAs space line now) : now.place = line.place := by
  cases read with
  | kept move same => rw [same, Line.place_moveTargets]
  | emitted marks here => exact here

/-- Each taking in a history fits those before it. By induction on the history,
whose last taking is the first of the list. -/
theorem Takings.fits_of_mem (history : Takings space original takings)
    (taken : taking ∈ takings) : ∃ earlier, taking.Fits space original earlier := by
  induction history with
  | nothing => cases taken
  | @next earlier last fits rest ih =>
    rcases List.mem_cons.1 taken with rfl | taken
    · exact ⟨earlier, fits⟩
    · exact ih taken

/-- An original line that was read was read as itself or as what it stands for.
This leads from the lines as a call saw them back to the original code. -/
theorem Taking.Fits.read_of_mem {earlier : List Taking} (fits : taking.Fits space original earlier)
    (member : line ∈ original.code.linked) (part : line.place ∈ taking.lines.map Line.place) :
    ∃ now ∈ taking.lines, ReadAs space line now := by
  obtain ⟨now, read, here⟩ := List.mem_map.1 part
  obtain ⟨origin, among, as⟩ := fits.origins now read
  obtain ⟨before, after, split, -⟩ := fits.split
  have linked : origin ∈ original.code.linked := by
    rw [split]
    simp [among]
  obtain rfl := Code.eq_of_place linked member (as.place_eq.symm.trans here)
  exact ⟨now, read, as⟩

namespace Account

/-- In the beginning nothing has been read, every line stands, and all calls are
unread. -/
theorem initial (stands : ∀ line ∈ original.code.linked, occ line.place = some line) :
    Account space original occ [] original.code.linked where
  history := .nothing
  vacant := by simp
  fates line member := fate_of_some (stands line member) (.kept rfl)
  behind := ⟨[], rfl, by simp⟩

/-- A line may be passed over, in which case its call, if it is one, never reads
anything. -/
theorem skip (account : Account space original occ takings (line :: unread)) :
    Account space original occ takings unread where
  history := account.history
  vacant := account.vacant
  fates := account.fates
  behind := by
    obtain ⟨done, split, calls⟩ := account.behind
    exact ⟨done ++ [line], by simp [split], fun taking taken =>
      List.mem_append_left _ (calls taking taken)⟩

/-- Lines that leave have to have a reason; the fates of the others stay. Takings
are not changed, so the reason has to be there beforehand. -/
theorem vacate (account : Account space original occ takings unread) {gone : List Place}
    (leaving : ∀ line ∈ original.code.linked, line.place ∈ gone →
      Leaves space original takings line) :
    Account space original (occ.vacate gone) takings unread where
  history := account.history
  vacant taking taken := (account.vacant taking taken).mono (Occupancy.shrinks_vacate occ gone)
  fates line member := by
    by_cases leaves : line.place ∈ gone
    · exact fate_of_none (Occupancy.vacate_of_mem leaves) (leaving line member leaves)
    · exact (account.fates line member).mono (Occupancy.shrinks_vacate occ gone)
        (List.suffix_refl _) (Occupancy.vacate_of_not_mem leaves)
  behind := account.behind

/-- What comes into a position has to have a reason; the fates of the others
stay. A line has to stand there before, since a position that is empty stays
empty. -/
theorem put (account : Account space original occ takings unread) {position : Place}
    {now new : Line} (stands : occ position = some now)
    (staying : ∀ line ∈ original.code.linked, line.place = position →
      Stays space original (occ.put position new) takings line new) :
    Account space original (occ.put position new) takings unread where
  history := account.history
  vacant taking taken := (account.vacant taking taken).mono (Occupancy.shrinks_put stands)
  fates line member := by
    by_cases here : line.place = position
    · exact fate_of_some (by rw [here, Occupancy.put_self]) (staying line member here)
    · exact (account.fates line member).mono (Occupancy.shrinks_put stands)
        (List.suffix_refl _) (Occupancy.put_of_ne here)
  behind := account.behind

/-- The same if a marker call leaves as well. The reason for what comes in may
rest on the call having left, as that of a store does. -/
theorem put_vacate (account : Account space original occ takings unread) {position : Place}
    {now new : Line} {marker : Marker} (linked : call ∈ original.code.linked)
    (marks : call.Marks space marker) (stands : occ position = some now)
    (staying : ∀ line ∈ original.code.linked, line.place = position →
      Stays space original ((occ.put position new).vacate [call.place]) takings line new) :
    Account space original ((occ.put position new).vacate [call.place]) takings unread := by
  have puts : occ.Shrinks (occ.put position new) := Occupancy.shrinks_put stands
  have shrinks := puts.trans (Occupancy.shrinks_vacate _ [call.place])
  refine ⟨account.history, fun taking taken => (account.vacant taking taken).mono shrinks, ?_,
    account.behind⟩
  intro line member
  by_cases leaves : line.place ∈ [call.place]
  · obtain rfl := Code.eq_of_place member linked (List.mem_singleton.1 leaves)
    exact fate_of_none (Occupancy.vacate_of_mem leaves) (.marker marks)
  · have kept := @Occupancy.vacate_of_not_mem (occ.put position new) _ _ leaves
    by_cases here : line.place = position
    · refine fate_of_some ?_ (staying line member here)
      rw [kept, here, Occupancy.put_self]
    · refine (account.fates line member).mono shrinks (List.suffix_refl _) ?_
      rw [kept, Occupancy.put_of_ne here]

/-- The first of the unread calls reads something, which leaves. That it is read
is the reason for all of it, and the call has then read all it ever reads: the
next unread call is one after it. -/
theorem read (account : Account space original occ takings (call :: unread))
    (fits : taking.Fits space original takings) (here : taking.call = call) :
    Account space original (occ.vacate (taking.lines.map Line.place)) (taking :: takings)
      unread where
  history := .next fits account.history
  vacant other taken := by
    rcases List.mem_cons.1 taken with rfl | taken
    · exact fun line among => Occupancy.vacate_of_mem (List.mem_map_of_mem among)
    · exact (account.vacant other taken).mono (Occupancy.shrinks_vacate occ _)
  fates line member := by
    by_cases part : line.place ∈ taking.lines.map Line.place
    · exact fate_of_none (Occupancy.vacate_of_mem part) (.argument List.mem_cons_self part)
    · exact (account.fates line member).mono (Occupancy.shrinks_vacate occ _)
        (List.suffix_cons _ _) (Occupancy.vacate_of_not_mem part)
  behind := by
    obtain ⟨done, split, calls⟩ := account.behind
    refine ⟨done ++ [call], by simp [split], fun other taken => ?_⟩
    rcases List.mem_cons.1 taken with rfl | taken
    · simp [here]
    · exact List.mem_append_left _ (calls other taken)

end Account

/-- The stores that loading an address can become: to a local variable or an
argument, in the long or the short form, and to a static field. -/
theorem mem_stores {opcode store : Opcode} (stores : Rewrite.storeFor? opcode = some store) :
    store ∈ [Opcode.stloc, .stlocS, .starg, .stargS, .stsfld] := by
  unfold Rewrite.storeFor? at stores
  split at stores <;> first | (cases stores; simp) | simp at stores

/-- No store is the load of an address, so the result of one popping call is not
rewritten by another. -/
theorem storeFor?_of_storeFor? {opcode store : Opcode}
    (stores : Rewrite.storeFor? opcode = some store) : Rewrite.storeFor? store = none := by
  have none : ∀ store ∈ [Opcode.stloc, .stlocS, .starg, .stargS, .stsfld],
      Rewrite.storeFor? store = none := by decide
  exact none store (mem_stores stores)

/-- No store is part of an argument. So a call never reads what a popping call
left behind. -/
theorem isArgumental_of_storeFor? {opcode store : Opcode}
    (stores : Rewrite.storeFor? opcode = some store) : store.isArgumental = false := by
  have none : ∀ store ∈ [Opcode.stloc, .stlocS, .starg, .stargS, .stsfld],
      store.isArgumental = false := by decide
  exact none store (mem_stores stores)

end Fates

end InlineCil
