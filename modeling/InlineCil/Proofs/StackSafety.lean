import InlineCil.Proofs.Order
import InlineCil.Proofs.Steps

/-!
# What the stack analysis knows

Let every instruction of a body have a depth of the stack before it, such that
the depths agree with what the instructions pop and push, along every way that
control can take. Then the one pass over the body finds exactly these depths,
although it never follows a branch back. The top of the stack counts as known
exactly if some instruction has put it there and control comes from that
instruction in one way only: nothing joins it, no handler is entered, and the
slot is left alone.

The watermark carries this. Before every line, a slot is at or above the
watermark exactly if its value has come straight from the instruction that put it
there.

`Provides` is the specification, an inductive relation along ways of control that
does not mention the analysis. `Describes` and `Follows` relate the states before
and after a line to it, and the walk keeps two things for the lines that are
left: what falls through to the next of them, and what has arrived at places by
branches and handler entries. The state before a line is told by which of these
there are, with one lemma for each combination.
-/

namespace InlineCil

/-- The clause enters its handler or its filter at the place, with a number of
slots on the stack: the exception, or nothing. -/
def Clause.Enters (clause : Clause) (place : Place) (slots : Nat) : Prop :=
  (clause.handlerStart = place ∧ slots = if clause.receivesException then 1 else 0) ∨
  (clause.filterStart = some place ∧ slots = 1)

/-- A handler or a filter of the body is entered at the place. -/
def Body.Enters (b : Body) (place : Place) (slots : Nat) : Prop :=
  ∃ clause ∈ b.clauses, clause.Enters place slots

namespace StackSafety

/-- The ways control falls through from a line to the next one. -/
def falls : List Line → List (Line × Place)
  | line :: next :: rest =>
      if line.instruction.opcode.flow.endsFlow then falls (next :: rest)
      else (line, next.place) :: falls (next :: rest)
  | _ => []

/-- The ways control branches from lines to places. -/
def branches (lines : List Line) : List (Line × Place) :=
  lines.flatMap fun line => line.instruction.targets.map (line, ·)

/-- The ways control can take. A switch that names a place twice goes there in
two ways. -/
def ways (lines : List Line) : List (Line × Place) := falls lines ++ branches lines

/-- In how many ways control comes to a place. -/
def predecessors (lines : List Line) (place : Place) : Nat := ((ways lines).map (·.2)).count place

variable {line next : Line} {place : Place} {lines done rest : List Line}

/-- The ways of falling through up to a line and from it on are all there are.
The line is counted with both parts, as the end of one way and the start of the
next. -/
theorem falls_append (done : List Line) (line : Line) (rest : List Line) :
    falls (done ++ line :: rest) = falls (done ++ [line]) ++ falls (line :: rest) := by
  induction done with
  | nil => simp [falls]
  | cons first done ih =>
    cases done with
    | nil =>
      simp only [List.cons_append, List.nil_append, falls]
      split <;> simp
    | cons second done =>
      simp only [List.cons_append, falls] at ih ⊢
      split <;> simp [ih]

/-- Control falls through to lines after the first. Nothing stands before the
first line that could fall through to it. -/
theorem mem_tail_of_mem_falls {way : Line × Place} (way_mem : way ∈ falls lines) :
    way.2 ∈ lines.tail.map Line.place := by
  fun_induction falls lines with
  | case1 line next rest ends ih => simpa using .inr (by simpa using ih way_mem)
  | case2 line next rest goes ih =>
    rcases List.mem_cons.1 way_mem with rfl | later
    · simp
    · simpa using .inr (by simpa using ih later)
  | case3 => simp at way_mem

theorem map_branches (lines : List Line) :
    (branches lines).map (·.2) = lines.flatMap (·.instruction.targets) := by
  simp [branches, List.map_flatMap, Function.comp_def]

/-- The line before the pending ones goes on to them. -/
def fallsInto (done : List Line) : Bool :=
  done.getLast?.any (!·.instruction.opcode.flow.endsFlow)

/-- Control comes to a line from the line before, if that goes on, and by
branches. The branches are those of the whole code, and those that come later in
it count as well. -/
theorem predecessors_of_split (nodup : ((done ++ line :: rest).map Line.place).Nodup) :
    predecessors (done ++ line :: rest) line.place = (fallsInto done).toNat +
      ((done ++ line :: rest).flatMap (·.instruction.targets)).count line.place := by
  have apart : line.place ∉ done.map Line.place ∧ line.place ∉ rest.map Line.place := by
    rw [List.map_append, List.map_cons, List.nodup_append] at nodup
    obtain ⟨-, later, disjoint⟩ := nodup
    exact ⟨fun here => disjoint _ here _ (by simp) rfl, (List.nodup_cons.1 later).1⟩
  have onward : ((falls (line :: rest)).map (·.2)).count line.place = 0 := by
    refine List.count_eq_zero_of_not_mem fun found => ?_
    obtain ⟨way, way_mem, there⟩ := List.mem_map.1 found
    exact apart.2 (there ▸ mem_tail_of_mem_falls way_mem)
  unfold predecessors ways
  rw [List.map_append, List.count_append, map_branches]
  congr 1
  rcases List.eq_nil_or_concat done with rfl | ⟨init, last, rfl⟩
  · simpa [fallsInto] using onward
  · rw [List.concat_eq_append] at apart ⊢
    have backward : ((falls (init ++ [last])).map (·.2)).count line.place = 0 := by
      refine List.count_eq_zero_of_not_mem fun found => ?_
      obtain ⟨way, way_mem, there⟩ := List.mem_map.1 found
      obtain ⟨other, other_mem, same⟩ := List.mem_map.1 (mem_tail_of_mem_falls way_mem)
      exact apart.1 (there ▸ same ▸ List.mem_map_of_mem (List.mem_of_mem_tail other_mem))
    have whole : init ++ [last] ++ line :: rest = init ++ last :: line :: rest := by simp
    rw [whole, falls_append, List.map_append, List.count_append, backward, falls]
    cases ends : last.instruction.opcode.flow.endsFlow <;> simp [fallsInto, ends, onward]

/-- Where control comes in one way only, it comes from one line only. A line that
branches to the same place twice would count as two ways. -/
theorem eq_of_single {ways : List (Line × Place)} {first second : Line}
    (single : (ways.map (·.2)).count place = 1) (left : (first, place) ∈ ways)
    (right : (second, place) ∈ ways) : first = second := by
  obtain ⟨before, after, rfl⟩ := List.append_of_mem left
  simp only [List.map_append, List.map_cons, List.count_append, List.count_cons_self] at single
  rcases List.mem_append.1 right with earlier | right
  · have found : place ∈ before.map (·.2) := List.mem_map.2 ⟨_, earlier, rfl⟩
    have := List.count_pos_iff.2 found
    omega
  · rcases List.mem_cons.1 right with here | later
    · exact (congrArg Prod.fst here).symm
    · have found : place ∈ after.map (·.2) := List.mem_map.2 ⟨_, later, rfl⟩
      have := List.count_pos_iff.2 found
      omega

section

variable (b : Body) (returnsValue : Bool) (depth : Place → Nat)

/-- The depth of the stack after a line: what the line clears is gone, and else
it pops and pushes. -/
def depthAfter (line : Line) : Nat :=
  let effect := line.instruction.stackEffect returnsValue
  if effect.clears then 0 else depth line.place - effect.pops + effect.pushes

/-- Depths that agree with what the instructions do, along every way of control.
The stack is empty at the entry of the method, and where control comes by no way
from before: after a line that ends the flow, if no earlier line branches there
and no handler is entered. -/
structure Consistent : Prop where
  entry : ∀ line, b.code.linked.head? = some line → depth line.place = 0
  entered : ∀ place slots, b.Enters place slots → depth place = slots
  along : ∀ way ∈ ways b.code.linked, depth way.2 = depthAfter returnsValue depth way.1
  resumed : ∀ done last line rest, b.code.linked = done ++ last :: line :: rest →
    last.instruction.opcode.flow.endsFlow = true →
    (∀ earlier ∈ done ++ [last], line.place ∉ earlier.instruction.targets) →
    (∀ slots, ¬ b.Enters line.place slots) → depth line.place = 0
  enough : ∀ line ∈ b.code.linked,
    (line.instruction.stackEffect returnsValue).pops ≤ depth line.place

/-- The line pushes the value in a slot. -/
def Puts (slot : Nat) (line : Line) : Prop :=
  let effect := line.instruction.stackEffect returnsValue
  effect.clears = false ∧ depth line.place - effect.pops ≤ slot ∧
    slot < depth line.place - effect.pops + effect.pushes

/-- The line leaves a slot below those that it pops. -/
def Spares (slot : Nat) (line : Line) : Prop :=
  let effect := line.instruction.stackEffect returnsValue
  effect.clears = false ∧ slot < depth line.place - effect.pops

/-- Control comes to a line in one way only, from another line, and enters no
handler there. -/
structure Straight (line next : Line) : Prop where
  way : (line, next.place) ∈ ways b.code.linked
  single : predecessors b.code.linked next.place = 1
  outside : ∀ slots, ¬ b.Enters next.place slots

/-- The value that a slot has before a line was pushed by a source. From the
source to the line control comes straight, and nothing on the way pops the slot. -/
inductive Provides (slot : Nat) : Line → Line → Prop where
  | put {source line : Line} (straight : Straight b source line)
      (puts : Puts returnsValue depth slot source) : Provides slot source line
  | kept {source middle line : Line} (provided : Provides slot source middle)
      (straight : Straight b middle line) (spares : Spares returnsValue depth slot middle) :
      Provides slot source line

/-- After a line, the value in a slot has come straight from the line that pushed
it. -/
def Held (slot : Nat) (line : Line) : Prop :=
  Puts returnsValue depth slot line ∨
    Spares returnsValue depth slot line ∧ ∃ source, Provides b returnsValue depth slot source line

/-- A state before a line says its depth, and the slots at or above the watermark
are those whose values have come straight. -/
structure Describes (line : Line) (state : StackState) : Prop where
  depth_eq : state.depth = depth line.place
  low : state.watermark ≤ state.depth
  exact : ∀ slot < depth line.place,
    state.watermark ≤ slot ↔ ∃ source, Provides b returnsValue depth slot source line

/-- A state that a line leaves behind says the same of the stack after it. -/
structure Follows (line : Line) (state : StackState) : Prop where
  loose : state.fixed = false
  depth_eq : state.depth = depthAfter returnsValue depth line
  low : state.watermark ≤ state.depth
  exact : ∀ slot < depthAfter returnsValue depth line,
    state.watermark ≤ slot ↔ Held b returnsValue depth slot line

end

variable {b : Body} {returnsValue : Bool} {depth : Place → Nat} {slot : Nat}
  {state falling : StackState} {arrivals : Arrivals} {arrived : List (Line × Place)}

/-- What a line is provided with, the line that control comes from straight has
held. It was put there by that line, or provided to it and spared. -/
theorem exists_provides_iff : (∃ source, Provides b returnsValue depth slot source line) ↔
    ∃ last, Straight b last line ∧ Held b returnsValue depth slot last := by
  constructor
  · rintro ⟨source, provided⟩
    cases provided with
    | put straight puts => exact ⟨source, straight, .inl puts⟩
    | kept provided straight spares => exact ⟨_, straight, .inr ⟨spares, source, provided⟩⟩
  · rintro ⟨last, straight, puts | ⟨spares, source, provided⟩⟩
    · exact ⟨last, .put straight puts⟩
    · exact ⟨source, .kept provided straight spares⟩

/-- One step of the analysis: pops lower the watermark, so that what is pushed
then is above. What was above it and was not popped is still there, and has come
straight. -/
theorem Describes.follows (describes : Describes b returnsValue depth line state) :
    Follows b returnsValue depth line
      (state.after (line.instruction.stackEffect returnsValue)) := by
  obtain ⟨depth_eq, low, exact⟩ := describes
  unfold StackState.after
  cases clears : (line.instruction.stackEffect returnsValue).clears with
  | true =>
    rw [if_pos rfl]
    have empty : depthAfter returnsValue depth line = 0 := by simp [depthAfter, clears]
    refine ⟨rfl, empty.symm, Nat.le_refl 0, fun slot below => ?_⟩
    omega
  | false =>
    rw [if_neg (by simp)]
    have after : depthAfter returnsValue depth line =
        depth line.place - (line.instruction.stackEffect returnsValue).pops +
          (line.instruction.stackEffect returnsValue).pushes := by simp [depthAfter, clears]
    refine ⟨rfl, by rw [after, ← depth_eq], by dsimp only; omega, fun slot below => ?_⟩
    have puts : Puts returnsValue depth slot line ↔
        depth line.place - (line.instruction.stackEffect returnsValue).pops ≤ slot := by
      simp only [Puts, clears, true_and]
      omega
    have spares : Spares returnsValue depth slot line ↔
        slot < depth line.place - (line.instruction.stackEffect returnsValue).pops := by
      simp [Spares, clears]
    unfold Held
    rw [puts, spares, depth_eq]
    -- Slots that the line pops or pushes are above the new watermark, the others are as before.
    by_cases popped : depth line.place - (line.instruction.stackEffect returnsValue).pops ≤ slot
    · exact iff_of_true (Nat.le_trans (Nat.min_le_right _ _) popped) (.inl popped)
    · rw [← exact slot (by omega)]
      dsimp only
      omega

/-- Entering a place sets its state and leaves the states of others. The earlier
state of the place is taken out, so that there is one state for each. -/
theorem lookup_enter (arrivals : Arrivals) (place other : Place) (state : StackState) :
    (enter arrivals place state).lookup other =
      if place = other then some state else arrivals.lookup other := by
  unfold enter
  rw [Steps.lookup_cons]
  by_cases same : place = other
  · rw [if_pos same, if_pos same.symm]
  · rw [if_neg same, if_neg (Ne.symm same)]
    -- What is taken out of the arrivals is elsewhere.
    induction arrivals with
    | nil => rfl
    | cons first rest ih =>
      obtain ⟨here, arrived⟩ := first
      rw [List.filter_cons, Steps.lookup_cons]
      split
      · rw [Steps.lookup_cons, ih]
      · next taken =>
        have elsewhere : other ≠ here := by
          rintro rfl
          exact taken (by simpa using Ne.symm same)
        rw [ih, if_neg elsewhere]

/-- What has arrived at places, from lines that branch there and from clauses. A
handler entry keeps its own state. Where one branch has arrived, its state is
that of the line it comes from. -/
structure Arriving (b : Body) (returnsValue : Bool) (depth : Place → Nat)
    (arrived : List (Line × Place)) (arrivals : Arrivals) : Prop where
  entered : ∀ place slots, b.Enters place slots → ∃ state, arrivals.lookup place = some state ∧
    state.fixed = true ∧ state.depth = depth place ∧ state.watermark = state.depth
  absent : ∀ place, (∀ slots, ¬ b.Enters place slots) → arrivals.lookup place = none →
    ∀ way ∈ arrived, way.2 ≠ place
  present : ∀ place state, (∀ slots, ¬ b.Enters place slots) →
    arrivals.lookup place = some state →
      state.fixed = false ∧ state.depth = depth place ∧ state.watermark ≤ state.depth ∧
        ∃ line, (line, place) ∈ arrived ∧
          ((arrived.map (·.2)).count place = 1 → Follows b returnsValue depth line state)

/-- A clause sets the states of its handler and its filter, the filter's last. If
both are at one place, it is the state of the filter that counts. -/
theorem lookup_enterClause (arrivals : Arrivals) (clause : Clause) (place : Place) :
    (enterClause arrivals clause).lookup place =
      if clause.filterStart = some place then some ⟨1, 1, true⟩
      else if clause.handlerStart = place then
        some (if clause.receivesException then ⟨1, 1, true⟩ else ⟨0, 0, true⟩)
      else arrivals.lookup place := by
  unfold enterClause
  cases clause.filterStart with
  | none =>
    rw [lookup_enter]
    split <;> simp
  | some filter =>
    rw [lookup_enter, lookup_enter]
    split <;> simp_all

/-- The state set for an entry is that of a clause which enters there. If several
clauses do, it is that of the last one; consistent depths make them agree. -/
theorem lookup_enterAll (clauses : List Clause) (arrivals : Arrivals) (place : Place) :
    match (clauses.foldl enterClause arrivals).lookup place with
    | some state => arrivals.lookup place = some state ∨
        state.fixed = true ∧ state.watermark = state.depth ∧
          ∃ clause ∈ clauses, clause.Enters place state.depth
    | none => arrivals.lookup place = none ∧
        ∀ clause ∈ clauses, ∀ slots, ¬ clause.Enters place slots := by
  induction clauses generalizing arrivals with
  | nil => cases found : arrivals.lookup place <;> simp [found]
  | cons clause clauses ih =>
    have later := ih (enterClause arrivals clause)
    rw [List.foldl_cons]
    rw [lookup_enterClause] at later
    split at later
    · next state _ =>
      rcases later with here | ⟨fixed, pinned, entering, mem, enters⟩
      · by_cases filter : clause.filterStart = some place
        · obtain rfl : ⟨1, 1, true⟩ = state := by simpa [filter] using here
          exact .inr ⟨rfl, rfl, clause, by simp, .inr ⟨filter, rfl⟩⟩
        · by_cases handler : clause.handlerStart = place
          · rw [if_neg filter, if_pos handler] at here
            obtain rfl := Option.some.inj here
            refine .inr ?_
            split
            · next receives => exact ⟨rfl, rfl, clause, by simp, .inl ⟨handler, by simp [receives]⟩⟩
            · next receives => exact ⟨rfl, rfl, clause, by simp, .inl ⟨handler, by simp [receives]⟩⟩
          · exact .inl (by simpa [filter, handler] using here)
      · exact .inr ⟨fixed, pinned, entering, by simp [mem], enters⟩
    · obtain ⟨here, others⟩ := later
      have filter : clause.filterStart ≠ some place := fun same => by simp [same] at here
      have handler : clause.handlerStart ≠ place := fun same => by simp [filter, same] at here
      refine ⟨by simpa [filter, handler] using here, fun entering mem slots enters => ?_⟩
      rcases List.mem_cons.1 mem with rfl | mem
      · exact enters.elim (fun found => handler found.1) fun found => filter found.1
      · exact others entering mem slots enters

/-- Before anything has branched, the clauses have set the states of their
entries, and nothing else has arrived anywhere. -/
theorem arriving_initial (consistent : Consistent b returnsValue depth) :
    Arriving b returnsValue depth [] (b.clauses.foldl enterClause []) := by
  have set (place : Place) := lookup_enterAll b.clauses [] place
  refine ⟨fun place slots enters => ?_, fun _ _ _ _ mem => by simp at mem,
    fun place state outside found => ?_⟩
  · have known := set place
    split at known
    · next state found =>
      rcases known with impossible | ⟨fixed, pinned, entering⟩
      · simp at impossible
      · exact ⟨state, found, fixed, (consistent.entered place _ entering).symm, pinned⟩
    · obtain ⟨clause, mem, enters⟩ := enters
      exact absurd enters (known.2 clause mem slots)
  · have known := set place
    rw [found] at known
    rcases known with impossible | ⟨-, -, entering⟩
    · simp at impossible
    · exact absurd entering (outside _)

/-- A branch arrives. A second one at the same place makes it a join, of which
nothing but the depth is kept. A handler keeps its state whatever branches to it. -/
theorem Arriving.arrive (arriving : Arriving b returnsValue depth arrived arrivals)
    (follows : Follows b returnsValue depth line state)
    (agrees : depth place = depthAfter returnsValue depth line) :
    Arriving b returnsValue depth (arrived ++ [(line, place)])
      (StackSafety.arrive state arrivals place) := by
  have elsewhere (other : Place) (apart : other ≠ place) :
      (StackSafety.arrive state arrivals place).lookup other = arrivals.lookup other := by
    rw [StackSafety.arrive, lookup_enter, if_neg (Ne.symm apart)]
  have here : (StackSafety.arrive state arrivals place).lookup place =
      some (match arrivals.lookup place with
        | some existing => existing.merge state
        | none => state) := by
    unfold StackSafety.arrive
    exact (lookup_enter _ _ _ _).trans (if_pos rfl)
  refine ⟨fun other slots enters => ?_, fun other outside missing way mem => ?_,
    fun other later outside found => ?_⟩
  · obtain ⟨set, found, fixed, known⟩ := arriving.entered other slots enters
    by_cases same : other = place
    · subst same
      refine ⟨set, ?_, fixed, known⟩
      rw [here, found]
      simp [StackState.merge, fixed]
    · exact ⟨set, by rw [elsewhere other same, found], fixed, known⟩
  · by_cases same : other = place
    · subst same
      rw [here] at missing
      cases missing
    · rw [elsewhere other same] at missing
      rcases List.mem_append.1 mem with before | now
      · exact arriving.absent other outside missing way before
      · rw [List.mem_singleton.1 now]
        exact fun eq => same eq.symm
  · by_cases same : other = place
    · subst same
      rw [here] at found
      cases before : arrivals.lookup other with
      | none =>
        rw [before] at found
        obtain rfl := Option.some.inj found
        exact ⟨follows.loose, follows.depth_eq.trans agrees.symm, follows.low, line, by simp,
          fun _ => follows⟩
      | some existing =>
        rw [before] at found
        obtain ⟨loose, depth_eq, low, earlier, mem, -⟩ :=
          arriving.present other existing outside before
        have merged : later = ⟨state.depth, max existing.watermark state.watermark, false⟩ := by
          have := Option.some.inj found
          simpa [StackState.merge, loose, follows.loose] using this.symm
        subst merged
        have arriving_depth : state.depth = depth other := follows.depth_eq.trans agrees.symm
        refine ⟨rfl, arriving_depth, ?_, line, by simp, fun single => ?_⟩
        · have low_state := follows.low
          dsimp only
          omega
        · have found : other ∈ arrived.map (·.2) := List.mem_map.2 ⟨_, mem, rfl⟩
          have := List.count_pos_iff.2 found
          simp at single
          omega
    · rw [elsewhere other same] at found
      obtain ⟨loose, depth_eq, low, earlier, mem, exact⟩ :=
        arriving.present other later outside found
      refine ⟨loose, depth_eq, low, earlier, by simp [mem], fun single => exact ?_⟩
      simpa [List.count_cons, Ne.symm same] using single

/-- All branches of a line arrive, one after the other. By induction on the
targets; they bring the same state, so a switch agrees with itself. -/
theorem Arriving.arriveAll (arriving : Arriving b returnsValue depth arrived arrivals)
    (follows : Follows b returnsValue depth line state) (targets : List Place)
    (agree : ∀ place ∈ targets, depth place = depthAfter returnsValue depth line) :
    Arriving b returnsValue depth (arrived ++ targets.map (line, ·))
      (targets.foldl (StackSafety.arrive state) arrivals) := by
  induction targets generalizing arrived arrivals with
  | nil => simpa using arriving
  | cons place targets ih =>
    have further := ih (arriving.arrive follows (agree place (by simp)))
      fun other mem => agree other (by simp [mem])
    simpa using further

/-- What falls through to the lines that are left: the empty stack at the entry
of the method, nothing after a line that ends the flow, and else the state after
the last line. -/
inductive Falling (b : Body) (returnsValue : Bool) (depth : Place → Nat) :
    List Line → Option StackState → Prop where
  | entry : Falling b returnsValue depth [] (some {})
  | ended {done : List Line} {last : Line}
      (ends : last.instruction.opcode.flow.endsFlow = true) :
      Falling b returnsValue depth (done ++ [last]) none
  | onward {done : List Line} {last : Line} {state : StackState}
      (goes : last.instruction.opcode.flow.endsFlow = false)
      (follows : Follows b returnsValue depth last state) :
      Falling b returnsValue depth (done ++ [last]) (some state)

/-- The empty stack has no slots that anything would have to be known of. -/
theorem describes_empty (empty : depth line.place = 0) : Describes b returnsValue depth line {} :=
  ⟨empty.symm, Nat.le_refl 0, fun slot below => by omega⟩

/-- Control that comes straight brings the state of the line that it comes from.
What was known there is known here, as nothing can have come between. -/
theorem Follows.describes (follows : Follows b returnsValue depth line state)
    (straight : Straight b line next)
    (agrees : depth next.place = depthAfter returnsValue depth line) :
    Describes b returnsValue depth next state := by
  refine ⟨follows.depth_eq.trans agrees.symm, follows.low, fun slot below => ?_⟩
  rw [follows.exact slot (agrees ▸ below), exists_provides_iff]
  constructor
  · intro held
    exact ⟨line, straight, held⟩
  · rintro ⟨last, other, held⟩
    exact eq_of_single straight.single straight.way other.way ▸ held

/-- At a join everything on the stack counts as unknown, and no value has come
straight. Elsewhere the state has to describe the stack as it is. -/
theorem describes_atJoin (loose : state.fixed = false) (depth_eq : state.depth = depth line.place)
    (low : state.watermark ≤ state.depth)
    (alone : predecessors b.code.linked line.place < 2 → Describes b returnsValue depth line state) :
    Describes b returnsValue depth line
      (state.atJoin (predecessors b.code.linked line.place)) := by
  unfold StackState.atJoin
  by_cases joined : 2 ≤ predecessors b.code.linked line.place
  · rw [if_pos (by simp [loose, joined])]
    refine ⟨depth_eq, by dsimp only; omega, fun slot below => iff_of_false ?_ ?_⟩
    · dsimp only
      omega
    · rw [exists_provides_iff]
      rintro ⟨last, straight, -⟩
      have := straight.single
      omega
  · rw [if_neg (by simp [joined])]
    exact alone (by omega)

/-- A handler is entered with nothing known but the depth. Whatever else leads
there, no value comes straight to an entry. -/
theorem describes_entered {slots : Nat} (enters : b.Enters line.place slots)
    (fixed : state.fixed = true) (depth_eq : state.depth = depth line.place)
    (pinned : state.watermark = state.depth) (count : Nat) :
    Describes b returnsValue depth line (state.atJoin count) := by
  unfold StackState.atJoin
  rw [if_neg (by simp [fixed])]
  refine ⟨depth_eq, Nat.le_of_eq pinned, fun slot below => iff_of_false (by omega) ?_⟩
  rw [exists_provides_iff]
  rintro ⟨last, straight, -⟩
  exact straight.outside slots enters

/-- Whether lines are fallen into is told by the last line before them. -/
theorem fallsInto_concat (done : List Line) (last : Line) :
    fallsInto (done ++ [last]) = !last.instruction.opcode.flow.endsFlow := by
  simp [fallsInto]

theorem branches_append (first second : List Line) :
    branches (first ++ second) = branches first ++ branches second := List.flatMap_append

/-- The branches with one more line are those before and its own. -/
theorem branches_concat (done : List Line) (line : Line) :
    branches (done ++ [line]) = branches done ++ line.instruction.targets.map (line, ·) := by
  simp [branches]

theorem mem_ways_of_target (split : b.code.linked = done ++ line :: rest)
    (target : place ∈ line.instruction.targets) : (line, place) ∈ ways b.code.linked := by
  rw [split, ways]
  refine List.mem_append_right _ (List.mem_flatMap.2 ⟨line, by simp, ?_⟩)
  exact List.mem_map_of_mem target

/-- A line that does not end the flow goes on to the next one. -/
theorem mem_ways_of_onward {last : Line} (split : b.code.linked = done ++ [last] ++ line :: rest)
    (goes : last.instruction.opcode.flow.endsFlow = false) :
    (last, line.place) ∈ ways b.code.linked := by
  have whole : done ++ [last] ++ line :: rest = done ++ last :: line :: rest := by simp
  rw [split, ways, whole, falls_append, falls, if_neg (by simp [goes])]
  simp

/-- The state that is set for a handler entry puts aside whatever falls through
there. -/
theorem entering_of_fixed {falling : Option StackState} (fixed : state.fixed = true)
    (falls : Falling b returnsValue depth done falling) :
    StackState.entering falling (some state) = state := by
  cases falls with
  | ended => rfl
  | entry => simp [StackState.entering, StackState.merge, fixed]
  | onward goes follows => simp [StackState.entering, StackState.merge, fixed, follows.loose]

/-- What branches from the lines so far comes along ways of control. -/
theorem mem_ways_of_branch {way : Line × Place} (split : b.code.linked = done ++ rest)
    (mem : way ∈ branches done) : way ∈ ways b.code.linked := by
  rw [split, ways, branches_append]
  exact List.mem_append_right _ (List.mem_append_left _ mem)

/-- The state before a line that no branch has come to is the one that falls
through. After a line that ends the flow it is the empty stack, which is where
consistent depths resume. -/
theorem describes_of_falling (consistent : Consistent b returnsValue depth)
    {falling : Option StackState} (split : b.code.linked = done ++ line :: rest)
    (falls : Falling b returnsValue depth done falling)
    (outside : ∀ slots, ¬ b.Enters line.place slots)
    (unbranched : ∀ way ∈ branches done, way.2 ≠ line.place) :
    Describes b returnsValue depth line
      ((StackState.entering falling none).atJoin (predecessors b.code.linked line.place)) := by
  cases falls with
  | entry =>
    have empty := consistent.entry line (by rw [split]; rfl)
    exact describes_atJoin rfl empty.symm (Nat.le_refl 0) fun _ => describes_empty empty
  | @ended done last ends =>
    have empty : depth line.place = 0 := by
      refine consistent.resumed done last line rest (by simpa using split) ends ?_ outside
      intro earlier mem target
      refine unbranched (earlier, line.place) ?_ rfl
      exact List.mem_flatMap.2 ⟨earlier, mem, List.mem_map_of_mem target⟩
    exact describes_atJoin rfl empty.symm (Nat.le_refl 0) fun _ => describes_empty empty
  | @onward done last state goes follows =>
    have way := mem_ways_of_onward split goes
    have agrees := consistent.along _ way
    refine describes_atJoin follows.loose (follows.depth_eq.trans agrees.symm) follows.low ?_
    intro alone
    have once : 0 < predecessors b.code.linked line.place :=
      List.count_pos_iff.2 (List.mem_map.2 ⟨_, way, rfl⟩)
    exact follows.describes ⟨way, by omega, outside⟩ agrees

/-- The state before a line that branches have come to, one of them from an
earlier line. If that was the only one and nothing falls through, its state is
taken; and else it is a join. -/
theorem describes_of_branched (consistent : Consistent b returnsValue depth)
    {falling : Option StackState} {earlier : Line} (split : b.code.linked = done ++ line :: rest)
    (falls : Falling b returnsValue depth done falling)
    (outside : ∀ slots, ¬ b.Enters line.place slots) (loose : state.fixed = false)
    (depth_eq : state.depth = depth line.place) (low : state.watermark ≤ state.depth)
    (mem : (earlier, line.place) ∈ branches done)
    (follows : ((branches done).map (·.2)).count line.place = 1 →
      Follows b returnsValue depth earlier state) :
    Describes b returnsValue depth line
      ((StackState.entering falling (some state)).atJoin
        (predecessors b.code.linked line.place)) := by
  have count : predecessors b.code.linked line.place = (fallsInto done).toNat +
      (((branches done).map (·.2)).count line.place +
        ((branches (line :: rest)).map (·.2)).count line.place) := by
    have nodup : ((done ++ line :: rest).map Line.place).Nodup := split ▸ b.code.nodup_linked
    rw [split, predecessors_of_split nodup, ← List.count_append, ← List.map_append,
      ← branches_append, map_branches]
  have once : 0 < ((branches done).map (·.2)).count line.place :=
    List.count_pos_iff.2 (List.mem_map.2 ⟨_, mem, rfl⟩)
  cases falls with
  | entry => simp [branches] at mem
  | ended =>
    refine describes_atJoin loose depth_eq low fun alone => ?_
    have way := mem_ways_of_branch split mem
    exact (follows (by omega)).describes ⟨way, by omega, outside⟩ (consistent.along _ way)
  | @onward done last fallen goes fell =>
    have merged : StackState.entering (some fallen) (some state) =
        ⟨state.depth, max fallen.watermark state.watermark, false⟩ := by
      simp [StackState.entering, StackState.merge, loose, fell.loose]
    have agrees : fallen.depth = depth line.place :=
      fell.depth_eq.trans (consistent.along _ (mem_ways_of_onward split goes)).symm
    have low_fallen := fell.low
    rw [merged]
    refine describes_atJoin rfl depth_eq (by dsimp only; omega) fun alone => ?_
    -- The line before goes on to this one, and a branch comes here too.
    rw [count, fallsInto_concat, goes] at alone
    simp only [Bool.not_false, Bool.toNat_true] at alone
    omega

/-- The state before a line, from what falls through and what has arrived by
branches. Proof: entries of clauses first, whose state is fixed; then by whether
anything has arrived. -/
theorem describes_of_split (consistent : Consistent b returnsValue depth)
    {falling : Option StackState} (split : b.code.linked = done ++ line :: rest)
    (falls : Falling b returnsValue depth done falling)
    (arriving : Arriving b returnsValue depth (branches done) arrivals) :
    Describes b returnsValue depth line
      ((StackState.entering falling (arrivals.lookup line.place)).atJoin
        (predecessors b.code.linked line.place)) := by
  by_cases enters : ∃ slots, b.Enters line.place slots
  · obtain ⟨slots, enters⟩ := enters
    obtain ⟨set, found, fixed, depth_eq, pinned⟩ := arriving.entered _ _ enters
    rw [found, entering_of_fixed fixed falls]
    exact describes_entered enters fixed depth_eq pinned _
  · have outside : ∀ slots, ¬ b.Enters line.place slots := not_exists.1 enters
    cases found : arrivals.lookup line.place with
    | none =>
      exact describes_of_falling consistent split falls outside (arriving.absent _ outside found)
    | some state =>
      obtain ⟨loose, depth_eq, low, earlier, mem, follows⟩ := arriving.present _ _ outside found
      exact describes_of_branched consistent split falls outside loose depth_eq low mem follows

/-- The pass notes a state before each line that is left, and each describes the
stack. By induction on the lines that are left, with what falls through and what
has arrived as the invariant. -/
theorem walk_describes (consistent : Consistent b returnsValue depth)
    {falling : Option StackState} (split : b.code.linked = done ++ rest)
    (falls : Falling b returnsValue depth done falling)
    (arriving : Arriving b returnsValue depth (branches done) arrivals) :
    let noted := walk (b.code.linked.flatMap (·.instruction.targets)) returnsValue rest falling
      (fallsInto done) arrivals
    noted.map (·.1) = rest ∧ ∀ found ∈ noted, Describes b returnsValue depth found.1 found.2 := by
  induction rest generalizing done falling arrivals with
  | nil => exact ⟨rfl, fun found mem => by cases mem⟩
  | cons line rest ih =>
    have nodup : ((done ++ line :: rest).map Line.place).Nodup := split ▸ b.code.nodup_linked
    have counted : (fallsInto done).toNat +
        (b.code.linked.flatMap (·.instruction.targets)).count line.place =
          predecessors b.code.linked line.place := by
      rw [split, predecessors_of_split nodup]
    have describes := describes_of_split consistent split falls arriving
    have follows := describes.follows
    have falls_next : Falling b returnsValue depth (done ++ [line])
        (if line.instruction.opcode.flow.endsFlow then none else some
          (((StackState.entering falling (arrivals.lookup line.place)).atJoin
            (predecessors b.code.linked line.place)).after
              (line.instruction.stackEffect returnsValue))) := by
      split
      · next ends => exact .ended ends
      · next goes => exact .onward (by simpa using goes) follows
    have arriving_next := arriving.arriveAll follows line.instruction.targets fun place mem =>
      consistent.along (line, place) (mem_ways_of_target split mem)
    rw [← branches_concat] at arriving_next
    obtain ⟨lines, later⟩ := ih (by simpa using split) falls_next arriving_next
    rw [walk, counted, ← fallsInto_concat done line]
    refine ⟨congrArg (line :: ·) lines, fun found mem => ?_⟩
    rcases List.mem_cons.1 mem with rfl | mem
    · exact describes
    · exact later found mem

/-- The top of the stack is known if there is a slot and its value has come
straight. This is the question that the check of a push asks. -/
theorem topUnknown_iff (describes : Describes b returnsValue depth line state) :
    state.topUnknown = false ↔ 0 < depth line.place ∧
      ∃ source, Provides b returnsValue depth (depth line.place - 1) source line := by
  have known : state.topUnknown = false ↔
      0 < depth line.place ∧ state.watermark ≤ depth line.place - 1 := by
    rw [← describes.depth_eq]
    simp only [StackState.topUnknown, Bool.or_eq_false_iff, decide_eq_false_iff_not]
    omega
  rw [known]
  exact and_congr_right fun positive => describes.exact _ (by omega)

/-- For a body with consistent depths, the pass finds just these depths, one for
every line. It accepts a push exactly if there is a value on top of the stack and
this value has come straight from the line that pushed it. -/
theorem pushes_known_exactly (b : Body) (returnsValue : Bool) (isPush : Instruction → Bool)
    (depth : Place → Nat) (consistent : Consistent b returnsValue depth) :
    ((states b returnsValue).map (·.1) = b.code.linked ∧
      ∀ noted ∈ states b returnsValue, noted.2.depth = depth noted.1.place) ∧
    ∀ push ∈ b.code.linked, isPush push.instruction = true →
      (push.place ∉ unsafePushes b returnsValue isPush ↔ 0 < depth push.place ∧
        ∃ source, Provides b returnsValue depth (depth push.place - 1) source push) := by
  obtain ⟨lines, describes⟩ :=
    walk_describes consistent (List.nil_append b.code.linked).symm .entry
      (arriving_initial consistent)
  change (states b returnsValue).map (·.1) = b.code.linked at lines
  change ∀ found ∈ states b returnsValue, _ at describes
  refine ⟨⟨lines, fun found mem => (describes found mem).depth_eq⟩, fun push mem pushes => ?_⟩
  constructor
  · intro accepted
    obtain ⟨⟨_, state⟩, found, rfl⟩ := List.mem_map.1 (lines.symm ▸ mem)
    rw [← topUnknown_iff (describes _ found), ← Bool.not_eq_true]
    intro unknown
    exact accepted
      (List.mem_map.2 ⟨_, List.mem_filter.2 ⟨found, by simp [pushes, unknown]⟩, rfl⟩)
  · intro known flagged
    obtain ⟨⟨other, state⟩, kept, same⟩ := List.mem_map.1 flagged
    obtain ⟨found, unknown⟩ := List.mem_filter.1 kept
    have linked : other ∈ b.code.linked := lines ▸ List.mem_map_of_mem found
    obtain rfl := b.code.eq_of_place linked mem same
    have reliable := (topUnknown_iff (describes _ found)).2 known
    simp [reliable] at unknown

/-- Two values are pushed before a join. After it one is dropped, and another one
is pushed. -/
def joiningBody : Body :=
  ({} : Body).pushAll
    [⟨.ldarg0, .none⟩, ⟨.ldarg0, .none⟩, ⟨.brtrueS, .target ⟨4⟩⟩, ⟨.nop, .none⟩, ⟨.pop, .none⟩,
      ⟨.ldarg0, .none⟩, ⟨.pop, .none⟩, ⟨.ret, .none⟩]

/-- The depths of the stack in `joiningBody`. -/
def joiningDepth (place : Place) : Nat := [0, 1, 2, 1, 1, 0, 1, 0].getD place.index 0

/-- The depths agree along every way of control, those that join included. There
are no clauses, so nothing is entered from outside. -/
theorem consistent_joiningBody : Consistent joiningBody false joiningDepth where
  entry line first := by
    obtain rfl := Option.some.inj first
    rfl
  entered place slots enters := by
    obtain ⟨clause, none, -⟩ := enters
    cases none
  along := by decide +kernel
  resumed done last line rest split ends := by
    have early : last ∈ joiningBody.code.linked.dropLast := by simp [split]
    have goes : ∀ line ∈ joiningBody.code.linked.dropLast,
        line.instruction.opcode.flow.endsFlow = false := by decide +kernel
    simp [goes last early] at ends
  enough := by decide +kernel

/-- If what is dropped counts as pushed by a marker, then the value from before
the join is not known to be there, and the one from after it is. -/
theorem pushes_known_exactly_joiningBody :
    Consistent joiningBody false joiningDepth ∧
    (¬ ∃ source, Provides joiningBody false joiningDepth 0 source ⟨⟨4⟩, ⟨.pop, .none⟩⟩) ∧
    ∃ source, Provides joiningBody false joiningDepth 0 source ⟨⟨6⟩, ⟨.pop, .none⟩⟩ := by
  obtain ⟨-, accepted⟩ := pushes_known_exactly joiningBody false (·.opcode = .pop) joiningDepth
    consistent_joiningBody
  have dropped : joiningBody.code.linked[4]? = some ⟨⟨4⟩, ⟨.pop, .none⟩⟩ := rfl
  have loaded : joiningBody.code.linked[6]? = some ⟨⟨6⟩, ⟨.pop, .none⟩⟩ := rfl
  have joined := accepted _ (List.mem_of_getElem? dropped) rfl
  have straight := accepted _ (List.mem_of_getElem? loaded) rfl
  have flagged : unsafePushes joiningBody false (·.opcode = .pop) = [⟨4⟩] := by decide +kernel
  rw [flagged] at joined straight
  refine ⟨consistent_joiningBody, fun known => ?_, (straight.1 (by simp)).2⟩
  exact joined.2 ⟨by decide, known⟩ (by simp)

end StackSafety

end InlineCil
