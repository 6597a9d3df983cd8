import InlineCil.Proofs.Blocks
import Mathlib.Data.Set.Card

/-!
# Blocks are straight runs

A run of lines is straight if control can enter it only at its first line and
leave it only after its last: nothing names a later line, and no earlier one ends
a block. Two lines are in one block exactly if the run from the one to the other
is straight, and the blocks are counted.

Straightness is stated with the references of a body and the flow of its
instructions, without numbers. One direction is an induction on the run with
`sameBlock_of_next`. The other is by contradiction: a named line inside the run
or a line that ends a block separates what is before it from what is after it, as
the numbers grow there.

That the count is right needs both that every number below it is given to some
line and that no greater one is. `count_eq_ncard` says it in terms of the sets of
places that share a block, so that the count is about blocks and not about
numbers.
-/

namespace InlineCil

/-- Only the first line of the run may be named, and only the last may end a
block. So control that enters the run goes through all of it. -/
structure Body.Straight (b : Body) (run : List Line) : Prop where
  unnamed : ∀ line ∈ run.tail, b.refersTo line.place = false
  goesOn : ∀ line ∈ run.dropLast, line.instruction.opcode.flow.endsBlock = false

namespace Blocks

variable {b : Body} {named : List Place} {before run after lines : List Line}
  {line first last other : Line} {place : Place} {starting : Bool} {count n : Nat}

/-- A body refers to the places that its branches and clauses name. -/
theorem refersTo_iff : b.refersTo place = true ↔ place ∈ namedPlaces b := by
  simp [Body.refersTo, Code.isTarget, Clause.names, mem_namedPlaces]

theorem refersTo_eq_false : b.refersTo place = false ↔ place ∉ namedPlaces b := by
  rw [← refersTo_iff, Bool.not_eq_true]

/-- The lines after a line are numbered on from its number, and start a new block
if the line ends one. Proof: by induction on the lines before it, which only
decide what the number is. -/
theorem exists_number_of_split (named : List Place) (before after : List Line) (line : Line)
    (positive : starting = true ∨ 0 < count) :
    ∃ earlier n, (number named (before ++ line :: after) starting count).membership =
      earlier ++ (line.place, n) ::
        (number named after line.instruction.opcode.flow.endsBlock (n + 1)).membership := by
  induction before generalizing starting count with
  | nil =>
    have further : 0 < if starting || named.contains line.place then count + 1 else count := by
      split <;> simp_all
    refine ⟨[], (if starting || named.contains line.place then count + 1 else count) - 1, ?_⟩
    rw [List.nil_append, List.nil_append, number, Nat.sub_add_cancel further]
  | cons head before ih =>
    have further : 0 < if starting || named.contains head.place then count + 1 else count := by
      split <;> simp_all
    obtain ⟨earlier, n, parts⟩ := ih (.inr further)
    refine ⟨(head.place, (if starting || named.contains head.place then count + 1 else count) - 1) ::
      earlier, n, ?_⟩
    rw [List.cons_append, number, List.cons_append, ← parts]

/-- Where a block starts, the numbers from there on are new: the first line gets
the count so far, and the lines after it no less. -/
theorem le_of_mem_starting (member : (place, n) ∈ (number named lines true count).membership) :
    count ≤ n := by
  cases lines with
  | nil => simp [number] at member
  | cons line rest =>
    rw [number] at member
    rcases List.mem_cons.1 member with same | later
    · obtain ⟨-, rfl⟩ := Prod.mk.inj same
      exact Nat.le_refl _
    · have low := (le_of_mem_number (by simp) later).1
      simpa using low

/-- No block reaches from a line that ends one, or from before it, to beyond it.
Every number after the line is above its own, and every number before it is not. -/
theorem apart_of_ending (split : b.code.linked = before ++ line :: after)
    (ends : line.instruction.opcode.flow.endsBlock = true) (earlier : other ∈ before ++ [line])
    (later : last ∈ after) : (ofBody b).sameBlock other.place last.place = false := by
  obtain ⟨numbered, n, parts⟩ :=
    exists_number_of_split (namedPlaces b) before after line (.inl rfl : true = true ∨ 0 < 0)
  have whole : (ofBody b).membership = numbered ++ (line.place, n) ::
      (number (namedPlaces b) after true (n + 1)).membership := by
    rw [ofBody, split, parts, ends]
  have distinct : ((ofBody b).membership.map Prod.fst).Nodup := by
    rw [ofBody, places_number]
    exact b.code.nodup_linked
  have here : (ofBody b).block? line.place = some n := by
    refine block?_of_mem distinct ?_
    rw [whole]
    exact List.mem_append_right _ List.mem_cons_self
  obtain ⟨k, beyond, new⟩ : ∃ k, (ofBody b).block? last.place = some k ∧ n < k := by
    have placed : last.place ∈ (number (namedPlaces b) after true (n + 1)).membership.map Prod.fst := by
      rw [places_number]
      exact List.mem_map_of_mem later
    obtain ⟨⟨place, k⟩, member, same⟩ := List.mem_map.1 placed
    obtain rfl : place = last.place := same
    refine ⟨k, block?_of_mem distinct ?_, le_of_mem_starting member⟩
    rw [whole]
    exact List.mem_append_right _ (List.mem_cons_of_mem _ member)
  obtain ⟨m, found, most⟩ : ∃ m, (ofBody b).block? other.place = some m ∧ m ≤ n := by
    rcases List.mem_append.1 earlier with early | itself
    · have ordered := pairwise_blocks b
      rw [split, List.pairwise_append] at ordered
      obtain ⟨m, n', found, again, most, -⟩ := ordered.2.2 other early line List.mem_cons_self
      obtain rfl := Option.some.inj (here.symm.trans again)
      exact ⟨m, found, most⟩
    · exact ⟨n, List.mem_singleton.1 itself ▸ here, Nat.le_refl n⟩
  refine Bool.eq_false_iff.2 fun together => ?_
  obtain ⟨l, left, right⟩ := sameBlock_iff.1 together
  rw [found] at left
  rw [beyond] at right
  obtain rfl := Option.some.inj left
  obtain rfl := Option.some.inj right
  omega

/-- The ends of a straight run are in one block, by induction on the run: each
line is in the block of the next one. -/
theorem sameBlock_of_straight (split : b.code.linked = before ++ run ++ after)
    (starts : run.head? = some first) (stops : run.getLast? = some last)
    (straight : b.Straight run) : (ofBody b).sameBlock first.place last.place = true := by
  induction run generalizing before first with
  | nil => simp at starts
  | cons head rest ih =>
    obtain rfl : head = first := by simpa using starts
    cases rest with
    | nil =>
      obtain rfl : head = last := by simpa using stops
      refine sameBlock_self (List.mem_map_of_mem ?_)
      simp [split]
    | cons next rest =>
      have whole : b.code.linked = before ++ head :: next :: (rest ++ after) := by simp [split]
      have onward : (ofBody b).sameBlock head.place next.place = true :=
        sameBlock_of_next whole (straight.goesOn head (by simp))
          (refersTo_eq_false.1 (straight.unnamed next (by simp)))
      have more : (ofBody b).sameBlock next.place last.place = true := by
        have later : b.code.linked = (before ++ [head]) ++ (next :: rest) ++ after := by
          simp [split]
        refine ih later rfl (by simpa using stops) ⟨?_, ?_⟩
        · intro line member
          exact straight.unnamed line (List.mem_cons_of_mem _ member)
        · intro line member
          exact straight.goesOn line (by simpa using .inr member)
      exact sameBlock_trans onward more

/-- A run whose ends are in one block is straight. A line that is not as it
should be would keep the ends apart: a line in between that something refers to
starts a block, and one that ends a block lets the next one start. -/
theorem straight_of_sameBlock (split : b.code.linked = before ++ run ++ after)
    (starts : run.head? = some first) (stops : run.getLast? = some last)
    (together : (ofBody b).sameBlock first.place last.place = true) : b.Straight run := by
  obtain ⟨rest, rfl⟩ := List.head?_eq_some_iff.1 starts
  refine ⟨fun line member => ?_, fun line member => ?_⟩
  · by_contra refers
    have names : line.place ∈ namedPlaces b := refersTo_iff.1 (by simpa using refers)
    obtain ⟨front, rear, rfl⟩ := List.mem_iff_append.1 member
    have whole : b.code.linked = (before ++ first :: front) ++ line :: (rear ++ after) := by
      simp [split]
    have later : last ∈ line :: (rear ++ after) := by
      have ending : last ∈ line :: rear := by
        rw [← List.cons_append, List.getLast?_append_of_ne_nil _ (by simp)] at stops
        exact List.mem_of_getLast? stops
      simp only [List.mem_cons, List.mem_append] at ending ⊢
      tauto
    rw [apart_of_named whole names (by simp) later] at together
    cases together
  · by_contra ending
    have ends : line.instruction.opcode.flow.endsBlock = true := by simpa using ending
    obtain ⟨front, rear, parts⟩ := List.mem_iff_append.1 member
    have run : first :: rest = front ++ line :: (rear ++ [last]) := by
      have whole := List.dropLast_append_getLast? last stops
      rw [← whole, parts]
      simp
    have whole : b.code.linked = (before ++ front) ++ line :: (rear ++ [last] ++ after) := by
      rw [split, run]
      simp
    have early : first ∈ before ++ front ++ [line] := by
      cases front with
      | nil => simp_all
      | cons head front => simp_all
    rw [apart_of_ending whole ends early (by simp)] at together
    cases together

/-- Numbering never counts down, so what was counted before is counted in the
end. -/
theorem count_le_count_number (named : List Place) (lines : List Line) (starting : Bool)
    (count : Nat) : count ≤ (number named lines starting count).count := by
  induction lines generalizing starting count with
  | nil => exact Nat.le_refl _
  | cons line rest ih =>
    refine Nat.le_trans ?_ (ih line.instruction.opcode.flow.endsBlock
      (if starting || named.contains line.place then count + 1 else count))
    split <;> omega

/-- The new numbers that lines are given are those up to the count, by induction
on the lines. None is left out, as the count grows by one where it grows. -/
theorem exists_mem_number_iff (positive : starting = true ∨ 0 < count) (new : count ≤ n) :
    (∃ place, (place, n) ∈ (number named lines starting count).membership) ↔
      n < (number named lines starting count).count := by
  induction lines generalizing starting count with
  | nil => simp [number, new]
  | cons line rest ih =>
    rw [number]
    dsimp only
    generalize counted : (if starting || named.contains line.place then count + 1 else count) = next
    have step : next = count + 1 ∨ next = count ∧ 0 < count := by
      subst counted
      split
      · exact .inl rfl
      · next continues =>
        refine .inr ⟨rfl, positive.resolve_left fun starts => continues ?_⟩
        simp [starts]
    have most := count_le_count_number named rest line.instruction.opcode.flow.endsBlock next
    by_cases further : next ≤ n
    · have counts : line.instruction.opcode.flow.endsBlock = true ∨ 0 < next := .inr (by omega)
      rw [← ih counts further]
      refine exists_congr fun place => List.mem_cons.trans (or_iff_right fun same => ?_)
      have := (Prod.mk.inj same).2
      omega
    · -- Then the line itself has been given the number.
      obtain rfl : n = next - 1 := by omega
      exact iff_of_true ⟨_, List.mem_cons_self⟩ (by omega)

/-- The places that are in one block with a place. -/
def around (blocks : Blocks) (place : Place) : Set Place :=
  {other | blocks.sameBlock place other = true}

/-- The numbers of blocks are those below the count. So no number is left out,
and the count is that of the blocks that have a line. -/
theorem exists_block?_iff (b : Body) (n : Nat) :
    (∃ place, (ofBody b).block? place = some n) ↔ n < (ofBody b).count := by
  have distinct : ((ofBody b).membership.map Prod.fst).Nodup := by
    rw [ofBody, places_number]
    exact b.code.nodup_linked
  have numbers : (∃ place, (place, n) ∈ (ofBody b).membership) ↔ n < (ofBody b).count :=
    exists_mem_number_iff (.inl rfl) (Nat.zero_le n)
  rw [← numbers]
  refine exists_congr fun place => ⟨fun found => ?_, block?_of_mem distinct⟩
  obtain ⟨⟨other, m⟩, there, rfl⟩ := Option.map_eq_some_iff.1 found
  obtain rfl : other = place := by simpa using List.find?_some there
  exact List.mem_of_find?_eq_some there

/-- The count is the number of blocks that there are around the places of the body.
Different numbers have different sets of places, none of them empty. -/
theorem count_eq_ncard (b : Body) :
    (ofBody b).count = ((ofBody b).around '' {place | place ∈ b.code.places}).ncard := by
  let block (n : Nat) : Set Place := {place | (ofBody b).block? place = some n}
  have blocks : (ofBody b).around '' {place | place ∈ b.code.places} =
      block '' ↑(Finset.range (ofBody b).count) := by
    have around_eq {place : Place} {n : Nat} (found : (ofBody b).block? place = some n) :
        (ofBody b).around place = block n := by
      ext other
      simp [around, block, sameBlock_iff, found]
    ext places
    constructor
    · rintro ⟨place, inside, rfl⟩
      obtain ⟨n, found, -⟩ := sameBlock_iff.1 (sameBlock_self inside)
      exact ⟨n, by simpa using (exists_block?_iff b n).1 ⟨place, found⟩, (around_eq found).symm⟩
    · rintro ⟨n, low, rfl⟩
      obtain ⟨place, found⟩ := (exists_block?_iff b n).2 (by simpa using low)
      exact ⟨place, mem_of_sameBlock (sameBlock_iff.2 ⟨n, found, found⟩), around_eq found⟩
  have apart : Set.InjOn block ↑(Finset.range (ofBody b).count) := by
    intro m low n _ same
    obtain ⟨place, found⟩ := (exists_block?_iff b m).2 (by simpa using low)
    have again : place ∈ block n := same ▸ found
    exact Option.some.inj (found.symm.trans again)
  rw [blocks, apart.ncard_image, Set.ncard_coe_finset, Finset.card_range]

/-- Two places are in one block exactly if the run between them is straight. A
place that is not linked is in no block with anything, and all blocks are
counted.

The first part covers every run of every body, so it also says that the answer
does not depend on anything outside of the run. -/
theorem sameBlock_exact (b : Body) :
    (∀ before run after first last, b.code.linked = before ++ run ++ after →
      run.head? = some first → run.getLast? = some last →
        ((ofBody b).sameBlock first.place last.place = true ↔ b.Straight run)) ∧
      (∀ place, place ∉ b.code.places → ∀ other, (ofBody b).sameBlock place other = false ∧
        (ofBody b).sameBlock other place = false) ∧
      (ofBody b).count = ((ofBody b).around '' {place | place ∈ b.code.places}).ncard := by
  refine ⟨fun before run after first last split starts stops => ?_, fun place outside other => ?_,
    count_eq_ncard b⟩
  · exact ⟨straight_of_sameBlock split starts stops, sameBlock_of_straight split starts stops⟩
  · have apart : (ofBody b).sameBlock place other = false :=
      Bool.eq_false_iff.2 fun together => outside (mem_of_sameBlock together)
    refine ⟨apart, Bool.eq_false_iff.2 fun together => ?_⟩
    rw [sameBlock_comm together] at apart
    cases apart

/-- A body that branches over one of two constants. -/
def skippingBody : Body :=
  ({} : Body).pushAll [⟨.ldarg0, .none⟩, ⟨.brtrue, .target ⟨3⟩⟩, ⟨.ldcI41, .none⟩,
    ⟨.ldcI42, .none⟩, ⟨.ret, .none⟩]

/-- The run up to the branch and that from its target on are blocks; the constant
between them and its successor, which is named, are not. -/
theorem sameBlock_exact_skippingBody :
    (ofBody skippingBody).sameBlock ⟨0⟩ ⟨1⟩ = true ∧ (ofBody skippingBody).sameBlock ⟨3⟩ ⟨4⟩ = true ∧
      ¬skippingBody.Straight (skippingBody.code.linked.extract 2 4) ∧
      (ofBody skippingBody).sameBlock ⟨5⟩ ⟨5⟩ = false ∧ (ofBody skippingBody).count = 3 := by
  obtain ⟨runs, apart, -⟩ := sameBlock_exact skippingBody
  have entry := runs [] (skippingBody.code.linked.extract 0 2) (skippingBody.code.linked.extract 2 5)
    ⟨⟨0⟩, ⟨.ldarg0, .none⟩⟩ ⟨⟨1⟩, ⟨.brtrue, .target ⟨3⟩⟩⟩ rfl rfl rfl
  have ending := runs (skippingBody.code.linked.extract 0 3)
    (skippingBody.code.linked.extract 3 5) [] ⟨⟨3⟩, ⟨.ldcI42, .none⟩⟩ ⟨⟨4⟩, ⟨.ret, .none⟩⟩ rfl rfl rfl
  have middle := runs (skippingBody.code.linked.extract 0 2)
    (skippingBody.code.linked.extract 2 4) (skippingBody.code.linked.extract 4 5)
    ⟨⟨2⟩, ⟨.ldcI41, .none⟩⟩ ⟨⟨3⟩, ⟨.ldcI42, .none⟩⟩ rfl rfl rfl
  exact ⟨entry.2 ⟨by decide, by decide⟩, ending.2 ⟨by decide, by decide⟩,
    fun straight => absurd (middle.2 straight) (by decide), (apart ⟨5⟩ (by decide) ⟨5⟩).1, rfl⟩

end Blocks

end InlineCil
