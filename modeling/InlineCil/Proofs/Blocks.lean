import InlineCil.Blocks
import InlineCil.Proofs.Order

/-!
# Blocks by position

Blocks are numbered line by line, so every line of a body has exactly one block.
Where nothing is named, a block goes on until a line ends it: a run of lines that
end no block is in one block together with the line after it.

The numbering is one recursion over the lines that carries the current count and
whether a new block starts at the next line. `number_append` cuts it at any line,
and `pairwise_number` says what is true of all pairs of lines: numbers never
decrease, and they grow at every line that is named. Everything about two lines
of a body follows from it.

The blocks that a pass works with are those of the body as it came in. Lines that
are moved or replaced later keep the block of their original place, and places of
labels are in none.
-/

namespace InlineCil

namespace Blocks

variable {before run after : List Line} {line call : Line} {starting : Bool} {count : Nat}

/-- A place is named by a branch or by a border of a clause, and by nothing else. -/
theorem mem_namedPlaces {b : Body} {place : Place} : place ∈ namedPlaces b ↔
    (∃ line ∈ b.code.linked, place ∈ line.instruction.targets) ∨
      ∃ clause ∈ b.clauses, place ∈ clause.borders := by
  simp [namedPlaces]

theorem places_number (named : List Place) (lines : List Line) (starting : Bool) (count : Nat) :
    (number named lines starting count).membership.map Prod.fst = lines.map Line.place := by
  induction lines generalizing starting count with
  | nil => rfl
  | cons line rest ih => exact congrArg (line.place :: ·) (ih _ _)

/-- The numbers of later lines do not depend on how the earlier ones are looked
at, only on the count and on whether a block has just ended. -/
theorem number_append (named : List Place) (before after : List Line) (starting : Bool)
    (count : Nat) :
    ∃ earlier next reached, (number named (before ++ after) starting count).membership =
      earlier ++ (number named after next reached).membership := by
  induction before generalizing starting count with
  | nil => exact ⟨[], starting, count, rfl⟩
  | cons line rest ih =>
    obtain ⟨earlier, next, reached, same⟩ := ih line.instruction.opcode.flow.endsBlock
      (if starting || named.contains line.place then count + 1 else count)
    refine ⟨(line.place, (if starting || named.contains line.place then count + 1 else count) - 1)
      :: earlier, next, reached, ?_⟩
    exact congrArg (_ :: ·) same

/-- A run that ends no block has one number, and so has the line after it, as
nothing is named. By induction on the run. -/
theorem mem_number_of_run
    (still : ∀ line ∈ run, line.instruction.opcode.flow.endsBlock = false)
    (member : line ∈ run ++ [call]) :
    (line.place, (if starting then count + 1 else count) - 1) ∈
      (number [] (run ++ call :: after) starting count).membership := by
  induction run generalizing starting count with
  | nil =>
    obtain rfl := List.mem_singleton.1 member
    simp [number]
  | cons first rest ih =>
    have goesOn := still first List.mem_cons_self
    rcases List.mem_cons.1 member with rfl | later
    · simp [number]
    · have found := @ih false (if starting then count + 1 else count)
        (fun other among => still other (List.mem_cons_of_mem _ among)) later
      have same : (number [] (first :: rest ++ call :: after) starting count).membership =
          (first.place, (if starting then count + 1 else count) - 1) ::
            (number [] (rest ++ call :: after) false
              (if starting then count + 1 else count)).membership := by
        simp [number, goesOn]
      rw [same]
      exact List.mem_cons_of_mem _ found

/-- The block of a place is what it was numbered with, places being distinct.
Proof: the entry that is found has the same place, so it is the same entry. -/
theorem block?_of_mem {blocks : Blocks} {place : Place} {n : Nat}
    (distinct : (blocks.membership.map Prod.fst).Nodup)
    (member : (place, n) ∈ blocks.membership) : blocks.block? place = some n := by
  unfold block?
  cases found : blocks.membership.find? (·.1 = place) with
  | none => simpa using List.find?_eq_none.1 found _ member
  | some entry =>
    have same : entry.1 = place := by simpa using List.find?_some found
    have only := List.inj_on_of_nodup_map distinct (List.mem_of_find?_eq_some found) member same
    rw [only]
    rfl

/-- A place that shares a block with another one is a place of the original code.
So a label, whose place was handed out later, shares a block with nothing. -/
theorem mem_of_sameBlock {b : Body} {place other : Place}
    (together : (ofBody b).sameBlock place other = true) :
    place ∈ b.code.linked.map Line.place := by
  unfold sameBlock block? at together
  cases found : (ofBody b).membership.find? (·.1 = place) with
  | none => simp [found] at together
  | some entry =>
    have same : entry.1 = place := by simpa using List.find?_some found
    rw [← places_number (namedPlaces b) b.code.linked true 0, ← same]
    exact List.mem_map_of_mem (List.mem_of_find?_eq_some found)

/-- In a body where nothing is named, a run that ends no block is in the block of
the line after it. Arguments that stand before their call are such a run. -/
theorem sameBlock_of_run {b : Body} (nameless : namedPlaces b = [])
    (split : b.code.linked = before ++ run ++ call :: after)
    (still : ∀ line ∈ run, line.instruction.opcode.flow.endsBlock = false) (member : line ∈ run) :
    (ofBody b).sameBlock line.place call.place = true := by
  obtain ⟨earlier, starting, count, parts⟩ := number_append [] before (run ++ call :: after) true 0
  have distinct : ((ofBody b).membership.map Prod.fst).Nodup := by
    unfold ofBody
    rw [places_number]
    exact b.code.nodup_linked
  have whole : (ofBody b).membership =
      earlier ++ (number [] (run ++ call :: after) starting count).membership := by
    unfold ofBody
    rw [nameless, split, List.append_assoc, parts]
  have block (other : Line) (among : other ∈ run ++ [call]) :
      (ofBody b).block? other.place = some ((if starting then count + 1 else count) - 1) := by
    refine block?_of_mem distinct ?_
    rw [whole]
    exact List.mem_append_right _ (mem_number_of_run still among)
  unfold sameBlock
  rw [block line (List.mem_append_left _ member), block call (by simp)]
  simp

/-- Two places are in one block if they have the same number and have one at all. -/
theorem sameBlock_iff {blocks : Blocks} {place other : Place} :
    blocks.sameBlock place other = true ↔
      ∃ n, blocks.block? place = some n ∧ blocks.block? other = some n := by
  unfold sameBlock
  cases blocks.block? place <;> cases blocks.block? other <;> simp [eq_comm]

/-- Being in one block is transitive, since a place has one number at most. -/
theorem sameBlock_trans {blocks : Blocks} {first second third : Place}
    (near : blocks.sameBlock first second = true) (far : blocks.sameBlock second third = true) :
    blocks.sameBlock first third = true := by
  obtain ⟨n, firstBlock, secondBlock⟩ := sameBlock_iff.1 near
  obtain ⟨m, again, thirdBlock⟩ := sameBlock_iff.1 far
  obtain rfl := Option.some.inj (secondBlock.symm.trans again)
  exact sameBlock_iff.2 ⟨n, firstBlock, thirdBlock⟩

theorem sameBlock_comm {blocks : Blocks} {place other : Place}
    (together : blocks.sameBlock place other = true) : blocks.sameBlock other place = true := by
  obtain ⟨n, found, same⟩ := sameBlock_iff.1 together
  exact sameBlock_iff.2 ⟨n, same, found⟩

/-- Every place of the code is in a block, so it is in one block with itself. -/
theorem sameBlock_self {b : Body} {place : Place} (member : place ∈ b.code.places) :
    (ofBody b).sameBlock place place = true := by
  have numbered : (ofBody b).membership.map Prod.fst = b.code.places := places_number _ _ _ _
  have distinct : ((ofBody b).membership.map Prod.fst).Nodup := numbered ▸ b.code.nodup_linked
  obtain ⟨⟨first, n⟩, among, rfl⟩ := List.mem_map.1 (numbered ▸ member)
  exact sameBlock_iff.2 ⟨n, block?_of_mem distinct among, block?_of_mem distinct among⟩

/-- Numbers start where counting has come to; at a named place they start anew. A
line that continues the current block has the number before the count. -/
theorem le_of_mem_number {named : List Place} {lines : List Line} {place : Place} {n : Nat}
    (positive : 0 < count) (member : (place, n) ∈ (number named lines starting count).membership) :
    count ≤ n + 1 ∧ (place ∈ named → count ≤ n) := by
  induction lines generalizing starting count with
  | nil => simp [number] at member
  | cons line rest ih =>
    unfold number at member
    dsimp only at member
    rcases List.mem_cons.1 member with same | later
    · obtain ⟨rfl, rfl⟩ := Prod.mk.inj same
      split
      · exact ⟨by omega, fun _ => by omega⟩
      · next continues =>
        refine ⟨by omega, fun names => absurd ?_ continues⟩
        simp [names]
    · have found := ih (by split <;> omega) later
      split at found
      · exact ⟨by omega, fun names => by have := found.2 names; omega⟩
      · exact found

/-- Numbers never decrease along the code, and every named place has a greater
one than what is before it. By induction on the lines, from what numbers start
with. -/
theorem pairwise_number (named : List Place) (lines : List Line)
    (positive : starting = true ∨ 0 < count) :
    (number named lines starting count).membership.Pairwise
      fun first second => first.2 ≤ second.2 ∧ (second.1 ∈ named → first.2 < second.2) := by
  induction lines generalizing starting count with
  | nil => exact .nil
  | cons line rest ih =>
    unfold number
    dsimp only
    have further : 0 < if starting || named.contains line.place then count + 1 else count := by
      rcases positive with starts | counted
      · simp [starts]
      · split <;> omega
    refine List.pairwise_cons.2 ⟨fun entry later => ?_, ih (.inr further)⟩
    obtain ⟨place, n⟩ := entry
    obtain ⟨low, new⟩ := le_of_mem_number further later
    exact ⟨by omega, fun names => by have := new names; omega⟩

/-- Later lines of a body are in later blocks or the same, and never in the same
if they are named. Numbers only grow along the code, and a named line starts a
block of its own. -/
theorem pairwise_blocks (b : Body) :
    b.code.linked.Pairwise fun first second => ∃ m n, (ofBody b).block? first.place = some m ∧
      (ofBody b).block? second.place = some n ∧ m ≤ n ∧
        (second.place ∈ namedPlaces b → m < n) := by
  have places : (ofBody b).membership.map Prod.fst = b.code.linked.map Line.place :=
    places_number _ _ _ _
  have distinct : ((ofBody b).membership.map Prod.fst).Nodup := places ▸ b.code.nodup_linked
  have numbers : (ofBody b).membership.Pairwise fun first second =>
      first.2 ≤ second.2 ∧ (second.1 ∈ namedPlaces b → first.2 < second.2) :=
    pairwise_number _ _ (.inl rfl)
  have found : (ofBody b).membership.Pairwise fun (first second : Place × Nat) => ∃ m n,
      (ofBody b).block? first.1 = some m ∧ (ofBody b).block? second.1 = some n ∧ m ≤ n ∧
        (second.1 ∈ namedPlaces b → m < n) :=
    numbers.imp_of_mem fun among other held =>
      ⟨_, _, block?_of_mem distinct among, block?_of_mem distinct other, held⟩
  have along : ((ofBody b).membership.map Prod.fst).Pairwise fun (first second : Place) =>
      ∃ m n, (ofBody b).block? first = some m ∧ (ofBody b).block? second = some n ∧ m ≤ n ∧
        (second ∈ namedPlaces b → m < n) := List.pairwise_map.2 found
  rw [places] at along
  exact List.pairwise_map.1 along

/-- No block reaches from before a named line to that line or beyond it. Control
may enter there, so what is before need not have run. -/
theorem apart_of_named {b : Body} {other last : Line}
    (split : b.code.linked = before ++ line :: after) (named : line.place ∈ namedPlaces b)
    (earlier : other ∈ before) (later : last ∈ line :: after) :
    (ofBody b).sameBlock other.place last.place = false := by
  have ordered := pairwise_blocks b
  rw [split, List.pairwise_append, List.pairwise_cons] at ordered
  obtain ⟨-, ⟨follows, -⟩, precedes⟩ := ordered
  obtain ⟨m, n, found, middle, -, less⟩ := precedes other earlier line List.mem_cons_self
  have greater : ∃ k, (ofBody b).block? last.place = some k ∧ m < k := by
    rcases List.mem_cons.1 later with rfl | later
    · exact ⟨n, middle, less named⟩
    · obtain ⟨n', k, again, ending, most, -⟩ := follows last later
      obtain rfl := Option.some.inj (middle.symm.trans again)
      exact ⟨k, ending, Nat.lt_of_lt_of_le (less named) most⟩
  obtain ⟨k, ending, less⟩ := greater
  refine Bool.eq_false_iff.2 fun together => ?_
  obtain ⟨l, first, second⟩ := sameBlock_iff.1 together
  rw [found] at first
  rw [ending] at second
  obtain rfl := Option.some.inj first
  obtain rfl := Option.some.inj second
  exact Nat.lt_irrefl _ less

/-- A line that ends no block is in the block of the line after it, unless that
one is named. These are the only two ways in which a block begins behind the
first line. -/
theorem sameBlock_of_next {b : Body} {next : Line}
    (split : b.code.linked = before ++ line :: next :: after)
    (still : line.instruction.opcode.flow.endsBlock = false)
    (unnamed : next.place ∉ namedPlaces b) :
    (ofBody b).sameBlock line.place next.place = true := by
  obtain ⟨earlier, starting, count, parts⟩ :=
    number_append (namedPlaces b) before (line :: next :: after) true 0
  have distinct : ((ofBody b).membership.map Prod.fst).Nodup := by
    unfold ofBody
    rw [places_number]
    exact b.code.nodup_linked
  have whole : (ofBody b).membership =
      earlier ++ (number (namedPlaces b) (line :: next :: after) starting count).membership := by
    unfold ofBody
    rw [split, parts]
  refine sameBlock_iff.2 ⟨_, block?_of_mem distinct (whole ▸ List.mem_append_right _
    List.mem_cons_self), block?_of_mem distinct (whole ▸ List.mem_append_right _
      (List.mem_cons_of_mem _ ?_))⟩
  have continues : (line.instruction.opcode.flow.endsBlock ||
      (namedPlaces b).contains next.place) = false := by simp [still, unnamed]
  rw [number, continues]
  exact List.mem_cons_self

end Blocks

end InlineCil
