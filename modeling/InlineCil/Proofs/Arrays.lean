import InlineCil.Proofs.Expression.Completeness
import InlineCil.Proofs.Outcome
import Mathlib.Data.List.Induction
import Mathlib.Data.List.Nodup
import Mathlib.Data.List.Perm.Subperm

/-!
# Arrays as positional writes

An array argument is created with a length and filled element by element, each
with its own index. The elements are met last to first, and their indices may be
in any order, repeated or out of range. The values can be arranged exactly if the
indices are those of the slots in some order: where as many different indices as
there are slots are all in range, no slot stays free.

Filling slots is treated first, without regard to readers. `Slotted` says what is
known when all elements have found a slot of their own, and the counting argument
is `perm_positions`: different indices below their number are the positions in
some order. Hence the test for a slot that stayed free at the end never fails,
which `Positional.slots` states as a fact about the program.

`arranged_cases` lists the four ends that arranging comes to. The reading of an
array follows from it by the lemmas on readers of arrays, with any reader for the
elements and any code for the indices.
-/

namespace InlineCil

namespace Reader

variable {α : Type} {slots left : List (Option α)} {elements : List (Int × α)} {index : Int}
  {value : α} {cause : Cause} {length : Int}

/-- A slot is filled if it exists and is free; it then holds the value and all
others are as before. The index is an integer, since code may name any, and only
a natural number below the length is a slot. -/
theorem fill_eq_ok : fill slots index value = .ok left ↔
    ∃ m : Nat, index = m ∧ slots[m]? = some none ∧ left = slots.set m (some value) := by
  unfold fill
  constructor
  · intro filled
    split at filled
    · simp at filled
    next natural =>
    obtain ⟨m, rfl⟩ := Int.eq_ofNat_of_zero_le (Int.not_lt.1 natural)
    rw [Int.toNat_natCast] at filled
    split at filled
    · simp at filled
    · simp at filled
    next free => exact ⟨m, rfl, free, (Except.ok.inj filled).symm⟩
  · rintro ⟨m, rfl, free, rfl⟩
    simp [free]

/-- A slot that cannot be filled does not exist or is full already. The two have
causes of their own, each with the index at which arranging came to a stop. -/
theorem fill_eq_error (failed : fill slots index value = .error cause) :
    (cause = .elementIndex index ∧ ¬ (0 ≤ index ∧ index < slots.length)) ∨
      (cause = .elementRepeated index ∧
        ∃ m : Nat, index = m ∧ ∃ former, slots[m]? = some (some former)) := by
  unfold fill at failed
  split at failed
  · next negative => exact .inl ⟨(Except.error.inj failed).symm, by omega⟩
  next natural =>
  obtain ⟨m, rfl⟩ := Int.eq_ofNat_of_zero_le (Int.not_lt.1 natural)
  rw [Int.toNat_natCast] at failed
  split at failed
  · next beyond =>
    have outside := List.getElem?_eq_none_iff.1 beyond
    exact .inl ⟨(Except.error.inj failed).symm, by omega⟩
  · next former full => exact .inr ⟨(Except.error.inj failed).symm, m, rfl, former, full⟩
  · simp at failed

/-- When all elements have found a slot, each in a slot of its own, the other
slots are as before. -/
structure Slotted (slots : List (Option α)) (elements : List (Int × α))
    (left : List (Option α)) : Prop where
  length : left.length = slots.length
  apart : (elements.map Prod.fst).Nodup
  placed : ∀ index value, (index, value) ∈ elements →
    ∃ m : Nat, index = m ∧ slots[m]? = some none ∧ left[m]? = some (some value)
  others : ∀ m : Nat, (m : Int) ∉ elements.map Prod.fst → left[m]? = slots[m]?

/-- When all elements were placed, each has a slot of its own, by induction on
the elements. The slots that were free and named are full, and all others are as
they were; the indices are distinct since a full slot is refused. -/
theorem slotted_of_fillAll (filled : fillAll slots elements = .ok left) :
    Slotted slots elements left := by
  induction elements generalizing slots with
  | nil =>
    obtain rfl := Except.ok.inj filled
    exact ⟨rfl, List.nodup_nil, by simp, fun _ _ => rfl⟩
  | cons element rest ih =>
    obtain ⟨index, value⟩ := element
    unfold fillAll at filled
    cases first : fill slots index value with
    | error cause => simp [first, bind, Except.bind] at filled
    | ok next =>
      rw [first] at filled
      have later := ih filled
      obtain ⟨m, rfl, free, rfl⟩ := fill_eq_ok.1 first
      obtain ⟨inside, -⟩ := List.getElem?_eq_some_iff.1 free
      -- The slot is full now, so no later element has found its place there.
      have fresh : (m : Int) ∉ rest.map Prod.fst := by
        intro again
        obtain ⟨⟨_, other⟩, member, same⟩ := List.mem_map.1 again
        obtain ⟨n, rfl, still, -⟩ := later.placed _ _ member
        obtain rfl : n = m := Int.ofNat.inj same
        simp [List.getElem?_set_self inside] at still
      refine ⟨by simp [later.length], List.nodup_cons.2 ⟨fresh, later.apart⟩, ?_, ?_⟩
      · intro index value member
        rcases List.mem_cons.1 member with here | member
        · obtain ⟨rfl, rfl⟩ := Prod.mk.inj here
          exact ⟨m, rfl, free, by rw [later.others m fresh, List.getElem?_set_self inside]⟩
        · obtain ⟨n, rfl, still, placed⟩ := later.placed index value member
          have elsewhere : m ≠ n := by
            rintro rfl
            exact fresh (List.mem_map_of_mem (f := Prod.fst) member)
          rw [List.getElem?_set_ne elsewhere] at still
          exact ⟨n, rfl, still, placed⟩
      · intro n absent
        simp only [List.map_cons, List.mem_cons, not_or] at absent
        rw [later.others n absent.2, List.getElem?_set_ne (by omega)]

/-- An element that cannot be placed has an index out of range, or the index of
another element or of a slot that was full. By induction, as an element may meet
a slot that an earlier one has filled. -/
theorem fillAll_eq_error (failed : fillAll slots elements = .error cause) :
    ∃ index ∈ elements.map Prod.fst,
      (cause = .elementIndex index ∧ ¬ (0 ≤ index ∧ index < slots.length)) ∨
        (cause = .elementRepeated index ∧ (2 ≤ (elements.map Prod.fst).count index ∨
          ∃ m : Nat, index = m ∧ ∃ former, slots[m]? = some (some former))) := by
  induction elements generalizing slots with
  | nil => simp [fillAll] at failed
  | cons element rest ih =>
    obtain ⟨index, value⟩ := element
    unfold fillAll at failed
    cases first : fill slots index value with
    | error other =>
      obtain rfl : other = cause := by simpa [first, bind, Except.bind] using failed
      exact ⟨index, by simp, (fill_eq_error first).imp_right fun ⟨same, full⟩ => ⟨same, .inr full⟩⟩
    | ok next =>
      rw [first] at failed
      obtain ⟨found, member, reason⟩ := ih failed
      obtain ⟨m, rfl, free, rfl⟩ := fill_eq_ok.1 first
      rw [List.length_set] at reason
      refine ⟨found, List.mem_cons_of_mem _ member, reason.imp_right fun ⟨same, twice⟩ =>
        ⟨same, ?_⟩⟩
      rcases twice with twice | ⟨n, rfl, former, full⟩
      · exact .inl (Nat.le_trans twice List.count_le_count_cons)
      · by_cases here : m = n
        · subst here
          have once : 0 < (rest.map Prod.fst).count (m : Int) := List.count_pos_iff.2 member
          exact .inl (by simp only [List.map_cons, List.count_cons_self]; omega)
        · rw [List.getElem?_set_ne here] at full
          exact .inr ⟨n, rfl, former, full⟩

/-- The values are those of slots that are all full. The number of the first slot
only matters for the message of a failure, so the statement holds for any. -/
theorem filled_eq_ok {start : Nat} {values : List α} :
    filled start slots = .ok values ↔ slots = values.map some := by
  induction slots generalizing start values with
  | nil => cases values <;> simp [filled]
  | cons slot rest ih =>
    cases slot with
    | none => cases values <;> simp [filled]
    | some value =>
      unfold filled
      cases others : filled (start + 1) rest with
      | error cause =>
        have never (values : List α) : rest ≠ values.map some := fun same => by
          simp [ih.2 same] at others
        cases values <;> simp [bind, Except.bind, never]
      | ok found =>
        obtain rfl := ih.1 others
        have held : (some value :: found.map some = values.map some) ↔ value :: found = values :=
          List.map_inj_right (f := some) (l := value :: found) fun _ _ => Option.some.inj
        rw [held]
        simp [bind, Except.bind, pure, Except.pure]

/-- Slots that are all full are those of a list of values, by induction on the
slots. -/
theorem exists_values (full : ∀ m < slots.length, ∃ value, slots[m]? = some (some value)) :
    ∃ values : List α, slots = values.map some := by
  induction slots with
  | nil => exact ⟨[], rfl⟩
  | cons slot rest ih =>
    obtain ⟨value, first⟩ := full 0 (by simp)
    obtain rfl : slot = some value := by simpa using first
    obtain ⟨values, rfl⟩ := ih fun m inside => by
      simpa using full (m + 1) (by simpa using inside)
    exact ⟨value :: values, rfl⟩

/-- The natural numbers below a bound, as indices are. -/
def positions (n : Nat) : List Int := (List.range n).map fun (i : Nat) => (i : Int)

/-- A position is an index from zero up to the bound. -/
theorem mem_positions {n : Nat} : index ∈ positions n ↔ 0 ≤ index ∧ index < n := by
  simp only [positions, List.mem_map, List.mem_range]
  constructor
  · rintro ⟨i, inside, rfl⟩
    omega
  · rintro ⟨natural, inside⟩
    exact ⟨index.toNat, by omega, by omega⟩

theorem nodup_positions (n : Nat) : (positions n).Nodup :=
  List.Nodup.map (fun _ _ same => Int.ofNat.inj same) List.nodup_range

@[simp] theorem length_positions (n : Nat) : (positions n).length = n := by simp [positions]

/-- So many indices cannot be all the natural numbers up to their number, so the
search for a missing one comes to an end. -/
theorem exists_missing (elements : List (Int × α)) :
    ∃ m < elements.length + 1, (m : Int) ∉ elements.map Prod.fst := by
  by_contra all
  push Not at all
  have within : positions (elements.length + 1) ⊆ elements.map Prod.fst := by
    intro index inside
    obtain ⟨natural, early⟩ := mem_positions.1 inside
    have member := all index.toNat (by omega)
    rwa [Int.toNat_of_nonneg natural] at member
  have shorter := (List.subperm_of_subset (nodup_positions _) within).length_le
  rw [length_positions, List.length_map] at shorter
  omega

/-- The first missing index is the smallest one that no element has. There is one
among the numbers up to that of the elements, for these are one more than the
elements can have. -/
theorem firstMissing_least (elements : List (Int × α)) :
    (firstMissing elements : Int) ∉ elements.map Prod.fst ∧
      ∀ i : Nat, i < firstMissing elements → (i : Int) ∈ elements.map Prod.fst := by
  have used (i : Nat) : (elements.any fun (used, _) => used = (i : Int)) = true ↔
      (i : Int) ∈ elements.map Prod.fst := by
    simp only [List.any_eq_true, decide_eq_true_eq, List.mem_map]
  obtain ⟨m, inside, absent⟩ := exists_missing elements
  unfold firstMissing
  cases found : (List.range (elements.length + 1)).find? fun (index : Nat) =>
      !elements.any fun (used, _) => used = (index : Int) with
  | none =>
    have present := List.find?_eq_none.1 found m (List.mem_range.2 inside)
    simp only [Bool.not_eq_true', Bool.not_eq_false] at present
    exact absurd ((used m).1 present) absent
  | some least =>
    obtain ⟨free, -, before⟩ := List.find?_range_eq_some.1 found
    rw [Option.getD_some]
    refine ⟨fun taken => ?_, fun i earlier => ?_⟩
    · simp [(used least).2 taken] at free
    · have present := before i earlier
      simp only [Bool.not_not] at present
      exact (used i).1 present

/-- Different indices that are all below their number are the positions in some
order, by counting. -/
theorem perm_positions (apart : (elements.map Prod.fst).Nodup) {n : Nat}
    (within : ∀ index ∈ elements.map Prod.fst, 0 ≤ index ∧ index < n)
    (few : n ≤ elements.length) :
    n = elements.length ∧ (elements.map Prod.fst).Perm (positions n) := by
  have part := List.subperm_of_subset apart fun index member => mem_positions.2 (within index member)
  have same : (positions n).length ≤ (elements.map Prod.fst).length := by simpa using few
  have perm := part.perm_of_length_le same
  refine ⟨?_, perm⟩
  simpa using perm.length_eq.symm

/-- Slots are allocated for a length that is not negative and not greater than
the number of elements. So a length written in the code cannot make the reader
allocate more than was written. -/
theorem allocated_eq_ok : allocated length elements = .ok slots ↔
    0 ≤ length ∧ length ≤ elements.length ∧ slots = List.replicate length.toNat none := by
  unfold allocated
  by_cases negative : length < 0
  · simp [negative, Int.not_le.2 negative, throw, throwThe, MonadExceptOf.throw, bind, Except.bind]
  · by_cases many : (elements.length : Int) < length
    · simp [negative, many, Int.not_le.2 many, throw, throwThe, MonadExceptOf.throw, bind,
        Except.bind]
    · simp [negative, many, Int.not_lt.1 negative, Int.not_lt.1 many, pure, Except.pure, eq_comm]

/-- Where all elements have found a free slot and there are no more slots than
elements, the indices are the positions in some order and all slots are full. -/
theorem full_of_fillAll (few : slots.length ≤ elements.length)
    (filled : fillAll slots elements = .ok left) :
    slots.length = elements.length ∧
      (elements.map Prod.fst).Perm (positions elements.length) ∧
      ∃ values : List α, left = values.map some ∧ values.length = elements.length ∧
        ∀ (i : Nat) value, ((i : Int), value) ∈ elements → values[i]? = some value := by
  have slotted := slotted_of_fillAll filled
  have within : ∀ index ∈ elements.map Prod.fst, 0 ≤ index ∧ index < slots.length := by
    intro index member
    obtain ⟨⟨_, value⟩, among, rfl⟩ := List.mem_map.1 member
    obtain ⟨m, rfl, there, -⟩ := slotted.placed _ _ among
    have inside := (List.getElem?_eq_some_iff.1 there).1
    dsimp only
    omega
  obtain ⟨same, perm⟩ := perm_positions slotted.apart within few
  have full : ∀ m < left.length, ∃ value, left[m]? = some (some value) := by
    intro m inside
    rw [slotted.length] at inside
    have used : (m : Int) ∈ elements.map Prod.fst := perm.mem_iff.2 (mem_positions.2 (by omega))
    obtain ⟨⟨_, value⟩, among, here⟩ := List.mem_map.1 used
    obtain ⟨n, there, -, placed⟩ := slotted.placed _ _ among
    obtain rfl : n = m := Int.ofNat.inj (there.symm.trans here)
    exact ⟨value, placed⟩
  obtain ⟨values, rfl⟩ := exists_values full
  refine ⟨same, same ▸ perm, values, rfl, ?_, fun i value member => ?_⟩
  · have length := slotted.length
    rw [List.length_map] at length
    exact length.trans same
  · obtain ⟨m, here, -, placed⟩ := slotted.placed _ _ member
    obtain rfl : i = m := Int.ofNat.inj here
    rw [List.getElem?_map] at placed
    cases found : values[i]? with
    | none => simp [found] at placed
    | some other => simpa [found] using placed

/-- The length of the array is the number of elements, and their indices are the
positions in some order. -/
def Exact (length : Int) (elements : List (Int × α)) : Prop :=
  length = elements.length ∧ (elements.map Prod.fst).Perm (positions elements.length)

/-- The values stand at their indices. -/
def Stored (values : List α) (elements : List (Int × α)) : Prop :=
  values.length = elements.length ∧
    ∀ (i : Nat) value, ((i : Int), value) ∈ elements → values[i]? = some value

/-- An index is out of range, or it is that of several elements. -/
def Misplaced (length : Int) (elements : List (Int × α)) (cause : Cause) : Prop :=
  ∃ index ∈ elements.map Prod.fst,
    (cause = .elementIndex index ∧ ¬ (0 ≤ index ∧ index < length)) ∨
      (cause = .elementRepeated index ∧ 2 ≤ (elements.map Prod.fst).count index)

theorem allocated_of_negative (negative : length < 0) :
    allocated length elements = .error (.arrayLength length) := by
  unfold allocated
  rw [if_pos negative]
  rfl

/-- A length greater than the number of elements is refused for the first index
that none of them has. -/
theorem allocated_of_many (many : elements.length < length) :
    allocated length elements = .error (.elementMissing (firstMissing elements)) := by
  unfold allocated
  rw [if_neg (by omega), if_pos many]
  rfl

/-- Elements that do not find their slots are misplaced, and then their indices
are not the positions in some order. -/
theorem misplaced_of_fillAll (natural : 0 ≤ length)
    (failed : fillAll (List.replicate length.toNat none) elements = .error cause) :
    Misplaced length elements cause ∧ ¬ Exact length elements := by
  have misplaced : Misplaced length elements cause := by
    obtain ⟨index, member, ⟨same, outside⟩ | ⟨same, twice | ⟨m, -, former, full⟩⟩⟩ :=
      fillAll_eq_error failed
    · rw [List.length_replicate, Int.toNat_of_nonneg natural] at outside
      exact ⟨index, member, .inl ⟨same, outside⟩⟩
    · exact ⟨index, member, .inr ⟨same, twice⟩⟩
    · obtain ⟨inside, here⟩ := List.getElem?_eq_some_iff.1 full
      simp at here
  refine ⟨misplaced, fun ⟨same, perm⟩ => ?_⟩
  obtain ⟨index, member, ⟨-, outside⟩ | ⟨-, twice⟩⟩ := misplaced
  · exact outside (same ▸ mem_positions.1 (perm.mem_iff.1 member))
  · have once := List.nodup_iff_count_le_one.1 (perm.nodup_iff.2 (nodup_positions _)) index
    omega

/-- Arranging elements comes to one of four ends: a negative length, elements
that are missing, one that is misplaced, or the values at their indices. -/
theorem arranged_cases (length : Int) (elements : List (Int × α)) :
    (length < 0 ∧ arranged length elements = .error (.arrayLength length)) ∨
      ((elements.length : Int) < length ∧
        arranged length elements = .error (.elementMissing (firstMissing elements))) ∨
      (0 ≤ length ∧ length ≤ elements.length ∧ ¬ Exact length elements ∧
        ∃ cause, arranged length elements = .error cause ∧ Misplaced length elements cause) ∨
      Exact length elements ∧ ∃ values, arranged length elements = .ok values ∧
        Stored values elements := by
  unfold arranged
  rcases Int.lt_or_le length 0 with negative | natural
  · exact .inl ⟨negative, by rw [allocated_of_negative negative]; rfl⟩
  rcases Int.lt_or_le elements.length length with many | few
  · exact .inr (.inl ⟨many, by rw [allocated_of_many many]; rfl⟩)
  refine .inr (.inr ?_)
  rw [allocated_eq_ok.2 ⟨natural, few, rfl⟩]
  cases filling : fillAll (List.replicate length.toNat none) elements with
  | error cause =>
    obtain ⟨misplaced, inexact⟩ := misplaced_of_fillAll natural filling
    exact .inl ⟨natural, few, inexact, cause, by simp [filling, bind, Except.bind], misplaced⟩
  | ok left =>
    have fits : (List.replicate length.toNat (none : Option α)).length ≤ elements.length := by
      rw [List.length_replicate]
      omega
    obtain ⟨same, perm, values, rfl, stored⟩ := full_of_fillAll fits filling
    rw [List.length_replicate] at same
    refine .inr ⟨⟨by omega, perm⟩, values, ?_, stored⟩
    simpa [filling, bind, Except.bind] using filled_eq_ok.2 rfl

/-- A reading fails for a cause of a kind. -/
def FailsFor {β : Type} (result : EStateM.Result Failure Reading β) (kind : Kind) (cause : Cause) :
    Prop :=
  ∃ told left, result = .error told left ∧ told.unplaced = .ofCause cause ∧ told.kind? = some kind

/-- A reading comes to what arranging elements comes to. -/
def Arranges {β : Type} (result : EStateM.Result Failure Reading β) (outcome : Except Cause β) :
    Prop :=
  match outcome with
  | .ok value => ∃ left, result = .ok value left
  | .error cause => FailsFor result cause.kind cause

/-- What reading an array comes to whose elements have been met with these
indices and values. If there are as many as its length and their indices are the
positions in some order, every value is at its index. A negative length is a flaw
of the structure. Where elements are missing, the first index that was never
written is told; else some index is out of range or was written twice, which is a
flaw of the structure. No more slots are allocated than there are elements, and
if all of these have found theirs, none is free. -/
structure Positional (length : Int) (elements : List (Int × α))
    (result : EStateM.Result Failure Reading (List α)) : Prop where
  accepted : (∃ values left, result = .ok values left) ↔ Exact length elements
  stored : ∀ values left, result = .ok values left → Stored values elements
  negative : length < 0 → FailsFor result .structural (.arrayLength length)
  missing : elements.length < length → ∃ m : Nat,
    FailsFor result .nullNotAllowed (.elementMissing m) ∧ (m : Int) ∉ elements.map Prod.fst ∧
      ∀ i : Nat, i < m → (i : Int) ∈ elements.map Prod.fst
  misplaced : 0 ≤ length → length ≤ elements.length → ¬ Exact length elements →
    ∃ cause, FailsFor result .structural cause ∧ Misplaced length elements cause
  slots : ∀ slots, allocated length elements = .ok slots → slots.length ≤ elements.length ∧
    ∀ left, fillAll slots elements = .ok left → ∃ values, filled 0 left = .ok values

variable {result : EStateM.Result Failure Reading (List α)}

theorem FailsFor.ne_ok {kind : Kind} (fails : FailsFor result kind cause) :
    ¬ ∃ values left, result = .ok values left := by
  obtain ⟨told, left, failed, -⟩ := fails
  rintro ⟨values, other, read⟩
  rw [failed] at read
  cases read

theorem Misplaced.kind (misplaced : Misplaced length elements cause) :
    cause.kind = .structural := by
  obtain ⟨index, -, ⟨rfl, -⟩ | ⟨rfl, -⟩⟩ := misplaced <;> rfl

/-- Slots for no more elements than there are do not stay free when each element
has found one. -/
theorem filled_of_allocated (given : allocated length elements = .ok slots) :
    slots.length ≤ elements.length ∧
      ∀ left, fillAll slots elements = .ok left → ∃ values, filled 0 left = .ok values := by
  obtain ⟨natural, few, rfl⟩ := allocated_eq_ok.1 given
  have fits : (List.replicate length.toNat (none : Option α)).length ≤ elements.length := by
    rw [List.length_replicate]
    omega
  refine ⟨fits, fun left filling => ?_⟩
  obtain ⟨-, -, values, rfl, -⟩ := full_of_fillAll fits filling
  exact ⟨values, filled_eq_ok.2 rfl⟩

/-- A reading that fails arranges nothing; what is left to show is why it fails.
The hypotheses are the three ways, each under its own condition. -/
theorem positional_of_fails {kind : Kind} (fails : FailsFor result kind cause)
    (inexact : ¬ Exact length elements)
    (negative : length < 0 → FailsFor result .structural (.arrayLength length))
    (missing : elements.length < length →
      FailsFor result .nullNotAllowed (.elementMissing (firstMissing elements)))
    (misplaced : 0 ≤ length → length ≤ elements.length →
      ∃ cause, FailsFor result .structural cause ∧ Misplaced length elements cause) :
    Positional length elements result where
  accepted := ⟨fun read => absurd read fails.ne_ok, fun exactly => absurd exactly inexact⟩
  stored values left read := absurd ⟨values, left, read⟩ fails.ne_ok
  negative := negative
  missing many := ⟨_, missing many, firstMissing_least elements⟩
  misplaced natural few _ := misplaced natural few
  slots _ := filled_of_allocated

/-- A reading that comes to what arranging comes to is positional, by the four
cases: a negative length, too few elements, elements that do not fit their slots,
and elements that fill all of them. The cases exclude each other, so each part of
the statement is about one. -/
theorem positional_of_arranges (arranges : Arranges result (arranged length elements)) :
    Positional length elements result := by
  obtain ⟨negative, same⟩ | ⟨many, same⟩ | ⟨natural, few, inexact, cause, same, misplaced⟩ |
    ⟨exactly, values, same, stored⟩ := arranged_cases length elements
  all_goals rw [same] at arranges
  · have fails : FailsFor result .structural (.arrayLength length) := arranges
    exact positional_of_fails fails (fun exactly => by have := exactly.1; omega) (fun _ => fails)
      (fun many => by omega) fun natural _ => by omega
  · have fails : FailsFor result .nullNotAllowed (.elementMissing (firstMissing elements)) :=
      arranges
    exact positional_of_fails fails (fun exactly => by have := exactly.1; omega)
      (fun negative => by omega) (fun _ => fails) fun _ few => by omega
  · have fails : FailsFor result .structural cause := misplaced.kind ▸ arranges
    exact positional_of_fails fails inexact (fun negative => by omega) (fun many => by omega)
      fun _ _ => ⟨cause, fails, misplaced⟩
  · obtain ⟨left, read⟩ := arranges
    exact {
      accepted := ⟨fun _ => exactly, fun _ => ⟨values, left, read⟩⟩
      stored := fun others _ other => by
        rw [read] at other
        obtain ⟨rfl, -⟩ := EStateM.Result.ok.inj other
        exact stored
      negative := fun negative => by have := exactly.1; omega
      missing := fun many => by have := exactly.1; omega
      misplaced := fun _ _ inexact => absurd exactly inexact
      slots := fun _ => filled_of_allocated }

variable {site : Site} {element : Reader α} {bound : Nat}

/-- One element of an array that is filled: a duplicate of the array, an index, a
value and the store of the value. Index and value are any code that their readers
read. -/
structure Initializer (site : Site) (element : Reader α) (bound : Nat) where
  duplicate : Instruction
  indexCode : List Instruction
  valueCode : List Instruction
  store : Instruction
  index : Int
  value : Resolving α
  duplicates : duplicate.opcode = .dup
  indexed : Follows site (integer site bound) indexCode (pure index)
  valued : Follows site element valueCode value
  stores : store.opcode.isElementStore = true

namespace Initializer

/-- What stands before the store. -/
def front (group : Initializer site element bound) : List Instruction :=
  [group.duplicate] ++ group.indexCode ++ group.valueCode

def code (group : Initializer site element bound) : List Instruction :=
  group.front ++ [group.store]

/-- What the elements are with their indices, read last to first. -/
def written (groups : List (Initializer site element bound)) : Resolving (List (Int × α)) :=
  groups.reverse.mapM fun group => (group.index, ·) <$> group.value

theorem written_concat (groups : List (Initializer site element bound))
    (last : Initializer site element bound) :
    written (groups ++ [last]) =
      last.value >>= fun value => written groups >>= fun rest =>
        pure ((last.index, value) :: rest) := by
  simp [written]

end Initializer

open Initializer in
/-- The loop over the elements reads group after group, the last one without its
store, by induction on the groups. -/
theorem follows_elements {create : Instruction} (creates : create.opcode = .newarr)
    (groups : List (Initializer site element bound)) (last : Initializer site element bound)
    {rounds : Nat} (enough : groups.length < rounds) :
    Follows site (Prod.snd <$> Reader.elements site element bound rounds)
      ([create] ++ groups.flatMap code ++ last.front) (written (groups ++ [last])) := by
  induction groups using List.reverseRecOn generalizing last rounds with
  | nil =>
    obtain ⟨rounds, rfl⟩ := Nat.exists_eq_add_one.2 enough
    have first : Follows site (Prod.snd <$> Reader.elements site element bound (rounds + 1)) _ _ :=
      follows_firstElement creates last.duplicates last.valued last.indexed
    simpa [front, written] using first
  | append_singleton groups group ih =>
    rw [List.length_append, List.length_singleton] at enough
    obtain ⟨rounds, rfl⟩ := Nat.exists_eq_add_of_le' (Nat.le_trans (Nat.le_add_left 1 _)
      (Nat.le_of_lt enough))
    have next := follows_nextElement group.stores last.duplicates
      (ih group (Nat.lt_of_succ_lt_succ enough)) last.valued last.indexed
    rw [written_concat]
    simpa [front, code] using next

open Initializer in
/-- An array that is filled is read as its elements are, which are arranged then.
The length stands at the very beginning and is read last, after all elements. -/
theorem follows_array {create : Instruction} (creates : create.opcode = .newarr)
    {groups : List (Initializer site element bound)} (some : groups ≠ [])
    (enough : groups.length ≤ bound) {lengthCode : List Instruction}
    (counted : Follows site (integer site bound) lengthCode (pure length)) :
    Follows site (array site element bound) (lengthCode ++ [create] ++ groups.flatMap code)
      (written groups >>= fun elements => liftExcept (Expression.arrange length elements)) := by
  obtain nothing | ⟨earlier, last, rfl⟩ := List.eq_nil_or_concat' groups
  · exact absurd nothing some
  rw [List.length_append, List.length_singleton] at enough
  have filled := follows_filledArray last.stores counted
    (follows_elements creates earlier last (Nat.lt_of_succ_le enough))
  simpa [code] using filled

open Initializer in
/-- The indices are met last to first. Reading walks away from the call, so the
element stored last comes first, and its value is read before its index. -/
theorem indices_of_written {groups : List (Initializer site element bound)} {symbols found : Symbols}
    (wrote : (written groups).run symbols = .ok elements found) :
    elements.map Prod.fst = (groups.map Initializer.index).reverse := by
  induction groups using List.reverseRecOn generalizing elements symbols found with
  | nil =>
    obtain ⟨rfl, -⟩ := by simpa [written] using wrote
    rfl
  | append_singleton groups last ih =>
    rw [written_concat] at wrote
    obtain ⟨value, _, -, wrote⟩ := Steps.run_bind_ok.1 wrote
    obtain ⟨rest, _, others, wrote⟩ := Steps.run_bind_ok.1 wrote
    obtain ⟨rfl, -⟩ := by simpa using wrote
    simp [ih others]

/-- The kind of a failure is that of its cause, with a place or without. Failures
are compared without their places, and kinds survive that. -/
theorem kind?_of_unplaced {failure : Failure} (same : failure.unplaced = .ofCause cause) :
    failure.kind? = some cause.kind := by
  cases failure with
  | weaving other place =>
    obtain ⟨rfl, -⟩ := Failure.weaving.inj same
    rfl
  | _ => cases same

/-- Array arguments are positional writes. Before a call stand the length of an
array, its creation and one or more groups that each fill an element, with any
indices; the element reader is any reader that reads the values. Then the array
is read if there are as many groups as its length and their indices are the
positions in some order, with the value of each at its index; and it fails as
told else. -/
theorem array_positional (site : Site) (element : Reader α) (bound : Nat) (length : Int)
    (lengthCode : List Instruction) (create : Instruction)
    (groups : List (Initializer site element bound)) (lines rest : List Line) (taken : List Place)
    (symbols found : Symbols) (elements : List (Int × α))
    (counted : Follows site (integer site bound) lengthCode (pure length))
    (creates : create.opcode = .newarr) (some : groups ≠ []) (enough : groups.length ≤ bound)
    (held : lines.map Line.instruction =
      lengthCode ++ [create] ++ groups.flatMap Initializer.code)
    (together : ∀ line ∈ lines, site.blocks.sameBlock line.place site.call.place = true)
    (wrote : (Initializer.written groups).run symbols = .ok elements found) :
    elements.map Prod.fst = (groups.map Initializer.index).reverse ∧
      Positional length elements
        ((array site element bound).run ⟨lines.reverse ++ rest, taken, symbols⟩) := by
  refine ⟨indices_of_written wrote, positional_of_arranges ?_⟩
  have read := follows_array creates some enough counted lines rest taken symbols held together
  rw [Steps.run_bind, wrote] at read
  unfold Expression.arrange at read
  unfold Arranges
  cases outcome : arranged length elements with
  | ok values =>
    simp only [outcome, Steps.run_liftExcept_ok] at read
    exact ⟨_, read⟩
  | error cause =>
    simp only [outcome, Steps.run_liftExcept_error] at read
    obtain ⟨told, left, failed, same, -⟩ := read
    exact ⟨told, left, failed, same, kind?_of_unplaced same⟩

/-- A literal is read as the number that it is, so it may be a length or an
index. -/
theorem follows_number {load : Instruction} {constant : Constant} {number : Int} (bound : Nat)
    (loads : literal? load = some constant) (whole : Expression.wholeOf constant = .ok number) :
    Follows site (integer site (bound + 1)) [load] (pure number) := by
  have read : Follows site (integer site (bound + 1)) [load] _ :=
    follows_whole (follows_literal bound loads)
  rwa [pure_bind, whole] at read

/-- The group that stores a text. -/
def storing (site : Site) (duplicate store : Instruction) (duplicates : duplicate.opcode = .dup)
    (stores : store.opcode.isElementStore = true) (index : Int32) (text : String) :
    Initializer site (string site) (8 + 1) where
  duplicate := duplicate
  indexCode := [⟨.ldcI4, .int32 index⟩]
  valueCode := [⟨.ldstr, .string text⟩]
  store := store
  index := index.toInt
  value := pure text
  duplicates := duplicates
  indexed := follows_number 8 rfl rfl
  valued := follows_text text
  stores := stores

/-- A body that fills the second element of an array before the first. -/
def backwardBody : Body :=
  ({} : Body).pushAll
    [⟨.ldcI42, .none⟩, ⟨.newarr, .none⟩,
      ⟨.dup, .none⟩, ⟨.ldcI4, .int32 1⟩, ⟨.ldstr, .string "last"⟩, ⟨.stelemRef, .none⟩,
      ⟨.dup, .none⟩, ⟨.ldcI4, .int32 0⟩, ⟨.ldstr, .string "first"⟩, ⟨.stelemRef, .none⟩,
      ⟨.nop, .none⟩]

def backwardSite : Site := ⟨"InlineIL", ⟨⟨10⟩, ⟨.nop, .none⟩⟩, .ofBody backwardBody⟩

/-- The lines before the call, the nearest first. -/
def backwardReading : Reading :=
  ⟨(backwardBody.code.linked.take 10).reverse ++ [], [], Weave.emptyProgram⟩

/-- The second element is written before the first, and each value is at its
index. -/
theorem array_positional_backward :
    (∃ left, (array backwardSite (string backwardSite) 9).run backwardReading =
      .ok ["first", "last"] left) ∧
      Positional 2 [(0, "first"), (1, "last")]
        ((array backwardSite (string backwardSite) 9).run backwardReading) :=
  ⟨⟨_, rfl⟩, (array_positional backwardSite (string backwardSite) 9 2 [⟨.ldcI42, .none⟩]
    ⟨.newarr, .none⟩ [storing backwardSite ⟨.dup, .none⟩ ⟨.stelemRef, .none⟩ rfl rfl 1 "last",
      storing backwardSite ⟨.dup, .none⟩ ⟨.stelemRef, .none⟩ rfl rfl 0 "first"]
    (backwardBody.code.linked.take 10) [] [] Weave.emptyProgram Weave.emptyProgram
    [(0, "first"), (1, "last")] (follows_number 8 rfl rfl) rfl (by decide) (by decide) rfl
    (by decide) rfl).2⟩

end Reader

end InlineCil
