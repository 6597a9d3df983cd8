import InlineCil.Proofs.Encoding
import InlineCil.Proofs.Pass

/-!
# Labels of encoded code

A label has a place from its first mention on and keeps it. Its instruction waits
to be linked until the label is marked, so code that goes to a label is right
before the label is there. The label table says at any time which names were
branched to and which were marked.

`Labelled` relates the table to the names that statements have used and marked so
far. Places of labels are new, so no original line is confused with one, and
different names have different places, so marking one label never moves another.

There is one lemma for each step that a rule takes with the table: a label is
added at the place handed out next, a branch to it is noted, the call that marks
it is noted, and its instruction need not wait any more. `Extends` says that
places are kept, which is what items said before remain true by.
-/

namespace InlineCil

namespace LabelTable

variable {t later : LabelTable} {name other : String} {place : Place}

/-- The place of a label, once it was mentioned. -/
def place? (t : LabelTable) (name : String) : Option Place := (t.find? name).map Label.place

/-- Labels that have a place keep it. -/
def Extends (t later : LabelTable) : Prop :=
  ∀ name place, t.place? name = some place → later.place? name = some place

theorem Extends.refl (t : LabelTable) : t.Extends t := fun _ _ found => found

theorem Extends.trans {last : LabelTable} (first : t.Extends later) (second : later.Extends last) :
    t.Extends last := fun name place found => second name place (first name place found)

/-- Noting something about a label of a name changes what is found under this
name and nothing else. Names themselves do not change. -/
theorem find?_update (t : LabelTable) (name other : String) {change : Label → Label}
    (still : ∀ label, (change label).name = label.name) :
    (t.update name change).find? other =
      (t.find? other).map fun label => if label.name = name then change label else label := by
  unfold find? update
  rw [List.find?_map]
  congr 2
  funext label
  by_cases here : label.name = name <;> simp [here, still]

/-- Noting something about a label does not move it, and moves no other label
either. Names stay too, so the same label is found. -/
theorem place?_update (t : LabelTable) (name other : String) {change : Label → Label}
    (still : ∀ label, (change label).name = label.name ∧ (change label).place = label.place) :
    (t.update name change).place? other = t.place? other := by
  unfold place?
  rw [find?_update t name other fun label => (still label).1, Option.map_map]
  congr 1
  funext label
  by_cases here : label.name = name <;> simp [here, still]

/-- A new label is found under its name unless there was one of the name before. -/
theorem find?_add (t : LabelTable) (name other : String) (place : Place) :
    (t.add name place).find? other =
      (t.find? other).or (if name = other then some { name, place } else none) := by
  unfold find? add
  rw [List.find?_append, List.find?_singleton]
  by_cases here : name = other <;> simp [here]

theorem place?_add_self (missing : t.find? name = none) :
    (t.add name place).place? name = some place := by
  simp [place?, find?_add, missing]

/-- A new label moves no other one: the first one of a name counts, and new ones
come last. -/
theorem extends_add (t : LabelTable) (name : String) (place : Place) :
    t.Extends (t.add name place) := by
  intro other old found
  obtain ⟨label, known, same⟩ := Option.map_eq_some_iff.1 found
  simp [place?, find?_add, known, same]

theorem extends_update (t : LabelTable) (name : String) {change : Label → Label}
    (still : ∀ label, (change label).name = label.name ∧ (change label).place = label.place) :
    t.Extends (t.update name change) :=
  fun other _ found => (t.place?_update name other still).trans found

/-- What is found under a name is a label of the table with that name. -/
theorem mem_of_find? {label : Label} (found : t.find? name = some label) :
    label ∈ t.labels ∧ label.name = name :=
  ⟨List.mem_of_find?_eq_some found, by simpa using List.find?_some found⟩

end LabelTable

/-- What an item says stays true while labels keep their places, so lines
rewritten early need no second look. -/
theorem Item.Stands.mono {t later : LabelTable} {item : Item} {line : Line}
    (stands : item.Stands t.place? line) (kept : t.Extends later) :
    item.Stands later.place? line := by
  cases item with
  | operation opcode operand => exact stands
  | branch opcode target =>
    obtain ⟨place, found, same⟩ := stands
    exact ⟨place, kept _ _ found, same⟩
  | switch opcode targets =>
    obtain ⟨places, found, same⟩ := stands
    exact ⟨places, found.imp fun target place => kept target place, same⟩
  | label name => exact ⟨kept _ _ stands.1, stands.2⟩

/-- A line goes where the labels are that its item branches to, and nowhere else.
The items are still, so an operand that is not a label brings no target of its
own. -/
theorem Item.Stands.uses {place? : String → Option Place} {item : Item} {line : Line}
    (stands : item.Stands place? line) (still : item.Still) {target : Place}
    (goes : target ∈ line.instruction.targets) : ∃ name ∈ item.uses, place? name = some target := by
  cases item with
  | operation opcode operand =>
    rw [show line.instruction = ⟨opcode, operand⟩ from stands] at goes
    simp [Instruction.targets, show operand.targets = [] from still] at goes
  | branch opcode name =>
    obtain ⟨place, found, same⟩ := stands
    rw [same] at goes
    obtain rfl := List.mem_singleton.1 goes
    exact ⟨name, List.mem_singleton.2 rfl, found⟩
  | switch opcode names =>
    obtain ⟨places, found, same⟩ := stands
    rw [same] at goes
    have named : List.Forall₂ (fun place name => place? name = some place) places names :=
      found.flip
    exact Steps.exists_of_forall₂ named goes
  | label name =>
    rw [stands.2] at goes
    simp [Instruction.targets, Operand.targets] at goes

/-- The line of an item that marks a label is where the label is. No other item
marks anything. -/
theorem Item.Stands.marks {place? : String → Option Place} {item : Item} {line : Line}
    (stands : item.Stands place? line) {name : String} (marks : name ∈ item.marks) :
    place? name = some line.place := by
  cases item with
  | label other =>
    obtain rfl := List.mem_singleton.1 marks
    exact stands.1
  | operation | branch | switch => simp [Item.marks] at marks

/-- The label table of code that was rewritten up to some point, when certain
names have been branched to and others marked. Places of labels are new and
differ, and the instruction of a label that is not marked yet waits to be linked. -/
structure Labelled (first : Nat) (uses marks : List String) (t : LabelTable) (code : Code) :
    Prop where
  next : first ≤ code.next
  fresh : ∀ label ∈ t.labels, first ≤ label.place.index ∧ label.place.index < code.next
  apart : ∀ label ∈ t.labels, ∀ other ∈ t.labels, label.place = other.place →
    label.name = other.name
  waiting : ∀ label ∈ t.labels, label.name ∉ marks →
    ⟨label.place, ⟨.nop, .none⟩⟩ ∈ code.detached
  used : ∀ label ∈ t.labels, label.firstUse.isSome → label.name ∈ uses
  defined : ∀ label ∈ t.labels, label.definedAt.isSome ↔ label.name ∈ marks
  known : ∀ name ∈ marks, (t.find? name).isSome

namespace Labelled

variable {first : Nat} {uses marks : List String} {t : LabelTable} {code : Code} {name : String}

/-- In the beginning there are no labels, and any place that is handed out next
is a new one. -/
theorem initial (code : Code) : Labelled code.next [] [] {} code where
  next := Nat.le_refl _
  fresh := by simp
  apart := by simp
  waiting := by simp
  used := by simp
  defined := by simp
  known := by simp

/-- The code may change as long as nothing stops waiting. Lines that wait for
other reasons are at original places. -/
theorem congr (labelled : Labelled first uses marks t code) {left : Code}
    (next : code.next ≤ left.next)
    (waiting : ∀ line ∈ code.detached, first ≤ line.place.index → line ∈ left.detached) :
    Labelled first uses marks t left :=
  { labelled with
    next := Nat.le_trans labelled.next next
    fresh := fun label member =>
      ⟨(labelled.fresh label member).1, Nat.lt_of_lt_of_le (labelled.fresh label member).2 next⟩
    waiting := fun label member unmarked =>
      waiting _ (labelled.waiting label member unmarked) (labelled.fresh label member).1 }

/-- A name without a label is not marked: marking a label mentions it. -/
theorem not_marked (labelled : Labelled first uses marks t code) (missing : t.find? name = none) :
    name ∉ marks := fun marked => by simpa [missing] using labelled.known name marked

/-- A label gets a place that was never handed out, and its instruction waits
there. The place is above all others, which keeps the places of labels apart from
each other and from those of the original code. -/
theorem add (labelled : Labelled first uses marks t code) (missing : t.find? name = none) :
    Labelled first uses marks (t.add name ⟨code.next⟩) (code.create ⟨.nop, .none⟩) where
  next := Nat.le_succ_of_le labelled.next
  fresh label member := by
    rcases List.mem_append.1 member with member | member
    · obtain ⟨low, high⟩ := labelled.fresh label member
      exact ⟨low, Nat.lt_succ_of_lt high⟩
    · obtain rfl := List.mem_singleton.1 member
      exact ⟨labelled.next, Nat.lt_succ_self _⟩
  apart label member other among same := by
    have new {old : Label} (known : old ∈ t.labels) : old.place ≠ ⟨code.next⟩ := fun same => by
      have low := (labelled.fresh old known).2
      rw [same] at low
      exact Nat.lt_irrefl _ low
    rcases List.mem_append.1 member with member | member <;>
      rcases List.mem_append.1 among with among | among
    · exact labelled.apart label member other among same
    · obtain rfl := List.mem_singleton.1 among
      exact (new member same).elim
    · obtain rfl := List.mem_singleton.1 member
      exact (new among same.symm).elim
    · rw [List.mem_singleton.1 member, List.mem_singleton.1 among]
  waiting label member unmarked := by
    rcases List.mem_append.1 member with member | member
    · exact List.mem_append_left _ (labelled.waiting label member unmarked)
    · obtain rfl := List.mem_singleton.1 member
      exact List.mem_append_right _ (List.mem_singleton.2 rfl)
  used label member uses := by
    rcases List.mem_append.1 member with member | member
    · exact labelled.used label member uses
    · obtain rfl := List.mem_singleton.1 member
      simp at uses
  defined label member := by
    rcases List.mem_append.1 member with member | member
    · exact labelled.defined label member
    · obtain rfl := List.mem_singleton.1 member
      simpa using labelled.not_marked missing
  known other marked := by
    rw [LabelTable.find?_add, Option.isSome_or, labelled.known other marked]
    rfl

/-- Noting something about a label leaves all labels where they are. What is
noted must be among the names that the statements have used and marked. -/
theorem update (labelled : Labelled first uses marks t code) (name : String)
    {change : Label → Label}
    (still : ∀ label, (change label).name = label.name ∧ (change label).place = label.place)
    {laterUses laterMarks : List String} (more : ∀ other ∈ marks, other ∈ laterMarks)
    (used : ∀ label ∈ t.labels,
      (if label.name = name then change label else label).firstUse.isSome →
        label.name ∈ laterUses)
    (defined : ∀ label ∈ t.labels,
      (if label.name = name then change label else label).definedAt.isSome ↔
        label.name ∈ laterMarks)
    (known : ∀ other ∈ laterMarks, (t.find? other).isSome) :
    Labelled first laterUses laterMarks (t.update name change) code := by
  have same (label : Label) : (if label.name = name then change label else label).name =
      label.name ∧ (if label.name = name then change label else label).place = label.place := by
    split
    · exact still label
    · exact ⟨rfl, rfl⟩
  have before {label : Label} (member : label ∈ (t.update name change).labels) :
      ∃ old ∈ t.labels, (if old.name = name then change old else old) = label :=
    List.mem_map.1 member
  refine ⟨labelled.next, fun label member => ?_, fun label member other among places => ?_,
    fun label member unmarked => ?_, fun label member noted => ?_, fun label member => ?_,
    fun other marked => ?_⟩
  · obtain ⟨old, earlier, rfl⟩ := before member
    rw [(same old).2]
    exact labelled.fresh old earlier
  · obtain ⟨old, earlier, rfl⟩ := before member
    obtain ⟨further, also, rfl⟩ := before among
    rw [(same old).2, (same further).2] at places
    rw [(same old).1, (same further).1]
    exact labelled.apart old earlier further also places
  · obtain ⟨old, earlier, rfl⟩ := before member
    rw [(same old).1] at unmarked
    rw [(same old).2]
    exact labelled.waiting old earlier fun marked => unmarked (more _ marked)
  · obtain ⟨old, earlier, rfl⟩ := before member
    rw [(same old).1]
    exact used old earlier noted
  · obtain ⟨old, earlier, rfl⟩ := before member
    rw [(same old).1]
    exact defined old earlier
  · rw [LabelTable.find?_update t name other fun label => (still label).1, Option.isSome_map]
    exact known other marked

/-- A branch to a label is noted. The first branch counts, later ones change
nothing, but each of them is among the uses. -/
theorem use (labelled : Labelled first uses marks t code) (name : String) (branch : Place) :
    Labelled first (uses ++ [name]) marks (t.use name branch) code := by
  refine labelled.update name (fun label => by exact ⟨rfl, rfl⟩) (fun other marked => marked)
    (fun label member noted => ?_) (fun label member => ?_) labelled.known
  · split at noted
    · next here => simp [here]
    · exact List.mem_append_left _ (labelled.used label member noted)
  · split <;> exact labelled.defined label member

/-- The call that marks a label is noted; this says nothing of where its
instruction is. The label has to be in the table by then, since marking looks it
up or adds it first. -/
theorem define (labelled : Labelled first uses marks t code) (found : (t.find? name).isSome)
    (call : Place) : Labelled first uses (marks ++ [name]) (t.define name call) code := by
  refine labelled.update name (fun label => by exact ⟨rfl, rfl⟩)
    (fun other marked => List.mem_append_left _ marked) (fun label member noted => ?_)
    (fun label member => ?_) fun other marked => ?_
  · split at noted <;> exact labelled.used label member noted
  · split
    · next here => simp [here]
    · next other => simpa [other] using labelled.defined label member
  · rcases List.mem_append.1 marked with marked | marked
    · exact labelled.known other marked
    · exact List.mem_singleton.1 marked ▸ found

/-- The instruction of a marked label need not wait any longer, since no other
label is at its place. -/
theorem link (labelled : Labelled first uses marks t code) {left : Code} {place : Place}
    (found : t.place? name = some place) (marked : name ∈ marks) (next : left.next = code.next)
    (others : ∀ line ∈ code.detached, line.place ≠ place → line ∈ left.detached) :
    Labelled first uses marks t left :=
  { labelled with
    next := next ▸ labelled.next
    fresh := fun label member => next ▸ labelled.fresh label member
    waiting := fun label member unmarked => by
      obtain ⟨own, known, rfl⟩ := Option.map_eq_some_iff.1 found
      obtain ⟨among, rfl⟩ := LabelTable.mem_of_find? known
      refine others _ (labelled.waiting label member unmarked) fun same => unmarked ?_
      exact labelled.apart label member own among same ▸ marked }

theorem le_index (labelled : Labelled first uses marks t code) {place : Place}
    (found : t.place? name = some place) : first ≤ place.index := by
  obtain ⟨label, known, rfl⟩ := Option.map_eq_some_iff.1 found
  exact (labelled.fresh label (LabelTable.mem_of_find? known).1).1

/-- What branches to labels goes to new places, so lines that leave the code
later are no targets. -/
theorem targets_fresh (labelled : Labelled first uses marks t code) {item : Item} {line : Line}
    (stands : item.Stands t.place? line) (still : item.Still) :
    ∀ target ∈ line.instruction.targets, first ≤ target.index := by
  intro target goes
  obtain ⟨name, -, found⟩ := stands.uses still goes
  exact labelled.le_index found

end Labelled

end InlineCil
