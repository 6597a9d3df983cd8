import InlineCil.Weave
import Mathlib.Tactic.Tauto

/-!
# Moving references

Instructions refer to others by branch targets, exception clauses by their
borders. A move says for every place where references to it go. One retargeting
moves a single place; a sequence of them is a composed move, so that whole passes
are described by one move and bodies are compared without following each step.

Two kinds of moves are needed. Branches and the starts of regions always go to
some place, so their move is a function on places. The end of a region is the
first place after it, and after the last place there is none: its move may send
it to the end of the body. `single`, `gather` and `singleEnd` are the moves that
a removal or a replacement makes, and `gather_append` says that a site removed
line by line makes the move of the site removed at once.

Operands, instructions, lines and clauses then have the same few laws each: one
retargeting is a move, moves compose, a move matters only at what is named, and
the move that stays does nothing.
-/

namespace InlineCil

/-- Send every branch where a move says. -/
def Operand.moveTargets (move : Place → Place) : Operand → Operand
  | .target place => .target (move place)
  | .switch places => .switch (places.map move)
  | operand => operand

/-- Send the branches of an instruction where a move says. -/
def Instruction.moveTargets (move : Place → Place) (i : Instruction) : Instruction :=
  { i with operand := i.operand.moveTargets move }

/-- Send the branches of a line where a move says; the line stays at its place. -/
def Line.moveTargets (move : Place → Place) (line : Line) : Line :=
  ⟨line.place, line.instruction.moveTargets move⟩

/-- Move the borders of a clause: the starts of regions by one move, their ends
by another, which may send an end to the end of the body. -/
def Clause.moveBorders (start : Place → Place) (stop : Place → Option Place) (c : Clause) :
    Clause :=
  { c with
    tryStart := start c.tryStart
    tryEnd := c.tryEnd.bind stop
    filterStart := c.filterStart.map start
    handlerStart := start c.handlerStart
    handlerEnd := c.handlerEnd.bind stop }

/-- The borders at which regions of a clause start. -/
def Clause.starts (c : Clause) : List Place :=
  c.tryStart :: c.handlerStart :: c.filterStart.toList

/-- The borders at which regions of a clause end before the end of the body. -/
def Clause.ends (c : Clause) : List Place := c.tryEnd.toList ++ c.handlerEnd.toList

/-- The move that sends one place to another. -/
def single (old new : Place) (place : Place) : Place := if place = old then new else place

/-- The move that sends every place of a site to one place. -/
def gather (places : List Place) (target place : Place) : Place :=
  if place ∈ places then target else place

/-- The move that sends the end of a region at one place elsewhere. -/
def singleEnd (old : Place) (new : Option Place) (place : Place) : Option Place :=
  if place = old then new else some place

@[simp] theorem gather_nil (target : Place) : gather [] target = id := by
  funext place
  simp [gather]

theorem gather_singleton (old new : Place) : gather [old] new = single old new := by
  funext place
  simp [gather, single]

/-- Places are sent to the target one by one or all at once.

The last place of a site leaves first. By then the others may be sent on only if
the target is one of them, which is why the target of the last move is looked up
again. -/
theorem gather_append (places : List Place) (last target place : Place) :
    gather (places ++ [last]) target place = gather places target (single last target place) := by
  by_cases here : place = last
  · subst here
    by_cases among : target ∈ places <;> simp [gather, single, among]
  · simp [gather, single, here]

/-- With a place to go to, ends of regions move like everything else. Only a
removal at the end of the code tells the two kinds of moves apart. -/
theorem singleEnd_some (old new : Place) :
    singleEnd old (some new) = fun place => some (single old new place) := by
  funext place
  unfold singleEnd single
  split <;> rfl

/-- The end of a region moves like its start, if it moves to a place at all. The
hypothesis says that starts go to the same heir then. -/
theorem eq_single_of_singleEnd {old heir place ending : Place} {next : Option Place}
    (heirs : ∀ place, next = some place → place = heir)
    (ends : singleEnd old next place = some ending) : ending = single old heir place := by
  unfold singleEnd at ends
  unfold single
  split at ends
  · next here => rw [if_pos here, heirs ending ends]
  · next other =>
    rw [if_neg other]
    exact (Option.some.inj ends).symm

namespace Operand

/-- Retargeting one place is the move of that place, so results about moves cover
the steps of a rewrite. -/
theorem retarget_eq_moveTargets (old new : Place) (operand : Operand) :
    operand.retarget old new = operand.moveTargets (single old new) := by
  cases operand <;> rfl

/-- The targets of a moved operand are the moved targets, in the same order. -/
theorem targets_moveTargets (move : Place → Place) (operand : Operand) :
    (operand.moveTargets move).targets = operand.targets.map move := by
  cases operand <;> rfl

theorem moveTargets_moveTargets (first second : Place → Place) (operand : Operand) :
    (operand.moveTargets first).moveTargets second = operand.moveTargets (second ∘ first) := by
  cases operand <;> simp [moveTargets]

/-- A move matters only at the targets: moves that agree there give the same
operand. -/
theorem moveTargets_congr {first second : Place → Place} {operand : Operand}
    (same : ∀ place ∈ operand.targets, first place = second place) :
    operand.moveTargets first = operand.moveTargets second := by
  cases operand with
  | target place => simpa [moveTargets, targets] using same
  | switch places => simpa [moveTargets, targets] using same
  | _ => rfl

theorem moveTargets_id (operand : Operand) : operand.moveTargets id = operand := by
  cases operand <;> simp [moveTargets]

end Operand

namespace Instruction

variable (i : Instruction)

@[simp] theorem opcode_moveTargets (move : Place → Place) :
    (i.moveTargets move).opcode = i.opcode := rfl

theorem retarget_eq_moveTargets (old new : Place) :
    i.retarget old new = i.moveTargets (single old new) := by
  simp [retarget, moveTargets, Operand.retarget_eq_moveTargets]

/-- The targets of a moved instruction are those of its moved operand. -/
theorem targets_moveTargets (move : Place → Place) :
    (i.moveTargets move).targets = i.targets.map move :=
  Operand.targets_moveTargets move i.operand

theorem moveTargets_moveTargets (first second : Place → Place) :
    (i.moveTargets first).moveTargets second = i.moveTargets (second ∘ first) := by
  simp [moveTargets, Operand.moveTargets_moveTargets]

/-- Moves that agree on the targets of an instruction give the same instruction. -/
theorem moveTargets_congr {i : Instruction} {first second : Place → Place}
    (same : ∀ place ∈ i.targets, first place = second place) :
    i.moveTargets first = i.moveTargets second := by
  simp [moveTargets, Operand.moveTargets_congr same]

theorem moveTargets_id : i.moveTargets id = i := by
  simp [moveTargets, Operand.moveTargets_id]

/-- An instruction that names no places stays as it is, and so does one whose
targets the move leaves alone. -/
theorem moveTargets_of_targets {i : Instruction} (move : Place → Place)
    (still : ∀ place ∈ i.targets, move place = place) : i.moveTargets move = i :=
  (moveTargets_congr still).trans i.moveTargets_id

/-- What an instruction calls does not hang on where branches go: it has one
operand only, and that is a method. -/
@[simp] theorem method?_moveTargets (move : Place → Place) :
    (i.moveTargets move).method? = i.method? := by
  obtain ⟨opcode, operand⟩ := i
  cases operand <;> rfl

/-- Whether an instruction calls a marker does not hang on where branches go. So
a pass meets the same calls after earlier rules have moved references. -/
@[simp] theorem marker?_moveTargets (space : String) (move : Place → Place) :
    (i.moveTargets move).marker? space = i.marker? space := by
  simp [marker?, calledMethod?]

end Instruction

namespace Line

variable (line : Line)

@[simp] theorem place_moveTargets (move : Place → Place) :
    (line.moveTargets move).place = line.place := rfl

@[simp] theorem instruction_moveTargets (move : Place → Place) :
    (line.moveTargets move).instruction = line.instruction.moveTargets move := rfl

theorem moveTargets_moveTargets (first second : Place → Place) :
    (line.moveTargets first).moveTargets second = line.moveTargets (second ∘ first) := by
  simp [moveTargets, Instruction.moveTargets_moveTargets]

theorem moveTargets_congr {line : Line} {first second : Place → Place}
    (same : ∀ place ∈ line.instruction.targets, first place = second place) :
    line.moveTargets first = line.moveTargets second := by
  simp [moveTargets, Instruction.moveTargets_congr same]

theorem moveTargets_id : line.moveTargets id = line := by
  simp [moveTargets, Instruction.moveTargets_id]

end Line

namespace Clause

/-- Retargeting a clause moves its starts and its ends, each by the move of its
kind. -/
theorem retarget_eq_moveBorders (old start : Place) (stop : Option Place) (c : Clause) :
    c.retarget old start stop = c.moveBorders (single old start) (singleEnd old stop) := by
  have ends (border : Option Place) : (if border = some old then stop else border) =
      border.bind (singleEnd old stop) := by
    cases border <;> simp [singleEnd]
  simp only [retarget, moveBorders, ends]
  rfl

/-- Moves of clauses compose. An end that one move has sent to the end of the
body stays there, so the moves of ends are composed as partial functions. -/
theorem moveBorders_moveBorders (start again : Place → Place) (stop later : Place → Option Place)
    (c : Clause) : (c.moveBorders start stop).moveBorders again later =
      c.moveBorders (again ∘ start) (fun place => (stop place).bind later) := by
  simp [moveBorders, Option.bind_assoc]

/-- Moves matter only at the borders: those of starts at the starts, those of
ends at the ends. Other places may be moved in any way. -/
theorem moveBorders_congr {c : Clause} {start again : Place → Place}
    {stop later : Place → Option Place} (starts : ∀ place ∈ c.starts, start place = again place)
    (stops : ∀ place ∈ c.ends, stop place = later place) :
    c.moveBorders start stop = c.moveBorders again later := by
  obtain ⟨flags, tryStart, tryEnd, filterStart, handlerStart, handlerEnd, catchType⟩ := c
  simp only [Clause.starts, Clause.ends, List.mem_cons, List.mem_append,
    Option.mem_toList] at starts stops
  have tries : tryEnd.bind stop = tryEnd.bind later := by
    cases tryEnd with
    | none => rfl
    | some place => exact stops place (by simp)
  have filters : filterStart.map start = filterStart.map again := by
    cases filterStart with
    | none => rfl
    | some place => exact congrArg some (starts place (by simp))
  have handlers : handlerEnd.bind stop = handlerEnd.bind later := by
    cases handlerEnd with
    | none => rfl
    | some place => exact stops place (by simp)
  simp only [moveBorders, tries, filters, handlers, starts tryStart (by simp),
    starts handlerStart (by simp)]

theorem mem_borders {c : Clause} {place : Place} :
    place ∈ c.borders ↔ place ∈ c.starts ∨ place ∈ c.ends := by
  simp only [borders, starts, ends, List.mem_cons, List.mem_append, Option.mem_toList]
  tauto

/-- A start of a region is named where it was moved. A start is never lost, since
every place has an heir. -/
theorem mem_borders_of_starts {c : Clause} {start : Place → Place}
    {stop : Place → Option Place} {place : Place} (member : place ∈ c.starts) :
    start place ∈ (c.moveBorders start stop).borders := by
  refine mem_borders.2 (.inl ?_)
  simp only [starts, List.mem_cons, Option.mem_toList] at member
  rcases member with rfl | rfl | member <;> simp [starts, moveBorders, *]

/-- The end of a region is named where it was moved, unless it has come to be the
end of the body, which no border names. -/
theorem mem_borders_of_ends {c : Clause} {start : Place → Place}
    {stop : Place → Option Place} {place moved : Place} (member : place ∈ c.ends)
    (moves : stop place = some moved) : moved ∈ (c.moveBorders start stop).borders := by
  refine mem_borders.2 (.inr ?_)
  simp only [ends, moveBorders, List.mem_append, Option.mem_toList,
    Option.bind_eq_some_iff] at member ⊢
  exact member.imp (fun held => ⟨place, held, moves⟩) fun held => ⟨place, held, moves⟩

/-- A border that was moved comes from one of the borders before: no move brings
in a border of its own. -/
theorem mem_borders_moveBorders {c : Clause} {start : Place → Place}
    {stop : Place → Option Place} {place : Place}
    (member : place ∈ (c.moveBorders start stop).borders) :
    ∃ border ∈ c.borders, place = start border ∨ stop border = some place := by
  simp only [borders, moveBorders, List.mem_cons, List.mem_append, Option.mem_toList,
    Option.bind_eq_some_iff, Option.map_eq_some_iff] at member ⊢
  rcases member with rfl | (⟨border, held, ends⟩ | ⟨border, held, rfl⟩) | rfl | ⟨border, held, ends⟩
  · exact ⟨c.tryStart, .inl rfl, .inl rfl⟩
  · exact ⟨border, .inr (.inl (.inl held)), .inr ends⟩
  · exact ⟨border, .inr (.inl (.inr held)), .inl rfl⟩
  · exact ⟨c.handlerStart, .inr (.inr (.inl rfl)), .inl rfl⟩
  · exact ⟨border, .inr (.inr (.inr held)), .inr ends⟩

theorem moveBorders_id (c : Clause) : c.moveBorders id some = c := by
  simp [moveBorders]

end Clause

end InlineCil
