import InlineCil.Assembly
import InlineCil.Proofs.Liveness
import InlineCil.Proofs.Outcome
import Mathlib.Data.List.Induction

/-!
# Assembling with labels

What a body under construction becomes is read off the calls that were made on
it. A label stands for the number of instructions added before the first call
that defines it, whether it is used before or after that call. Finishing succeeds
if every label in use is defined and those that have to stand before an
instruction do; every label then becomes the place of that instruction.

The specification is a set of questions about the list of calls: which
instructions it adds (`emitted`), where a label stands (`StandsAt`), which range
waits for the next instruction (`Awaits`) and which point sits on an instruction
(`SitsAt`). Each has a lemma for one more call at the end. `Records` says that a
state answers them, so that it is kept by every call, and `Assembled` and
`Resolvable` are stated by the calls alone.

Calls that are refused change nothing, so they add nothing to any of the answers.
A label that is defined twice stays where it was, and a range that is put on the
next instruction replaces the one that was waiting.
-/

namespace InlineCil

namespace Code

/-- Numbering the elements of a list numbers them from the first to the last. -/
theorem numbers_zipIdx {α : Type} (list : List α) :
    list.zipIdx.map (fun (_, n) => Place.mk n) = handedOut list.length := by
  rw [handedOut, List.range_eq_range', ← List.zipIdx_map_snd, List.map_map]
  rfl

/-- The code with some instructions, each at its own number. -/
def ofList (instructions : List Instruction) : Code where
  linked := instructions.zipIdx.map fun (i, n) => ⟨⟨n⟩, i⟩
  detached := []
  next := instructions.length
  accounted := by
    rw [List.append_nil, List.map_map, ← numbers_zipIdx]
    exact .refl _

theorem ofList_nil : ({} : Code) = ofList [] := rfl

/-- Code is told by its lines and the next place; that places are accounted for
is a proof. -/
theorem eq_of_fields {c d : Code} (linked : c.linked = d.linked)
    (detached : c.detached = d.detached) (next : c.next = d.next) : c = d := by
  cases c
  cases d
  cases linked
  cases detached
  cases next
  rfl

theorem instructions_ofList (instructions : List Instruction) :
    (ofList instructions).linked.map Line.instruction = instructions := by
  simp [ofList, Function.comp_def]

theorem places_ofList (instructions : List Instruction) :
    (ofList instructions).places = handedOut instructions.length := by
  rw [places, ofList, List.map_map, ← numbers_zipIdx]
  rfl

end Code

/-- Appending to code that only grew is growing further, and hands out the number
of instructions so far. In such code the places are the positions, which is what
makes labels and places agree. -/
theorem Body.push_ofList {b : Body} {instructions : List Instruction}
    (code : b.code = .ofList instructions) (i : Instruction) :
    b.push i = (⟨instructions.length⟩, { b with code := .ofList (instructions ++ [i]) }) := by
  have grown : ((Code.ofList instructions).create i).linkLast ⟨instructions.length⟩ =
      .ofList (instructions ++ [i]) := by
    refine Code.eq_of_fields ?_ ?_ ?_
    · simp [Code.linkLast, Code.create, Code.ofList, Line.isAt, List.zipIdx_append]
    · simp [Code.linkLast, Code.create, Code.ofList, Line.isAt]
    · simp [Code.linkLast, Code.create, Code.ofList]
  rw [push, create, code]
  dsimp only
  rw [← grown]
  rfl

/-- Appending several instructions is growing by all of them, by induction on
what is appended. -/
theorem Body.pushAll_ofList {b : Body} {instructions : List Instruction}
    (code : b.code = .ofList instructions) (added : List Instruction) :
    b.pushAll added = { b with code := .ofList (instructions ++ added) } := by
  unfold pushAll
  induction added generalizing b instructions with
  | nil => rw [List.append_nil, ← code, List.foldl_nil]
  | cons i rest ih =>
    rw [List.foldl_cons, push_ofList code, ih rfl, List.append_assoc, List.singleton_append]

/-- The labels of an operand. -/
def LabelledOperand.labels : LabelledOperand → List String
  | .plain _ => []
  | .branch label => [label]
  | .table labels => labels

/-- The labels of a clause that have to stand before an instruction. -/
def LabelledClause.starts (c : LabelledClause) : List String :=
  c.tryStart :: (c.filterStart.toList ++ [c.handlerStart])

/-- The labels of a clause that may also stand at the end of the body. -/
def LabelledClause.stops (c : LabelledClause) : List String := [c.tryEnd, c.handlerEnd]

/-- The range as a debug point at a place. -/
def SourceRange.pointAt (range : SourceRange) (place : Place) : DebugPoint :=
  ⟨place, range.document, range.start, range.stop⟩

namespace Assembly

/-- The instruction that a call adds, unless the call is refused. -/
def Call.added? : Call → Option (Opcode × LabelledOperand)
  | .emit opcode operand => if operand.fits opcode.kind then some (opcode, .plain operand) else none
  | .branch opcode label => if opcode.kind.isTarget then some (opcode, .branch label) else none
  | .switch labels => some (.switch, .table labels)
  | _ => none

/-- The clause that a call adds. -/
def Call.clause? : Call → Option LabelledClause
  | .guarded clause => some clause
  | _ => none

/-- The local variable that a call adds. -/
def Call.local? : Call → Option Local
  | .declare added => some added
  | _ => none

/-- The label that a call defines, unless it is refused. -/
def Call.label? : Call → Option String
  | .define label => some label
  | _ => none

/-- The range that a call puts on the next instruction. -/
def Call.range? : Call → Option SourceRange
  | .mark range => some range
  | _ => none

variable {calls : List Call} {call : Call} {a : Assembly} {label : String} {position : Nat}
  {place : Place} {range : SourceRange} {p : DebugPoint} {failure : Failure}

/-- The instructions that calls add. -/
def emitted (calls : List Call) : List (Opcode × LabelledOperand) := calls.filterMap Call.added?

/-- The clauses that calls add. -/
def guards (calls : List Call) : List LabelledClause := calls.filterMap Call.clause?

/-- The labels in use that have to stand before an instruction: those of branches
and tables and those that start a region. -/
def starts (calls : List Call) : List String :=
  (emitted calls).flatMap (·.2.labels) ++ (guards calls).flatMap LabelledClause.starts

/-- The labels in use that may also stand at the end. -/
def stops (calls : List Call) : List String := (guards calls).flatMap LabelledClause.stops

/-- The label is first defined when so many instructions have been added. -/
def StandsAt (calls : List Call) (label : String) (position : Nat) : Prop :=
  ∃ before after, calls = before ++ .define label :: after ∧ .define label ∉ before ∧
    (emitted before).length = position

/-- The range was put on the next instruction, which has not been added yet. -/
def Awaits (calls : List Call) (range : SourceRange) : Prop :=
  ∃ before after, calls = before ++ .mark range :: after ∧
    ∀ call ∈ after, call.added? = none ∧ call.range? = none

/-- The point is that of a range with the next instruction added after it. -/
def SitsAt (calls : List Call) (p : DebugPoint) : Prop :=
  ∃ before call after range, calls = before ++ call :: after ∧ call.added?.isSome = true ∧
    Awaits before range ∧ p = range.pointAt ⟨(emitted before).length⟩

/-- A split of a list with one more element is at that element or before it. The
records of the calls made so far grow at the end, so each of them is told for one
more call by this lemma. -/
theorem concat_eq_split {α : Type} {list before after : List α} {last middle : α} :
    list ++ [last] = before ++ middle :: after ↔
      (list = before ∧ last = middle ∧ after = []) ∨
        ∃ rest, after = rest ++ [last] ∧ list = before ++ middle :: rest := by
  constructor
  · intro same
    rcases List.eq_nil_or_concat after with rfl | ⟨rest, other, rfl⟩
    · obtain ⟨rfl, rfl⟩ := List.append_singleton_inj.1 same
      exact .inl ⟨rfl, rfl, rfl⟩
    · rw [List.concat_eq_append, ← List.cons_append, ← List.append_assoc] at same
      obtain ⟨rfl, rfl⟩ := List.append_singleton_inj.1 same
      exact .inr ⟨rest, List.concat_eq_append, rfl⟩
  · rintro (⟨rfl, rfl, rfl⟩ | ⟨rest, rfl, rfl⟩)
    · rfl
    · simp

/-- One more call adds its instruction, if it has one, at the end. -/
theorem emitted_concat : emitted (calls ++ [call]) = emitted calls ++ call.added?.toList := by
  rw [emitted, List.filterMap_append]
  cases added : call.added? <;> simp [emitted, added]

theorem guards_concat : guards (calls ++ [call]) = guards calls ++ call.clause?.toList := by
  rw [guards, List.filterMap_append]
  cases call <;> rfl

/-- A label is defined exactly if it stands somewhere, for then some call is the
first that defines it. -/
theorem exists_standsAt : (∃ position, StandsAt calls label position) ↔ .define label ∈ calls := by
  constructor
  · rintro ⟨position, before, after, rfl, -, -⟩
    simp
  · intro defined
    obtain ⟨before, after, split, first⟩ := List.eq_append_cons_of_mem defined
    exact ⟨_, before, after, split, first, rfl⟩

/-- No label stands beyond the end: the instructions before its definition are
among all of them. -/
theorem StandsAt.le (stands : StandsAt calls label position) :
    position ≤ (emitted calls).length := by
  obtain ⟨before, after, rfl, -, rfl⟩ := stands
  simp [emitted]

/-- One more call defines the label only if no call has done so. Where it stands
is then the number of instructions added before that call. -/
theorem standsAt_concat :
    StandsAt (calls ++ [call]) label position ↔ StandsAt calls label position ∨
      (call = .define label ∧ .define label ∉ calls ∧ (emitted calls).length = position) := by
  constructor
  · rintro ⟨before, after, split, first, here⟩
    rcases concat_eq_split.1 split with ⟨rfl, rfl, rfl⟩ | ⟨rest, rfl, rfl⟩
    · exact .inr ⟨rfl, first, here⟩
    · exact .inl ⟨before, rest, rfl, first, here⟩
  · rintro (⟨before, after, rfl, first, here⟩ | ⟨rfl, first, here⟩)
    · exact ⟨before, after ++ [call], by simp, first, here⟩
    · exact ⟨calls, [], rfl, first, here⟩

/-- One more call replaces the range that was waiting, or leaves it waiting. It
is left waiting by a call that adds no instruction and brings no range, which
includes every refused one. -/
theorem awaits_concat :
    Awaits (calls ++ [call]) range ↔ call = .mark range ∨
      (call.added? = none ∧ call.range? = none ∧ Awaits calls range) := by
  constructor
  · rintro ⟨before, after, split, quiet⟩
    rcases concat_eq_split.1 split with ⟨rfl, rfl, rfl⟩ | ⟨rest, rfl, rfl⟩
    · exact .inl rfl
    · obtain ⟨earlier, last⟩ := List.forall_mem_append.1 quiet
      obtain ⟨nothing, unmarked⟩ := last call (List.mem_singleton_self call)
      exact .inr ⟨nothing, unmarked, before, rest, rfl, earlier⟩
  · rintro (rfl | ⟨nothing, unmarked, before, after, rfl, quiet⟩)
    · exact ⟨calls, [], rfl, by simp⟩
    · refine ⟨before, after ++ [call], by simp, List.forall_mem_append.2 ⟨quiet, ?_⟩⟩
      simpa using ⟨nothing, unmarked⟩

/-- One more instruction takes the range that was waiting. Points that sit on
earlier instructions stay, since a range is taken only once. -/
theorem sitsAt_concat :
    SitsAt (calls ++ [call]) p ↔ SitsAt calls p ∨ (call.added?.isSome = true ∧
      ∃ range, Awaits calls range ∧ p = range.pointAt ⟨(emitted calls).length⟩) := by
  constructor
  · rintro ⟨before, other, after, range, split, adds, waiting, rfl⟩
    rcases concat_eq_split.1 split with ⟨rfl, rfl, rfl⟩ | ⟨rest, rfl, rfl⟩
    · exact .inr ⟨adds, range, waiting, rfl⟩
    · exact .inl ⟨before, other, rest, range, rfl, adds, waiting, rfl⟩
  · rintro (⟨before, other, after, range, rfl, adds, waiting, rfl⟩ | ⟨adds, range, waiting, rfl⟩)
    · exact ⟨before, other, after ++ [call], range, by simp, adds, waiting, rfl⟩
    · exact ⟨calls, call, [], range, rfl, adds, waiting, rfl⟩

theorem SitsAt.lt (sits : SitsAt calls p) : p.place.index < (emitted calls).length := by
  obtain ⟨before, call, after, range, rfl, adds, -, rfl⟩ := sits
  obtain ⟨line, added⟩ := Option.isSome_iff_exists.1 adds
  simp [emitted, added, SourceRange.pointAt]

/-- An instruction is added if its operand is of the kind that the opcode takes.
Otherwise the call is refused and nothing changes. -/
theorem apply_emit (a : Assembly) (opcode : Opcode) (operand : Operand) :
    a.apply (.emit opcode operand) =
      if operand.fits opcode.kind then
        (.ok (.placed ⟨a.lines.length⟩), (a.add opcode (.plain operand)).2)
      else (.error (.ofCause (.operandKind opcode)), a) := by
  by_cases fits : operand.fits opcode.kind = true
  · simp [apply, emit, Instruction.checked, Instruction.checked?, fits, bind, Except.bind, pure,
      Except.pure, placing, add]
  · simp [apply, emit, Instruction.checked, Instruction.checked?, fits, bind, Except.bind, placing]

/-- A branch is added if the opcode takes a target. The label need not be defined
yet. -/
theorem apply_branch (a : Assembly) (opcode : Opcode) (label : String) :
    a.apply (.branch opcode label) =
      if opcode.kind.isTarget then
        (.ok (.placed ⟨a.lines.length⟩), (a.add opcode (.branch label)).2)
      else (.error (.ofCause (.notBranch opcode)), a) := by
  by_cases isTarget : opcode.kind.isTarget = true
  · simp [apply, branch, isTarget, placing, add]
  · simp [apply, branch, isTarget, placing]

/-- A label is defined once; a second definition is refused and the first one
stays. -/
theorem apply_define (a : Assembly) (label : String) :
    a.apply (.define label) =
      if (a.labels.lookup label).isSome then (.error (.ofCause (.labelRepeated label)), a)
      else (.ok .done, { a with labels := a.labels ++ [(label, a.lines.length)] }) := by
  by_cases taken : (a.labels.lookup label).isSome = true
  · simp [apply, define, taken, settling]
  · simp [apply, define, taken, settling]

/-- What a call leaves behind, told by what the call adds: an instruction takes
the range that is waiting, and a label that is defined already stays where it is.
All lemmas on calls below follow from it. -/
theorem apply_eq (a : Assembly) (call : Call) : (a.apply call).2 =
    { lines := a.lines ++
        (call.added?.map fun (opcode, operand) => ⟨opcode, operand, a.pending⟩).toList
      labels := a.labels ++
        ((call.label?.filter fun label => (a.labels.lookup label).isNone).map
          (·, a.lines.length)).toList
      clauses := a.clauses ++ call.clause?.toList
      locals := a.locals ++ call.local?.toList
      pending := if call.added?.isSome then none else call.range?.or a.pending } := by
  cases call <;>
    dsimp only [Call.added?, Call.label?, Call.clause?, Call.local?, Call.range?]
  case emit opcode operand =>
    rw [apply_emit]
    by_cases fits : operand.fits opcode.kind = true
    · simp [fits, add]
    · simp [fits]
  case branch opcode label =>
    rw [apply_branch]
    by_cases isTarget : opcode.kind.isTarget = true
    · simp [isTarget, add]
    · simp [isTarget]
  case switch labels => simp [apply, placing, switch, add]
  case define label =>
    rw [apply_define]
    cases found : a.labels.lookup label with
    | none => simp [Option.filter_some, found]
    | some position => simp [Option.filter_some, found]
  case declare added => simp [apply, declare]
  case mark range => simp [apply, mark, settling]
  case guarded clause => simp [apply, guarded, settling]

/-- A call hands out a place exactly if it adds an instruction, and the place is
the number of instructions before it. -/
theorem place?_apply (a : Assembly) (call : Call) :
    Reply.place? (a.apply call).1 = call.added?.map fun _ => ⟨a.lines.length⟩ := by
  cases call with
  | emit opcode operand =>
    rw [apply_emit, Call.added?]
    by_cases fits : operand.fits opcode.kind = true
    · simp [fits, Reply.place?]
    · simp [fits, Reply.place?]
  | branch opcode label =>
    rw [apply_branch, Call.added?]
    by_cases isTarget : opcode.kind.isTarget = true
    · simp [isTarget, Reply.place?]
    · simp [isTarget, Reply.place?]
  | define label =>
    rw [apply_define]
    cases a.labels.lookup label <;> rfl
  | switch _ | declare _ | mark _ | guarded _ => rfl

/-- The points of the lines with one more line: the range of the new line becomes
a point at its number. -/
theorem points_concat (a : Assembly) (line : LabelledLine) :
    points { a with lines := a.lines ++ [line] } =
      a.points ++ (line.range.map (·.pointAt ⟨a.lines.length⟩)).toList := by
  rw [points, List.zipIdx_append, List.filterMap_append]
  cases range : line.range <;> simp [range, points, SourceRange.pointAt]

/-- What is known of a body under construction after some calls. -/
structure Records (calls : List Call) (a : Assembly) : Prop where
  lines : a.lines.map (fun line => (line.opcode, line.operand)) = emitted calls
  labels : ∀ label position, a.labels.lookup label = some position ↔
    StandsAt calls label position
  clauses : a.clauses = guards calls
  locals : a.locals = calls.filterMap Call.local?
  pending : ∀ range, a.pending = some range ↔ Awaits calls range
  points : ∀ p, p ∈ a.points ↔ SitsAt calls p
  ascending : a.points.Pairwise (·.place.index < ·.place.index)

theorem Records.length (records : Records calls a) :
    a.lines.length = (emitted calls).length := by
  rw [← records.lines, List.length_map]

/-- Before any call there is nothing to record. -/
theorem Records.start : Records [] {} where
  lines := rfl
  labels label position := by simp [StandsAt]
  clauses := rfl
  locals := rfl
  pending range := by simp [Awaits]
  points p := by simp [SitsAt, Assembly.points]
  ascending := List.Pairwise.nil

theorem Records.undefined (records : Records calls a) :
    a.labels.lookup label = none ↔ .define label ∉ calls := by
  rw [← exists_standsAt, Option.eq_none_iff_forall_ne_some, not_exists]
  exact forall_congr' fun position => not_congr (records.labels label position)

/-- A label that was defined stays where it is, and one that was not comes to the
end. Defining a label again is refused, so what the table says of a label is
decided by the first call. -/
theorem Records.labels_step (records : Records calls a) (call : Call) (label : String)
    (position : Nat) : (a.apply call).2.labels.lookup label = some position ↔
      StandsAt (calls ++ [call]) label position := by
  rw [apply_eq, standsAt_concat, ← records.labels, ← records.undefined, ← records.length]
  dsimp only
  rw [List.lookup_append]
  cases found : a.labels.lookup label with
  | some other => simp
  | none =>
    cases call with
    | define other =>
      by_cases same : label = other
      · subst same
        simp [Call.label?, found, Option.filter_some]
      · cases taken : a.labels.lookup other with
        | none =>
          simp [Call.label?, Option.filter_some, taken, Steps.lookup_cons, same, Ne.symm same]
        | some _ => simp [Call.label?, Option.filter_some, taken, Ne.symm same]
    | _ => simp [Call.label?]

/-- A call puts a range on the next instruction, takes it with the instruction,
or leaves it. A refused call takes nothing: the range goes on waiting for an
instruction that is accepted. -/
theorem Records.pending_step (records : Records calls a) (call : Call) (range : SourceRange) :
    (a.apply call).2.pending = some range ↔ Awaits (calls ++ [call]) range := by
  rw [apply_eq, awaits_concat, ← records.pending]
  cases call with
  | emit opcode operand =>
    by_cases fits : operand.fits opcode.kind = true
    · simp [Call.added?, Call.range?, fits]
    · simp [Call.added?, Call.range?, fits]
  | branch opcode label =>
    by_cases isTarget : opcode.kind.isTarget = true
    · simp [Call.added?, Call.range?, isTarget]
    · simp [Call.added?, Call.range?, isTarget]
  | _ => simp [Call.added?, Call.range?]

theorem points_apply (a : Assembly) (call : Call) : (a.apply call).2.points = a.points ++
    (call.added?.bind fun _ => a.pending.map (·.pointAt ⟨a.lines.length⟩)).toList := by
  rw [apply_eq]
  cases call.added? with
  | none => simp [points]
  | some line => exact points_concat a _

/-- Points sit where they did, and a new one sits on the instruction that is
added; so they stay in ascending order. -/
theorem Records.points_step (records : Records calls a) (call : Call) :
    (∀ p, p ∈ (a.apply call).2.points ↔ SitsAt (calls ++ [call]) p) ∧
      (a.apply call).2.points.Pairwise (·.place.index < ·.place.index) := by
  rw [points_apply]
  constructor
  · intro p
    rw [sitsAt_concat, List.mem_append, records.points, ← records.length]
    refine or_congr_right ?_
    simp only [← records.pending]
    cases call.added? with
    | none => simp
    | some line =>
      simp only [Option.bind_some, Option.mem_toList, Option.map_eq_some_iff, Option.isSome_some,
        true_and]
      exact exists_congr fun range => and_congr_right fun _ => eq_comm
  · rw [List.pairwise_append]
    refine ⟨records.ascending, ?_, ?_⟩
    · cases call.added?.bind _ with
      | none => exact .nil
      | some point => exact List.pairwise_singleton _ _
    · intro earlier among point new
      have before := ((records.points earlier).1 among).lt
      simp only [Option.mem_toList, Option.bind_eq_some_iff, Option.map_eq_some_iff] at new
      obtain ⟨-, -, range, -, rfl⟩ := new
      exact before.trans_eq records.length.symm

/-- Each call is recorded. The fields are kept one by one, by the lemmas on what
one more call means. The list of calls grows at its end, where the call was made
last. -/
theorem Records.step (records : Records calls a) (call : Call) :
    Records (calls ++ [call]) (a.apply call).2 where
  lines := by
    rw [apply_eq, emitted_concat, ← records.lines]
    cases call.added? <;> simp
  labels := records.labels_step call
  clauses := by rw [apply_eq, guards_concat, ← records.clauses]
  locals := by
    rw [apply_eq, List.filterMap_append, ← records.locals]
    cases call <;> rfl
  pending := records.pending_step call
  points := (records.points_step call).1
  ascending := (records.points_step call).2

theorem Call.runWith_concat {σ : Type} (apply : σ → Call → Except Failure Reply × σ) (state : σ)
    (calls : List Call) (call : Call) :
    Call.runWith apply state (calls ++ [call]) =
      ((Call.runWith apply state calls).1 ++
          [(apply (Call.runWith apply state calls).2 call).1],
        (apply (Call.runWith apply state calls).2 call).2) := by
  induction calls generalizing state with
  | nil => rfl
  | cons first calls ih => simp only [List.cons_append, Call.runWith, ih]

/-- All calls are recorded, by induction from the last one. -/
theorem records_run (calls : List Call) : Records calls (run {} calls).2 := by
  induction calls using List.reverseRecOn with
  | nil => exact .start
  | append_singleton calls call ih =>
    rw [run, Call.runWith_concat]
    exact ih.step call

/-- Places are handed out in the order of the instructions, from zero on, and no
refused call uses one up. So a place tells how many instructions there were
before. -/
theorem places_run (calls : List Call) :
    (run {} calls).1.filterMap Reply.place? = handedOut (emitted calls).length := by
  induction calls using List.reverseRecOn with
  | nil => rfl
  | append_singleton calls call ih =>
    have length := (records_run calls).length
    rw [run] at ih length ⊢
    rw [Call.runWith_concat, List.filterMap_append, ih, emitted_concat]
    rw [List.filterMap_cons, place?_apply, length]
    cases call.added? with
    | none => simp
    | some line => simp [handedOut, List.range_succ]

/-- The place is that of the instruction added right after the label was defined. -/
def Names (calls : List Call) (label : String) (place : Place) : Prop :=
  StandsAt calls label place.index ∧ place.index < (emitted calls).length

/-- What a label that ends a region becomes: the place of the instruction after
it, and nothing at the end of the body. -/
inductive Ends (calls : List Call) (label : String) : Option Place → Prop where
  | before (place : Place) (named : Names calls label place) : Ends calls label (some place)
  | atEnd (stands : StandsAt calls label (emitted calls).length) : Ends calls label none

/-- What the labels of an operand become. -/
inductive Resolves (calls : List Call) : LabelledOperand → Operand → Prop where
  | plain (operand : Operand) : Resolves calls (.plain operand) operand
  | branch (label : String) (place : Place) (named : Names calls label place) :
      Resolves calls (.branch label) (.target place)
  | table (labels : List String) (places : List Place)
      (named : List.Forall₂ (Names calls) labels places) :
      Resolves calls (.table labels) (.switch places)

/-- What the labels of a clause become. -/
structure Borders (calls : List Call) (c : LabelledClause) (made : Clause) : Prop where
  flags : made.flags = c.flags
  tryStart : Names calls c.tryStart made.tryStart
  tryEnd : Ends calls c.tryEnd made.tryEnd
  filterStart : Option.Rel (Names calls) c.filterStart made.filterStart
  handlerStart : Names calls c.handlerStart made.handlerStart
  handlerEnd : Ends calls c.handlerEnd made.handlerEnd
  catchType : made.catchType = c.catchType

/-- The body that calls describe: their instructions in order, at the places that
were handed out for them, every label turned into a place, and every point on the
instruction that came next. -/
structure Assembled (calls : List Call) (b : Body) : Prop where
  instructions : List.Forall₂
    (fun asked (i : Instruction) => i.opcode = asked.1 ∧ Resolves calls asked.2 i.operand)
    (emitted calls) (b.code.linked.map Line.instruction)
  places : b.code.places = handedOut (emitted calls).length
  clauses : List.Forall₂ (Borders calls) (guards calls) b.clauses
  locals : b.locals = calls.filterMap Call.local?
  initLocals : b.initLocals = true
  points : ∀ p, p ∈ b.points ↔ SitsAt calls p
  ascending : b.points.Pairwise (·.place.index < ·.place.index)

/-- Every label in use is defined, and those that have to stand before an
instruction do. -/
structure Resolvable (calls : List Call) : Prop where
  defined : ∀ label ∈ starts calls ++ stops calls, .define label ∈ calls
  inside : ∀ label ∈ starts calls, ¬StandsAt calls label (emitted calls).length

/-- Why labels cannot be resolved. -/
inductive Unresolved (calls : List Call) : Failure → Prop where
  | undefined (label : String) (used : label ∈ starts calls ++ stops calls)
      (missing : .define label ∉ calls) : Unresolved calls (.ofCause (.labelUndefined label))
  | atEnd (label : String) (used : label ∈ starts calls)
      (stands : StandsAt calls label (emitted calls).length) :
      Unresolved calls (.ofCause (.labelAtEnd label))

/-- A reason why labels cannot be resolved excludes that they can. -/
theorem Unresolved.not_resolvable (unresolved : Unresolved calls failure) :
    ¬Resolvable calls := by
  intro resolvable
  cases unresolved with
  | undefined label used missing => exact missing (resolvable.defined label used)
  | atEnd label used stands => exact resolvable.inside label used stands

section Labels

variable (records : Records calls a)
include records

/-- A label that ends a region is resolved to the place of the instruction after
it or to the end of the body. It has to be defined, which is the only reason for
failing. -/
theorem border_eq_ok_iff {found : Option Place} :
    a.border label = .ok found ↔ Ends calls label found := by
  rw [border]
  constructor
  · intro known
    split at known
    · simp at known
    · next position here =>
      obtain rfl := Except.ok.inj known
      have stands := (records.labels label position).1 here
      split
      · next inside => exact .before _ ⟨stands, records.length ▸ inside⟩
      · next outside =>
        have last : position = (emitted calls).length := by
          have bounded := stands.le
          have length := records.length
          omega
        exact .atEnd (last ▸ stands)
  · intro ends
    cases ends with
    | before place named =>
      rw [(records.labels label place.index).2 named.1]
      simp [records.length, named.2]
    | atEnd stands =>
      rw [(records.labels label _).2 stands]
      simp [records.length]

/-- A label that ends a region cannot be resolved only if it is not defined. -/
theorem border_eq_error_iff :
    a.border label = .error failure ↔
      .define label ∉ calls ∧ failure = .ofCause (.labelUndefined label) := by
  rw [border, ← records.undefined]
  cases a.labels.lookup label with
  | none => simp [eq_comm]
  | some position => simp

/-- A label that has to stand before an instruction is resolved to the place of
that instruction. A label at the end of the body is a border but not a target. -/
theorem target_eq_ok_iff : a.target label = .ok place ↔ Names calls label place := by
  rw [target, Steps.bind_eq_ok_iff]
  constructor
  · rintro ⟨found, known, here⟩
    cases (border_eq_ok_iff records).1 known with
    | before other named =>
      obtain rfl := Except.ok.inj here
      exact named
    | atEnd stands => contradiction
  · intro named
    exact ⟨some place, (border_eq_ok_iff records).2 (.before place named), rfl⟩

/-- It cannot be resolved if it is not defined or stands at the end. The first is
the failure of a border as well, the second only that of a target. -/
theorem target_eq_error (failed : a.target label = .error failure) :
    a.border label = .error failure ∨
      (StandsAt calls label (emitted calls).length ∧ failure = .ofCause (.labelAtEnd label)) := by
  rw [target, Steps.bind_eq_error_iff] at failed
  rcases failed with failed | ⟨found, known, refused⟩
  · exact .inl failed
  · cases (border_eq_ok_iff records).1 known with
    | before place named => contradiction
    | atEnd stands => exact .inr ⟨stands, (Except.error.inj refused).symm⟩

/-- A label that has to stand before an instruction and does not is a reason. -/
theorem unresolved_of_target (used : label ∈ starts calls)
    (failed : a.target label = .error failure) : Unresolved calls failure := by
  rcases target_eq_error records failed with unknown | ⟨stands, rfl⟩
  · obtain ⟨missing, rfl⟩ := (border_eq_error_iff records).1 unknown
    exact .undefined label (List.mem_append_left _ used) missing
  · exact .atEnd label used stands

/-- A label that ends a region and is not defined is a reason. -/
theorem unresolved_of_border (used : label ∈ stops calls)
    (failed : a.border label = .error failure) : Unresolved calls failure := by
  obtain ⟨missing, rfl⟩ := (border_eq_error_iff records).1 failed
  exact .undefined label (List.mem_append_right _ used) missing

/-- The labels of an operand become places, in their order. An operand without
labels is kept as it is. Proof: by the three forms of an operand. -/
theorem resolves_of_operand {asked : LabelledOperand} {made : Operand}
    (found : a.operand asked = .ok made) : Resolves calls asked made := by
  cases asked with
  | plain operand =>
    obtain rfl := Except.ok.inj found
    exact .plain operand
  | branch label =>
    obtain ⟨place, known, here⟩ := Steps.bind_eq_ok_iff.1 found
    obtain rfl := Except.ok.inj here
    exact .branch label place ((target_eq_ok_iff records).1 known)
  | table labels =>
    obtain ⟨places, known, here⟩ := Steps.bind_eq_ok_iff.1 found
    obtain rfl := Except.ok.inj here
    refine .table labels places ((Steps.mapM_eq_ok_iff.1 known).imp fun label place known => ?_)
    exact (target_eq_ok_iff records).1 known

omit records in
/-- An operand that does not become anything has a label that is the reason, and
the failure is the one of that label. Of several such labels in a table it is the
first. -/
theorem exists_of_operand {asked : LabelledOperand} (failed : a.operand asked = .error failure) :
    ∃ label ∈ asked.labels, a.target label = .error failure := by
  cases asked with
  | plain operand => contradiction
  | branch label =>
    rcases Steps.bind_eq_error_iff.1 failed with failed | ⟨place, -, refused⟩
    · exact ⟨label, List.mem_singleton_self label, failed⟩
    · contradiction
  | table labels =>
    rcases Steps.bind_eq_error_iff.1 failed with failed | ⟨places, -, refused⟩
    · obtain ⟨before, label, after, split, -, failed⟩ := Steps.mapM_eq_error_iff.1 failed
      exact ⟨label, by simp [LabelledOperand.labels, split], failed⟩
    · contradiction

/-- The labels of a clause become borders: those of starts become places, and
those of ends places or the end of the body. An absent filter stays absent.
Proof: the five steps of the translation, in order. -/
theorem borders_of_clause {c : LabelledClause} {made : Clause} (found : a.clause c = .ok made) :
    Borders calls c made := by
  rw [clause] at found
  obtain ⟨tryStart, startKnown, found⟩ := Steps.bind_eq_ok_iff.1 found
  obtain ⟨tryEnd, endKnown, found⟩ := Steps.bind_eq_ok_iff.1 found
  obtain ⟨filterStart, filterKnown, found⟩ := Steps.bind_eq_ok_iff.1 found
  obtain ⟨handlerStart, handlerKnown, found⟩ := Steps.bind_eq_ok_iff.1 found
  obtain ⟨handlerEnd, lastKnown, found⟩ := Steps.bind_eq_ok_iff.1 found
  obtain rfl := Except.ok.inj found
  have filtered : Option.Rel (Names calls) c.filterStart filterStart := by
    cases filter : c.filterStart with
    | none =>
      rw [filter] at filterKnown
      obtain rfl := Except.ok.inj filterKnown
      exact .none
    | some label =>
      rw [filter] at filterKnown
      cases known : a.target label with
      | error failure => simp [known] at filterKnown
      | ok place =>
        obtain rfl : some place = filterStart := by simpa [known] using filterKnown
        exact .some ((target_eq_ok_iff records).1 known)
  exact {
    flags := rfl
    tryStart := (target_eq_ok_iff records).1 startKnown
    tryEnd := (border_eq_ok_iff records).1 endKnown
    filterStart := filtered
    handlerStart := (target_eq_ok_iff records).1 handlerKnown
    handlerEnd := (border_eq_ok_iff records).1 lastKnown
    catchType := rfl }

omit records in
/-- A clause that does not become anything has a label that is the reason: one at
the start of a region that is not before an instruction, or one at an end that is
not defined. -/
theorem exists_of_clause {c : LabelledClause} (failed : a.clause c = .error failure) :
    (∃ label ∈ c.starts, a.target label = .error failure) ∨
      ∃ label ∈ c.stops, a.border label = .error failure := by
  rw [clause] at failed
  rcases Steps.bind_eq_error_iff.1 failed with failed | ⟨tryStart, -, failed⟩
  · exact .inl ⟨c.tryStart, by simp [LabelledClause.starts], failed⟩
  rcases Steps.bind_eq_error_iff.1 failed with failed | ⟨tryEnd, -, failed⟩
  · exact .inr ⟨c.tryEnd, by simp [LabelledClause.stops], failed⟩
  rcases Steps.bind_eq_error_iff.1 failed with failed | ⟨filterStart, -, failed⟩
  · cases filter : c.filterStart with
    | none => simp [filter, pure, Except.pure] at failed
    | some label =>
      refine .inl ⟨label, by simp [LabelledClause.starts, filter], ?_⟩
      rw [filter] at failed
      cases known : a.target label with
      | error other => simpa [known] using failed
      | ok place => simp [known] at failed
  rcases Steps.bind_eq_error_iff.1 failed with failed | ⟨handlerStart, -, failed⟩
  · exact .inl ⟨c.handlerStart, by simp [LabelledClause.starts], failed⟩
  rcases Steps.bind_eq_error_iff.1 failed with failed | ⟨handlerEnd, -, refused⟩
  · exact .inr ⟨c.handlerEnd, by simp [LabelledClause.stops], failed⟩
  · contradiction

end Labels

/-- If finishing fails, a label in use is the reason: of an instruction or of a
clause. The failure is then one of the two that such a label can have, and no
other failure is possible. -/
theorem unresolved_of_finish (records : Records calls a) (failed : a.finish = .error failure) :
    Unresolved calls failure := by
  rw [finish] at failed
  rcases Steps.bind_eq_error_iff.1 failed with failed | ⟨instructions, -, failed⟩
  · obtain ⟨before, line, after, split, -, failed⟩ := Steps.mapM_eq_error_iff.1 failed
    rcases Steps.bind_eq_error_iff.1 failed with failed | ⟨operand, -, refused⟩
    · obtain ⟨label, among, failed⟩ := exists_of_operand failed
      refine unresolved_of_target records (List.mem_append_left _ ?_) failed
      rw [← records.lines, split]
      simpa using .inr (.inl among)
    · contradiction
  rcases Steps.bind_eq_error_iff.1 failed with failed | ⟨clauses, -, refused⟩
  · obtain ⟨before, c, after, split, -, failed⟩ := Steps.mapM_eq_error_iff.1 failed
    have asked : c ∈ guards calls := by simp [← records.clauses, split]
    rcases exists_of_clause failed with ⟨label, among, failed⟩ | ⟨label, among, failed⟩
    · exact unresolved_of_target records
        (List.mem_append_right _ (List.mem_flatMap.2 ⟨c, asked, among⟩)) failed
    · exact unresolved_of_border records (List.mem_flatMap.2 ⟨c, asked, among⟩) failed
  · contradiction

/-- If finishing succeeds, the body is the one that the calls describe. The
instructions stand at the places handed out for them, with every label replaced,
and the rest of the body is what was declared. -/
theorem assembled_of_finish (records : Records calls a) {b : Body} (found : a.finish = .ok b) :
    Assembled calls b := by
  rw [finish] at found
  obtain ⟨instructions, made, found⟩ := Steps.bind_eq_ok_iff.1 found
  obtain ⟨clauses, closed, found⟩ := Steps.bind_eq_ok_iff.1 found
  obtain rfl := Except.ok.inj found
  have made := Steps.mapM_eq_ok_iff.1 made
  have closed := Steps.mapM_eq_ok_iff.1 closed
  rw [Body.pushAll_ofList Code.ofList_nil, List.nil_append]
  exact {
    instructions := by
      rw [Code.instructions_ofList, ← records.lines, List.forall₂_map_left_iff]
      refine made.imp fun line i found => ?_
      obtain ⟨operand, known, here⟩ := Steps.bind_eq_ok_iff.1 found
      obtain rfl := Except.ok.inj here
      exact ⟨rfl, resolves_of_operand records known⟩
    places := by rw [Code.places_ofList, ← made.length_eq, records.length]
    clauses := by
      rw [← records.clauses]
      exact closed.imp fun c made found => borders_of_clause records found
    locals := records.locals
    initLocals := rfl
    points := records.points
    ascending := records.ascending }

theorem Names.defined (named : Names calls label place) : .define label ∈ calls :=
  exists_standsAt.1 ⟨_, named.1⟩

theorem StandsAt.unique {other : Nat} (stands : StandsAt calls label position)
    (again : StandsAt calls label other) : position = other := by
  have records := records_run calls
  have first := (records.labels label position).2 stands
  rw [(records.labels label other).2 again] at first
  exact (Option.some.inj first).symm

/-- A label that names an instruction does not stand at the end. -/
theorem Names.inside (named : Names calls label place) :
    ¬StandsAt calls label (emitted calls).length := by
  intro last
  have same := named.1.unique last
  have before := named.2
  omega

theorem Ends.defined {found : Option Place} (ends : Ends calls label found) :
    .define label ∈ calls := by
  cases ends with
  | before place named => exact named.defined
  | atEnd stands => exact exists_standsAt.1 ⟨_, stands⟩

/-- Every label of an operand that became something names a place, be it the one
label of a branch or one of a table. -/
theorem Resolves.named {asked : LabelledOperand} {made : Operand}
    (resolves : Resolves calls asked made) (among : label ∈ asked.labels) :
    ∃ place, Names calls label place := by
  cases resolves with
  | plain operand => simp [LabelledOperand.labels] at among
  | branch other place named =>
    obtain rfl := List.mem_singleton.1 among
    exact ⟨place, named⟩
  | table labels places named =>
    obtain ⟨place, -, named⟩ := Steps.exists_of_forall₂ named among
    exact ⟨place, named⟩

theorem Call.eq_emit_of_plain {opcode : Opcode} {operand : Operand}
    (added : call.added? = some (opcode, .plain operand)) : call = .emit opcode operand := by
  cases call <;> simp_all [Call.added?]

/-- Every target of an operand is named by a label, unless the operand was given
with targets of its own. -/
theorem Resolves.aims {asked : LabelledOperand} {made : Operand}
    (resolves : Resolves calls asked made)
    (aimless : ∀ operand, asked = .plain operand → operand.targets = [])
    (goes : place ∈ made.targets) : ∃ label, Names calls label place := by
  cases resolves with
  | plain operand => simp [aimless made rfl] at goes
  | branch label other named =>
    obtain rfl := List.mem_singleton.1 goes
    exact ⟨label, named⟩
  | table labels places named =>
    obtain ⟨label, -, named⟩ := Steps.exists_of_forall₂ named.flip goes
    exact ⟨label, named⟩

/-- Every label that starts a region names a place. This is what a clause asks of
its labels beyond being defined; the filter counts only where there is one. -/
theorem Borders.starts {c : LabelledClause} {made : Clause} (borders : Borders calls c made)
    (among : label ∈ c.starts) : ∃ place, Names calls label place := by
  simp only [LabelledClause.starts, List.mem_cons, List.mem_append, Option.mem_toList,
    List.not_mem_nil, or_false] at among
  rcases among with rfl | filter | rfl
  · exact ⟨_, borders.tryStart⟩
  · have filtered := borders.filterStart
    rw [filter] at filtered
    generalize made.filterStart = held at filtered
    cases filtered with
    | some named => exact ⟨_, named⟩
  · exact ⟨_, borders.handlerStart⟩

theorem Borders.stops {c : LabelledClause} {made : Clause} (borders : Borders calls c made)
    (among : label ∈ c.stops) : .define label ∈ calls := by
  simp only [LabelledClause.stops, List.mem_cons, List.not_mem_nil, or_false] at among
  rcases among with rfl | rfl
  · exact borders.tryEnd.defined
  · exact borders.handlerEnd.defined

/-- Every border of a clause is named by a label. An end at the end of the body
is no border, so nothing is said of its label here. -/
theorem Borders.aims {c : LabelledClause} {made : Clause} (borders : Borders calls c made)
    (border : place ∈ made.borders) : ∃ label, Names calls label place := by
  have ends {label : String} {found : Option Place} (ends : Ends calls label found)
      (here : found = some place) : ∃ label, Names calls label place := by
    cases ends with
    | before other named =>
      obtain rfl := Option.some.inj here
      exact ⟨label, named⟩
    | atEnd stands => contradiction
  simp only [Clause.borders, List.mem_cons, List.mem_append, Option.mem_toList] at border
  rcases border with rfl | (last | filter) | rfl | last
  · exact ⟨_, borders.tryStart⟩
  · exact ends borders.tryEnd last
  · have filtered := borders.filterStart
    rw [filter] at filtered
    generalize c.filterStart = asked at filtered
    cases filtered with
    | some named => exact ⟨_, named⟩
  · exact ⟨_, borders.handlerStart⟩
  · exact ends borders.handlerEnd last

namespace Assembled

variable {b : Body} (assembled : Assembled calls b)
include assembled

/-- If a body was assembled, its labels could be resolved, so success of
finishing needs no less than that. Proof: each label in use belongs to an
instruction or a clause, and the body has the place that it became. -/
theorem resolvable : Resolvable calls := by
  have start (label : String) (used : label ∈ starts calls) :
      ∃ place, Names calls label place := by
    rcases List.mem_append.1 used with used | used
    · obtain ⟨asked, among, used⟩ := List.mem_flatMap.1 used
      obtain ⟨i, -, -, resolves⟩ := Steps.exists_of_forall₂ assembled.instructions among
      exact resolves.named used
    · obtain ⟨c, among, used⟩ := List.mem_flatMap.1 used
      obtain ⟨made, -, borders⟩ := Steps.exists_of_forall₂ assembled.clauses among
      exact borders.starts used
  constructor
  · intro label used
    rcases List.mem_append.1 used with used | used
    · obtain ⟨place, named⟩ := start label used
      exact named.defined
    · obtain ⟨c, among, used⟩ := List.mem_flatMap.1 used
      obtain ⟨made, -, borders⟩ := Steps.exists_of_forall₂ assembled.clauses among
      exact borders.stops used
  · intro label used
    obtain ⟨place, named⟩ := start label used
    exact named.inside

/-- A place that a label names is that of an instruction of the body. -/
theorem linked_of_names (named : Names calls label place) : place ∈ b.code.places := by
  rw [assembled.places, mem_handedOut]
  exact named.2

/-- Its references are live if no operand was given with targets: branches and
borders go to places that labels name. -/
theorem live (aimless : ∀ opcode operand, .emit opcode operand ∈ calls → operand.targets = []) :
    b.Live where
  targets := by
    intro line among place goes
    have flipped := assembled.instructions.flip
    obtain ⟨asked, added, -, resolves⟩ :=
      Steps.exists_of_forall₂ flipped (List.mem_map_of_mem among)
    have plain (operand : Operand) (same : asked.2 = .plain operand) : operand.targets = [] := by
      obtain ⟨call, made, adds⟩ := List.mem_filterMap.1 added
      obtain ⟨opcode, operand⟩ := asked
      obtain rfl := same
      exact aimless opcode _ (Call.eq_emit_of_plain adds ▸ made)
    obtain ⟨label, named⟩ := resolves.aims plain goes
    exact assembled.linked_of_names named
  borders := by
    intro made among place border
    obtain ⟨c, -, borders⟩ := Steps.exists_of_forall₂ assembled.clauses.flip among
    obtain ⟨label, named⟩ := borders.aims border
    exact assembled.linked_of_names named

end Assembled

end Assembly

end InlineCil
