import InlineCil.Draft
import InlineCil.Proofs.Assembling

/-!
# Drafts and what they become

A draft holds the same instructions as the lines of a body under construction,
with operands that mean nothing in place of those that wait for labels, and a
note for each of them. Going over the notes turns one instruction after the other
into what its line becomes, so a draft finishes as the lines do and never finds
itself without a target.

Drafts are what callers work with. They keep a body from the first call on and
patch it when they finish, so that a note has to be found again in the body; a
note that names no instruction, or one whose operand has no room for the places,
is where a draft could come to a halt. `Follows` relates a draft to the lines of
`Assembly`, and `finish_eq` shows that neither happens.

The theorem about all calls combines this with what is known of lines: replies,
success, failure and the finished body are described by the calls.
-/

namespace InlineCil

open Assembly (Call Reply emitted)

/-- The operand that holds the place of one with labels. -/
def LabelledOperand.blank : LabelledOperand → Operand
  | .plain operand => operand
  | .branch _ => .target Draft.blank
  | .table labels => .switch (List.replicate labels.length Draft.blank)

/-- The labels that a note on the operand names. -/
def LabelledOperand.noted? : LabelledOperand → Option (List String)
  | .plain _ => none
  | .branch label => some [label]
  | .table labels => some labels

/-- The instruction that holds the place of a line. -/
def LabelledLine.blank (line : LabelledLine) : Instruction := ⟨line.opcode, line.operand.blank⟩

/-- The notes on lines that are numbered from a number on. -/
def LabelledLine.notes (start : Nat) (lines : List LabelledLine) : List (Place × List String) :=
  (lines.zipIdx start).filterMap fun (line, n) => line.operand.noted?.map (⟨n⟩, ·)

namespace Code

variable (done rest : List Instruction) (i : Instruction)

/-- The line after those that are done, with what is before and after it. -/
theorem linked_ofList : (ofList (done ++ i :: rest)).linked =
    (done.zipIdx.map fun (i, n) => ⟨⟨n⟩, i⟩) ++ ⟨⟨done.length⟩, i⟩ ::
      ((rest.zipIdx (done.length + 1)).map fun (i, n) => ⟨⟨n⟩, i⟩) := by
  simp [ofList, List.zipIdx_append, List.zipIdx_cons]

/-- Overwriting the line after those that are done overwrites nothing else. -/
theorem overwrite_ofList (new : Instruction) :
    (ofList (done ++ i :: rest)).overwrite ⟨done.length⟩ new = ofList (done ++ new :: rest) := by
  refine eq_of_fields ?_ rfl ?_
  · rw [linked_ofList done rest new]
    exact linked_overwrite (linked_ofList done rest i) new
  · simp [overwrite, mapLinked, ofList]

end Code

namespace Draft

variable {d : Draft} {a : Assembly} {b : Body} {failure : Failure} {labels : List String}

/-- The draft stands where the lines do. -/
structure Follows (d : Draft) (a : Assembly) : Prop where
  body : d.body =
    { code := .ofList (a.lines.map LabelledLine.blank), locals := a.locals, points := a.points }
  emitted : d.emitted = handedOut a.lines.length
  labels : d.labels = a.labels
  notes : d.notes = LabelledLine.notes 0 a.lines
  clauses : d.clauses = a.clauses
  pending : d.pending = a.pending

/-- One more line adds its note, if it waits for labels, at the end. -/
theorem notes_concat (lines : List LabelledLine) (line : LabelledLine) :
    LabelledLine.notes 0 (lines ++ [line]) =
      LabelledLine.notes 0 lines ++ (line.operand.noted?.map (⟨lines.length⟩, ·)).toList := by
  rw [LabelledLine.notes, List.zipIdx_append, List.filterMap_append]
  cases noted : line.operand.noted? <;> simp [LabelledLine.notes, noted]

/-- Appending to the draft is adding a line, but for the note. The instruction
has a blank operand of the right shape, and the caller says which labels are
noted for it; both are determined by the operand with labels. -/
theorem Follows.append (follows : d.Follows a) (opcode : Opcode) (asked : LabelledOperand) :
    (d.append ⟨opcode, asked.blank⟩).1 = ⟨a.lines.length⟩ ∧
      Follows { (d.append ⟨opcode, asked.blank⟩).2 with
        notes := d.notes ++ (asked.noted?.map (⟨a.lines.length⟩, ·)).toList }
        (a.add opcode asked).2 := by
  have code : d.body.code = .ofList (a.lines.map LabelledLine.blank) := by rw [follows.body]
  have pushed := Body.push_ofList code ⟨opcode, asked.blank⟩
  rw [List.length_map] at pushed
  have points := Assembly.points_concat a ⟨opcode, asked, a.pending⟩
  rw [Draft.append, pushed]
  refine ⟨rfl, ?_⟩
  constructor
  · have points : (a.add opcode asked).2.points = a.points ++
        (a.pending.map (·.pointAt ⟨a.lines.length⟩)).toList := points
    rw [points, follows.body, follows.pending]
    cases a.pending with
    | none => simp [Assembly.add, LabelledLine.blank]
    | some range => simp [Assembly.add, LabelledLine.blank, SourceRange.pointAt]
  · simp [Assembly.add, follows.emitted, handedOut, List.range_succ]
  · exact follows.labels
  · exact (congrArg (· ++ _) follows.notes).trans (notes_concat a.lines ⟨opcode, asked, _⟩).symm
  · exact follows.clauses
  · rfl

/-- Emitting appends an instruction to the draft, or is refused as it is for
lines. The operand is checked before anything is appended. -/
theorem apply_emit (d : Draft) (opcode : Opcode) (operand : Operand) :
    d.apply (.emit opcode operand) =
      if operand.fits opcode.kind then
        (.ok (.placed (d.append ⟨opcode, operand⟩).1), (d.append ⟨opcode, operand⟩).2)
      else (.error (.ofCause (.operandKind opcode)), d) := by
  by_cases fits : operand.fits opcode.kind = true
  · simp [apply, emit, Instruction.checked, Instruction.checked?, fits, bind, Except.bind, pure,
      Except.pure, Assembly.placing]
  · simp [apply, emit, Instruction.checked, Instruction.checked?, fits, bind, Except.bind,
      Assembly.placing]

/-- A branch is appended with a target that means nothing and a note of its
label. -/
theorem apply_branch (d : Draft) (opcode : Opcode) (label : String) :
    d.apply (.branch opcode label) =
      if opcode.kind.isTarget then
        (.ok (.placed (d.appendNoted ⟨opcode, .target blank⟩ [label]).1),
          (d.appendNoted ⟨opcode, .target blank⟩ [label]).2)
      else (.error (.ofCause (.notBranch opcode)), d) := by
  by_cases isTarget : opcode.kind.isTarget = true
  · simp [apply, branch, isTarget, Assembly.placing]
  · simp [apply, branch, isTarget, Assembly.placing]

/-- Appending with a note is adding a line with labels: the operand holds the
place and the note has the names. -/
theorem Follows.appendNoted (follows : d.Follows a) (opcode : Opcode) (asked : LabelledOperand)
    (noted : asked.noted? = some labels) :
    (d.appendNoted ⟨opcode, asked.blank⟩ labels).1 = ⟨a.lines.length⟩ ∧
      (d.appendNoted ⟨opcode, asked.blank⟩ labels).2.Follows (a.add opcode asked).2 := by
  obtain ⟨place, grown⟩ := follows.append opcode asked
  rw [noted, ← place] at grown
  exact ⟨place, grown⟩

/-- A draft and the lines give the same reply to a call and stand where each
other do after it. By cases on the call. -/
theorem Follows.apply (follows : d.Follows a) (call : Call) :
    (d.apply call).1 = (a.apply call).1 ∧ (d.apply call).2.Follows (a.apply call).2 := by
  cases call with
  | emit opcode operand =>
    rw [Assembly.apply_emit, apply_emit]
    by_cases fits : operand.fits opcode.kind = true
    · obtain ⟨place, grown⟩ := follows.append opcode (.plain operand)
      simp only [LabelledOperand.noted?, Option.map_none, Option.toList_none,
        List.append_nil] at grown
      rw [if_pos fits, if_pos fits]
      exact ⟨congrArg (Except.ok ∘ Reply.placed) place, grown⟩
    · rw [if_neg fits, if_neg fits]
      exact ⟨rfl, follows⟩
  | branch opcode label =>
    rw [Assembly.apply_branch, apply_branch]
    by_cases isTarget : opcode.kind.isTarget = true
    · obtain ⟨place, grown⟩ := follows.appendNoted opcode (.branch label) rfl
      rw [if_pos isTarget, if_pos isTarget]
      exact ⟨congrArg (Except.ok ∘ Reply.placed) place, grown⟩
    · rw [if_neg isTarget, if_neg isTarget]
      exact ⟨rfl, follows⟩
  | switch labels =>
    obtain ⟨place, grown⟩ := follows.appendNoted .switch (.table labels) rfl
    exact ⟨congrArg (Except.ok ∘ Reply.placed) place, grown⟩
  | define label =>
    rw [Assembly.apply_define, Draft.apply, define, follows.labels]
    by_cases taken : (a.labels.lookup label).isSome = true
    · rw [if_pos taken, if_pos taken]
      exact ⟨rfl, follows⟩
    · rw [if_neg taken, if_neg taken]
      have position : d.emitted.length = a.lines.length := by
        rw [follows.emitted, handedOut, List.length_map, List.length_range]
      refine ⟨rfl, { follows with labels := ?_ }⟩
      exact congrArg (fun n => a.labels ++ [(label, n)]) position
  | declare added =>
    have body := follows.body
    have locals : d.body.locals = a.locals := by rw [body]
    refine ⟨?_, { follows with body := ?_ }⟩
    · simp [Draft.apply, Assembly.apply, declare, Assembly.declare, locals]
    · simp [Draft.apply, Assembly.apply, declare, Assembly.declare, body, Assembly.points]
  | mark range => exact ⟨rfl, { follows with pending := rfl }⟩
  | guarded clause =>
    exact ⟨rfl, { follows with clauses := congrArg (· ++ [clause]) follows.clauses }⟩

/-- So they are after any calls, by induction from the last one. The replies
agree too, so nobody who makes calls can tell the two apart before finishing. -/
theorem follows_run (calls : List Call) :
    (run {} calls).1 = (Assembly.run {} calls).1 ∧
      (run {} calls).2.Follows (Assembly.run {} calls).2 := by
  induction calls using List.reverseRecOn with
  | nil =>
    refine ⟨rfl, ?_⟩
    constructor <;> rfl
  | append_singleton calls call ih =>
    rw [run, Assembly.run] at *
    obtain ⟨replies, follows⟩ := ih
    obtain ⟨reply, follows⟩ := follows.apply call
    rw [Call.runWith_concat, Call.runWith_concat]
    exact ⟨by rw [replies, reply], follows⟩

/-- Labels that end regions are looked up in the same way. A draft keeps the
places it handed out and the lines only count, which agree because places are
positions. -/
theorem Follows.border_eq (follows : d.Follows a) : d.border = a.border := by
  funext label
  rw [border, Assembly.border, follows.labels, follows.emitted]
  cases a.labels.lookup label with
  | none => rfl
  | some position =>
    by_cases inside : position < a.lines.length
    · simp [handedOut, inside]
    · simp [handedOut, inside]

/-- Labels that have to stand before an instruction are looked up in the same
way. -/
theorem Follows.target_eq (follows : d.Follows a) : d.target = a.target := by
  funext label
  exact congrArg (· >>= _) (congrFun follows.border_eq label)

theorem Follows.clause_eq (follows : d.Follows a) : d.clause = a.clause := by
  funext c
  rw [clause, Assembly.clause, follows.border_eq, follows.target_eq]

section Steps

variable {α β : Type} {first : ExceptT Failure Option α} {second : α → ExceptT Failure Option β}

theorem run_bind_ok {value : α} (gave : first.run = some (.ok value)) :
    (first >>= second).run = (second value).run := by
  rw [ExceptT.run_bind, gave]
  rfl

theorem run_bind_error (failed : first.run = some (.error failure)) :
    (first >>= second).run = some (.error failure) := by
  rw [ExceptT.run_bind, failed]
  rfl

end Steps

/-- A note with a label that has no target fails for that label. -/
theorem settle_of_error {note : Place × List String}
    (failed : note.2.mapM d.target = .error failure) :
    (d.settle b note).run = some (.error failure) := by
  rw [settle, failed]
  rfl

/-- Settling a note replaces the instruction that held the place, and leaves the
others. What is done already stands before it and is not looked at again. -/
theorem settle_of_ok {done rest : List Instruction} {i : Instruction} {operand : Operand}
    {targets : List Place} (code : b.code = .ofList (done ++ i :: rest))
    (known : labels.mapM d.target = .ok targets) (aims : aimed targets i.operand = some operand) :
    (d.settle b (⟨done.length⟩, labels)).run =
      some (.ok { b with code := .ofList (done ++ ⟨i.opcode, operand⟩ :: rest) }) := by
  have stands : b.instruction ⟨done.length⟩ = .ok i := by
    rw [Body.instruction_eq_ok, code]
    exact Code.instruction?_of_split (Code.linked_ofList done rest i)
  have known : (liftExcept (labels.mapM d.target) : ExceptT Failure Option _).run =
      some (.ok targets) := by
    rw [known]
    rfl
  have found : (liftExcept ((b.instruction ⟨done.length⟩).mapError Failure.ofFault) :
      ExceptT Failure Option _).run = some (.ok i) := by
    rw [stands]
    rfl
  have aims : (ExceptT.lift (aimed targets i.operand) : ExceptT Failure Option _).run =
      some (.ok operand) := by
    rw [aims]
    rfl
  rw [settle, run_bind_ok known, run_bind_ok found, run_bind_ok aims, code, Code.overwrite_ofList]
  rfl

/-- What an operand becomes is what the places of its labels are put into, and
the operand that holds its place has room for them. So a draft never comes to a
halt there. -/
theorem operand_of_noted {asked : LabelledOperand} (noted : asked.noted? = some labels) :
    match labels.mapM a.target with
    | .error failure => a.operand asked = .error failure
    | .ok targets => ∃ operand, a.operand asked = .ok operand ∧
        aimed targets asked.blank = some operand := by
  cases asked with
  | plain operand => contradiction
  | branch label =>
    obtain rfl := Option.some.inj noted
    rw [List.mapM_cons, Assembly.operand]
    cases a.target label with
    | error failure => rfl
    | ok place => exact ⟨.target place, rfl, rfl⟩
  | table names =>
    obtain rfl := Option.some.inj noted
    rw [Assembly.operand]
    cases names.mapM a.target with
    | error failure => rfl
    | ok places => exact ⟨.switch places, rfl, rfl⟩

/-- Going over the notes on the lines that are left turns each of them into its
instruction, or fails with the first that cannot be. The instructions before them
are done. By induction on the lines. -/
theorem foldlM_settle (follows : d.Follows a) (lines : List LabelledLine) (done : List Instruction)
    (code : b.code = .ofList (done ++ lines.map LabelledLine.blank)) :
    ((LabelledLine.notes done.length lines).foldlM d.settle b).run =
      some ((lines.mapM a.instruction).map fun made =>
        { b with code := .ofList (done ++ made) }) := by
  induction lines generalizing b done with
  | nil =>
    rw [List.map_nil] at code
    change some (Except.ok b) = some (Except.ok { b with code := .ofList (done ++ []) })
    rw [← code]
  | cons line rest ih =>
    have onward (i : Instruction) (made : a.instruction line = .ok i) (next : Body)
        (now : next = { b with code := .ofList (done ++ i :: rest.map LabelledLine.blank) }) :
        ((LabelledLine.notes (done.length + 1) rest).foldlM d.settle next).run =
          some (((line :: rest).mapM a.instruction).map fun made =>
            { b with code := .ofList (done ++ made) }) := by
      have later := ih (b := next) (done ++ [i]) (by simp [now])
      rw [List.length_append, List.length_singleton] at later
      rw [later, List.mapM_cons, made, now]
      cases rest.mapM a.instruction with
      | error failure => rfl
      | ok others => simp [bind, Except.bind, pure, Except.pure, Except.map]
    cases noted : line.operand.noted? with
    | none =>
      have unnoted : LabelledLine.notes done.length (line :: rest) =
          LabelledLine.notes (done.length + 1) rest := by
        simp [LabelledLine.notes, List.zipIdx_cons, noted]
      rw [unnoted]
      refine onward line.blank ?_ b (by rw [← List.map_cons, ← code])
      obtain ⟨opcode, asked, range⟩ := line
      cases asked with
      | plain operand => rfl
      | branch _ | table _ => contradiction
    | some labels =>
      have first : LabelledLine.notes done.length (line :: rest) =
          (⟨done.length⟩, labels) :: LabelledLine.notes (done.length + 1) rest := by
        simp [LabelledLine.notes, List.zipIdx_cons, noted]
      have operand := operand_of_noted (a := a) noted
      rw [first, List.foldlM_cons]
      cases known : labels.mapM a.target with
      | error failure =>
        rw [known] at operand
        have fails : a.instruction line = .error failure := by
          rw [Assembly.instruction, operand]
          rfl
        rw [← follows.target_eq] at known
        rw [run_bind_error (settle_of_error known), List.mapM_cons, fails]
        rfl
      | ok targets =>
        rw [known] at operand
        obtain ⟨made, resolved, aims⟩ := operand
        have becomes : a.instruction line = .ok ⟨line.opcode, made⟩ := by
          rw [Assembly.instruction, resolved]
          rfl
        rw [← follows.target_eq] at known
        rw [run_bind_ok (settle_of_ok code known aims)]
        exact onward _ becomes _ rfl

/-- Closing adds the clauses in their order, or fails with the first that cannot
be resolved. Clauses are resolved against the labels only, so it does not matter
what the body has become by then. -/
theorem foldlM_close (follows : d.Follows a) (clauses : List LabelledClause) (b : Body) :
    (clauses.foldlM d.close b).run =
      some ((clauses.mapM a.clause).map fun made =>
        { b with clauses := b.clauses ++ made }) := by
  induction clauses generalizing b with
  | nil =>
    change some (Except.ok b) = some (Except.ok { b with clauses := b.clauses ++ [] })
    rw [List.append_nil]
  | cons c rest ih =>
    rw [List.foldlM_cons, List.mapM_cons]
    cases made : a.clause c with
    | error failure =>
      have failed : (d.close b c).run = some (.error failure) := by
        rw [close, follows.clause_eq, made]
        rfl
      rw [run_bind_error failed]
      rfl
    | ok clause =>
      have closed : (d.close b c).run = some (.ok { b with clauses := b.clauses ++ [clause] }) := by
        rw [close, follows.clause_eq, made]
        rfl
      rw [run_bind_ok closed, ih]
      cases rest.mapM a.clause with
      | error failure => rfl
      | ok others => simp [bind, Except.bind, pure, Except.pure, Except.map]

/-- A draft finishes as the lines do, and always comes to an end. Proof: the
notes are settled from the first line on, and then the clauses are closed; a
failure of either is the failure of the translation. -/
theorem Follows.finish_eq (follows : d.Follows a) : d.finish.run = some a.finish := by
  have code : d.body.code = .ofList ([] ++ a.lines.map LabelledLine.blank) := by rw [follows.body]; rfl
  have settled := foldlM_settle follows a.lines [] code
  rw [List.length_nil, ← follows.notes] at settled
  rw [finish, Assembly.finish]
  cases made : a.lines.mapM a.instruction with
  | error failure =>
    rw [made] at settled
    rw [run_bind_error settled]
    rfl
  | ok instructions =>
    rw [made] at settled
    rw [run_bind_ok settled, foldlM_close follows, follows.clauses, follows.body]
    dsimp only
    cases a.clauses.mapM a.clause with
    | error failure => rfl
    | ok clauses =>
      let empty : Body := { clauses, locals := a.locals, points := a.points }
      have grown : empty.pushAll instructions = _ := Body.pushAll_ofList (Code.ofList_nil) _
      change some (Except.ok _) = some (Except.ok (empty.pushAll instructions))
      rw [grown]
      rfl

/-- Whatever calls were made, finishing comes to an end. It succeeds exactly if
every label in use is defined and every label that has to stand before an
instruction does, and otherwise a label is the reason.

The body then lists the instructions that were added, at the places that were
handed out for them; every label has become the place of the instruction added
right after it was defined, or the end of the body for a region that ends there,
and every point is on the instruction added next. The body is valid unless an
operand was given with targets of its own. -/
theorem finish_resolves (calls : List Call) :
    (run {} calls).1 = (Assembly.run {} calls).1 ∧
    ∃ answer, (run {} calls).2.finish.run = some answer ∧
      (Assembly.run {} calls).2.finish = answer ∧
      ((∃ b, answer = .ok b) ↔ Assembly.Resolvable calls) ∧
      (∀ failure, answer = .error failure → Assembly.Unresolved calls failure) ∧
      ∀ b, answer = .ok b → Assembly.Assembled calls b ∧
        b.code.places = (run {} calls).1.filterMap Reply.place? ∧
        ((∀ opcode operand, .emit opcode operand ∈ calls → operand.targets = []) →
          b.validate = .ok ()) := by
  obtain ⟨replies, follows⟩ := follows_run calls
  have records := Assembly.records_run calls
  refine ⟨replies, _, follows.finish_eq, rfl, ⟨?_, ?_⟩, ?_, ?_⟩
  · rintro ⟨b, found⟩
    exact (Assembly.assembled_of_finish records found).resolvable
  · intro resolvable
    cases found : (Assembly.run {} calls).2.finish with
    | error failure =>
      have unresolved := Assembly.unresolved_of_finish records found
      exact (unresolved.not_resolvable resolvable).elim
    | ok b => exact ⟨b, rfl⟩
  · intro failure failed
    exact Assembly.unresolved_of_finish records failed
  · intro b found
    have assembled := Assembly.assembled_of_finish records found
    refine ⟨assembled, ?_, fun aimless => Body.validate_ok (assembled.live aimless)⟩
    rw [replies, Assembly.places_run, assembled.places]

/-- Calls for a guarded piece of code: labels before and after their uses, one of
them at the end and one in a table twice, points of which one is replaced, and
calls that are refused. -/
def guardedCalls : List Call :=
  let range (line : Nat) : SourceRange := ⟨"Guarded.cs", ⟨line, 1⟩, ⟨line, 9⟩⟩
  [.define "try", .mark (range 1), .mark (range 2), .emit .nop .none, .branch .leave "out",
    .branch .add "try", .define "handler", .emit .pop .none, .define "try",
    .switch ["try", "out", "try"], .branch .leave "out",
    .guarded ⟨0, "try", "handler", none, "handler", "end", none⟩,
    .define "out", .mark (range 3), .emit .ret .none, .define "end"]

/-- The calls that are refused leave no trace, and six instructions are laid out
with valid references. -/
theorem finish_resolves_guardedCalls :
    ∃ b, (run {} guardedCalls).2.finish.run = some (.ok b) ∧
      Assembly.Assembled guardedCalls b ∧ b.code.places = handedOut 6 ∧ b.validate = .ok () := by
  obtain ⟨-, answer, finished, made, -, -, right⟩ := finish_resolves guardedCalls
  have found : answer = .ok _ := made.symm.trans rfl
  obtain ⟨assembled, places, valid⟩ := right _ found
  refine ⟨_, finished.trans (congrArg some found), assembled, places, valid ?_⟩
  intro opcode operand among
  simp only [guardedCalls, List.mem_cons, List.not_mem_nil, or_false, Call.emit.injEq, reduceCtorEq,
    false_or] at among
  rcases among with ⟨-, rfl⟩ | ⟨-, rfl⟩ | ⟨-, rfl⟩ <;> rfl

end Draft

end InlineCil
