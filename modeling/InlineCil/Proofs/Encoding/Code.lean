import InlineCil.Proofs.Encoding.Operands

/-!
# The instructions of encoded code

Encoded code branches nowhere, because its branches are only described: its
instructions are parts of arguments, calls of markers, and plain ones. A call of
a marker that builds nothing mentions the namespace of the vocabulary, so a
method that holds one is looked at.

Both are facts about single instructions. That calls branch nowhere is told by
their operand, which is a method; that parts of arguments do not is told by the
opcodes that may appear there, provided that operands are of the kind their
opcodes take. Statements and programs inherit them piece by piece.

Since nothing branches and there are no clauses, no line of encoded code is
named. So blocks end only at instructions that end them, and the arguments of a
call are in the block of the call.
-/

namespace InlineCil

variable {space : String}

/-- What calls a marker has a method for its operand, and the method is
classified as the marker. So a marker call branches nowhere and names no local
variable. -/
theorem Instruction.method_of_marker? {i : Instruction} {marker : Marker}
    (calls : i.marker? space = .ok (some marker)) :
    ∃ m, i.operand = .method m ∧ Marker.classify space m = .ok (some marker) := by
  unfold marker? calledMethod? method? at calls
  split at calls
  · simp at calls
  next m called =>
  split at called
  · split at called
    · next held =>
      obtain rfl := Option.some.inj called
      exact ⟨_, held, calls⟩
    · simp at called
  · simp at called

/-- A marker that builds nothing is in the namespace: it is found by its
declaring type, or not at all. Builders may be methods of other types. -/
theorem Marker.references_of_classify {m : MethodRef} {marker : Marker}
    (classified : classify space m = .ok (some marker)) (own : ∀ b, marker ≠ .builder b) :
    m.references space = true := by
  unfold classify at classified
  split at classified
  · simp at classified
  next owner root =>
  -- The reflected builders live elsewhere, but they are builders.
  split at classified
  · obtain ⟨b, -, same⟩ := Option.map_eq_some_iff.1 (Except.ok.inj classified)
    exact (own b same.symm).elim
  split at classified
  · split at classified
    · exact (own _ (by simpa using classified.symm)).elim
    · simp at classified
  split at classified
  · simp at classified
  next inside =>
  have member : owner.inNamespace space = true := by simpa using inside
  have declaring : m.declaringType.references space = true := by
    unfold TypeSig.root? at root
    split at root
    · next named =>
      obtain rfl := Option.some.inj root
      simp [named, TypeSig.references, member]
    · next instanced =>
      obtain rfl := Option.some.inj root
      simp [instanced, TypeSig.references, member]
    · simp at root
  simp [MethodRef.references, declaring]

/-- Only opcodes that branch take operands that do, so an operand of any other
kind names no place. -/
theorem Operand.targets_of_fits {operand : Operand} {kind : OperandKind}
    (fits : operand.fits kind = true) (still : kind.isTarget = false) (single : kind ≠ .switch) :
    operand.targets = [] := by
  cases operand with
  | target place => simp [Operand.fits, still] at fits
  | switch places => cases kind <;> first | exact (single rfl).elim | cases fits
  | _ => rfl

theorem Instruction.IsPart.targets {i : Instruction} (part : i.IsPart space)
    (wellTyped : i.isWellTyped = true) : i.targets = [] := by
  obtain ⟨still, single⟩ := Opcode.kind_of_isArgumental part.isArgumental
  exact Operand.targets_of_fits wellTyped still single

theorem Instruction.targets_of_marker? {i : Instruction} {marker : Marker}
    (calls : i.marker? space = .ok (some marker)) : i.targets = [] := by
  obtain ⟨m, held, -⟩ := method_of_marker? calls
  simp [targets, held, Operand.targets]

/-- Calls of markers that build nothing mention the namespace, which is what a
method is searched for before a pass. -/
theorem Instruction.references_of_marker? {i : Instruction} {marker : Marker}
    (calls : i.marker? space = .ok (some marker)) (own : ∀ b, marker ≠ .builder b) :
    i.operand.references space = true := by
  obtain ⟨m, held, classified⟩ := method_of_marker? calls
  rw [held]
  exact Marker.references_of_classify classified own

namespace Statement

/-- Statements branch nowhere; what they describe may. Labels are text before the
rewrite, so there is nothing for a branch to go to. -/
theorem branchless (s : Statement space) (wellTyped : ∀ i ∈ s.code, i.isWellTyped = true) :
    ∀ i ∈ s.code, i.targets = [] := by
  cases s with
  | plain i outside branchless =>
    intro j member
    obtain rfl := List.mem_singleton.1 member
    exact branchless
  | @emit opcode parameter argument call calls =>
    intro i member
    rcases List.mem_append.1 member with before | last
    · exact ((Marker.Reads.emitted opcode argument).argumental i before).targets
        (wellTyped i member)
    · obtain rfl := List.mem_singleton.1 last
      exact Instruction.targets_of_marker? calls
  | mark name call calls =>
    intro i member
    rcases List.mem_cons.1 member with rfl | last
    · rfl
    · obtain rfl := List.mem_singleton.1 last
      exact Instruction.targets_of_marker? calls

/-- A statement that calls a marker mentions the namespace, so a method that has
one is looked at. -/
theorem references {s : Statement space} (isMarker : s.isMarker = true) :
    ∃ i ∈ s.code, i.operand.references space = true := by
  cases s with
  | plain i outside branchless => simp [Statement.isMarker] at isMarker
  | emit argument call calls =>
    exact ⟨call, by simp [code], Instruction.references_of_marker? calls (by rintro b ⟨⟩)⟩
  | mark name call calls =>
    exact ⟨call, by simp [code], Instruction.references_of_marker? calls (by rintro b ⟨⟩)⟩

/-- No described operation branches: branches are described as such, by the names
of their labels. -/
theorem Describe.still {m : MethodDef} {scope : Option Scope} {statements : List (Statement space)}
    {symbols final : Symbols} {items : List Item}
    (described : Describe m scope statements symbols items final) :
    ∀ item ∈ items, item.Still := by
  induction described with
  | nothing symbols => simp
  | @plain i outside branchless rest symbols final items others ih =>
    exact List.forall_mem_cons.2 ⟨branchless, ih⟩
  | emit denotes emits others ih => exact List.forall_mem_cons.2 ⟨emits.still, ih⟩
  | mark others ih => exact List.forall_mem_cons.2 ⟨trivial, ih⟩

end Statement

namespace Program

/-- The instructions of a program branch nowhere, so no line of a body that holds
it is named. Proof: by the statement that an instruction belongs to, the
declaration first. -/
theorem branchless (p : Program space) (wellTyped : ∀ i ∈ p.code, i.isWellTyped = true) :
    ∀ i ∈ p.code, i.targets = [] := by
  intro i member
  have typed := wellTyped i member
  rcases List.mem_append.1 member with first | later
  · cases declares : p.declaration with
    | none => simp [declares] at first
    | some d =>
      rw [declares] at first
      rcases List.mem_append.1 first with before | last
      · exact ((Marker.Reads.declarations d.arguments).argumental i before).targets typed
      · obtain rfl := List.mem_singleton.1 last
        exact Instruction.targets_of_marker? d.calls
  · obtain ⟨s, held, among⟩ := List.mem_flatMap.1 later
    refine s.branchless (fun j inside => wellTyped j ?_) i among
    exact List.mem_append_right _ (List.mem_flatMap.2 ⟨s, held, inside⟩)

/-- A program that calls a marker mentions the namespace, in its declaration or in a
statement. -/
theorem references {p : Program space} (uses : p.usesMarkers = true) :
    ∃ i ∈ p.code, i.operand.references space = true := by
  rcases Bool.or_eq_true _ _ ▸ uses with declares | some
  · obtain ⟨d, found⟩ := Option.isSome_iff_exists.1 declares
    refine ⟨d.call, ?_, Instruction.references_of_marker? d.calls (by rintro b ⟨⟩)⟩
    simp [code, found, Declaration.code]
  · obtain ⟨s, held, isMarker⟩ := List.any_eq_true.1 some
    obtain ⟨i, among, mentions⟩ := Statement.references isMarker
    exact ⟨i, List.mem_append_right _ (List.mem_flatMap.2 ⟨s, held, among⟩), mentions⟩

theorem Describes.still {m : MethodDef} {base : Nat} {p : Program space} {symbols final : Symbols}
    {items : List Item} {added : List Local}
    (described : p.Describes m base symbols items added final) : ∀ item ∈ items, item.Still := by
  cases described with
  | undeclared described => exact described.still
  | declared denotes room checked described => exact described.still

end Program

end InlineCil
