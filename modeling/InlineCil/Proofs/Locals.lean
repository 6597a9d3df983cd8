import InlineCil.Proofs.Encoding.Operands
import InlineCil.Proofs.Outcome

/-!
# Declared local variables and their slots

A declaration appends its variables to those of the body, or is refused and
changes nothing. From then on a variable is referred to by its position in the
declaration or by its name, and either way its slot is the number of variables
that the body had before plus that position. The table in use is known after any
sequence of references: a variable counts as accessed exactly if some reference
meant it.

References are data, and `LocalReference.Means` says which declared variable one
means without looking at a table. `LocalTable.accessed` is the table after some
references in closed form. A reference that means a variable leads from one such
table to the next, and one that means none is refused and leads nowhere, so the
table after many references needs no induction beyond that.

`Rewriting.Serves` lists what declared variables are good for: slots, the
instructions composed from them, refusals and warnings. It holds after the
declaration and any references, refused ones among them.
-/

namespace InlineCil

/-- A reference to a local variable, as the argument of an emitting call makes
it. -/
inductive LocalReference where
  | named (name : String)
  | numbered (index : Int)
  deriving DecidableEq, Repr

namespace LocalReference

/-- How the reference is looked up. -/
def find : LocalReference → Option LocalTable → Except Cause (UInt16 × Option LocalTable)
  | .named name => (LocalTable.byName · name)
  | .numbered index => (LocalTable.byIndex · index)

/-- The reference means the declared variable at a position. -/
def Means (declared : List LocalDeclaration) (position : Nat) : LocalReference → Prop
  | .named name => declared[position]?.bind LocalDeclaration.name = some name
  | .numbered index => index = position ∧ position < declared.length

instance (declared : List LocalDeclaration) (position : Nat) :
    (r : LocalReference) → Decidable (r.Means declared position)
  | .named name =>
      inferInstanceAs (Decidable (declared[position]?.bind LocalDeclaration.name = some name))
  | .numbered index => inferInstanceAs (Decidable (index = position ∧ position < declared.length))

/-- Why a reference is refused that means no declared variable. -/
def refusal : LocalReference → Cause
  | .named name => .localMissing name
  | .numbered index => .declaredLocalIndex index

end LocalReference

/-- The argument of an emitting call refers to a local variable, or the opcode
itself does. -/
inductive Opcode.Refers (opcode : Opcode) : Argument → LocalReference → Prop where
  | implicit {index : UInt16} {value : Argument} (names : opcode.implicitLocal = some index) :
      Refers opcode value (.numbered index.toNat)
  | name {name : String} (takes : opcode.kind.isLocalSlot = true) :
      Refers opcode (.string name) (.named name)
  | index {index : Int} (takes : opcode.kind.isLocalSlot = true) :
      Refers opcode (.integer index) (.numbered index)

/-- The instruction accesses a slot as an opcode asks for: with an operand of the
right kind, and in the full form where a short one does not reach or the opcode
itself names a variable. -/
structure Instruction.Accesses (i : Instruction) (opcode : Opcode) (slot : UInt16) : Prop where
  operand : i.operand = .localSlot slot
  wellTyped : i.isWellTyped = true
  accessed : i.localIndex? = some slot
  sameAccess : i.opcode.localAccess = opcode.localAccess
  form : i.opcode =
    if opcode.namesLocal then opcode.generalLocalForm.getD opcode else opcode.reaching slot

/-- Distinct names tell declared variables apart, so a reference means one at
most. Declarations are checked for this, and variables without a name are
referred to by number only. -/
theorem LocalReference.Means.unique {declared : List LocalDeclaration} {r : LocalReference}
    {j k : Nat} (distinct : (LocalDeclaration.names declared).Nodup)
    (one : r.Means declared j) (other : r.Means declared k) : j = k := by
  cases r with
  | numbered index => exact Int.ofNat.inj (one.1.symm.trans other.1)
  | named name =>
    have apart := List.pairwise_iff_getElem.1 (List.pairwise_filterMap.1 distinct)
    obtain ⟨d, atOne, hasName⟩ := Option.bind_eq_some_iff.1 one
    obtain ⟨e, atOther, sameName⟩ := Option.bind_eq_some_iff.1 other
    obtain ⟨insideOne, rfl⟩ := List.getElem?_eq_some_iff.1 atOne
    obtain ⟨insideOther, rfl⟩ := List.getElem?_eq_some_iff.1 atOther
    rcases Nat.lt_trichotomy j k with less | same | greater
    · exact absurd rfl (apart j k insideOne insideOther less name hasName name sameName)
    · exact same
    · exact absurd rfl (apart k j insideOther insideOne greater name sameName name hasName)

namespace LocalTable

variable {declared : List LocalDeclaration} {base k : Nat} {call : Place}
  {earlier : List LocalReference} {r : LocalReference}

/-- The table of declared variables after references: those are accessed that one
meant. -/
def accessed (base : Nat) (declared : List LocalDeclaration) (call : Place)
    (references : List LocalReference) : LocalTable where
  base := base
  slots := declared.mapIdx fun k d => ⟨d.name, decide (∃ r ∈ references, r.Means declared k)⟩
  declaredAt := call

/-- Without references nothing is accessed, which is the table that a declaration
sets up. -/
theorem accessed_nil : accessed base declared call [] =
    ⟨base, declared.map fun d => { name := d.name }, call⟩ := by
  refine congrArg (LocalTable.mk base · call) (List.ext_getElem? fun k => ?_)
  simp

/-- A reference that means a variable has its access noted, and no other
variable's. So the table is always the one that the references so far describe. -/
theorem markUsed_accessed (distinct : (LocalDeclaration.names declared).Nodup)
    (means : r.Means declared k) :
    (accessed base declared call earlier).markUsed k =
      accessed base declared call (earlier ++ [r]) := by
  refine congrArg (LocalTable.mk base · call) (List.ext_getElem? fun j => ?_)
  rw [accessed, List.getElem?_modify, List.getElem?_mapIdx, List.getElem?_mapIdx]
  cases declared[j]? with
  | none => rfl
  | some d =>
    by_cases here : k = j
    · subst here
      simp [means]
    · have elsewhere : ¬r.Means declared j := fun also => here (means.unique distinct also)
      simp [here, elsewhere]

theorem accessed_of_refused (nothing : ∀ k, ¬r.Means declared k) :
    accessed base declared call (earlier ++ [r]) = accessed base declared call earlier := by
  simp [accessed, nothing]

/-- The variable that a reference means is found, at its position after the
variables of the body. Accesses noted earlier do not matter for what is found. -/
theorem find_accessed (distinct : (LocalDeclaration.names declared).Nodup)
    (means : r.Means declared k) :
    r.find (some (accessed base declared call earlier)) =
      .ok (.ofNat (base + k), some (accessed base declared call (earlier ++ [r]))) := by
  rw [← markUsed_accessed distinct means]
  cases r with
  | numbered index =>
    obtain ⟨rfl, inside⟩ := means
    simp [LocalReference.find, byIndex, accessed, inside, slot]
  | named name =>
    have found : (accessed base declared call earlier).slots.findIdx? (·.name = some name) =
        some k := by
      obtain ⟨d, atPlace, hasName⟩ := Option.bind_eq_some_iff.1 means
      obtain ⟨inside, rfl⟩ := List.getElem?_eq_some_iff.1 atPlace
      refine List.findIdx?_eq_some_iff_getElem.2 ⟨by simpa [accessed] using inside, ?_, ?_⟩
      · simpa [accessed] using hasName
      · intro j before
        have within : j < declared.length := Nat.lt_trans before inside
        have other : declared[j].name ≠ some name := by
          intro same
          have also : (LocalReference.named name).Means declared j := by
            simp [LocalReference.Means, within, same]
          exact absurd (also.unique distinct means) (Nat.ne_of_lt before)
        simpa [accessed] using other
    simp only [LocalReference.find, byName, Option.bind_some, found, Option.map_some]
    rfl

/-- A reference that means no variable is refused. A number is refused for being
out of the range of the declaration, and a name for being unknown. -/
theorem find_refused (nothing : ∀ k, ¬r.Means declared k) :
    r.find (some (accessed base declared call earlier)) = .error r.refusal := by
  cases r with
  | numbered index =>
    have outside : ¬(0 ≤ index ∧ index < declared.length) := by
      rintro ⟨low, high⟩
      exact nothing index.toNat ⟨by omega, by omega⟩
    simp [LocalReference.find, byIndex, accessed, outside, LocalReference.refusal]
  | named name =>
    have missing : (accessed base declared call earlier).slots.findIdx? (·.name = some name) =
        none := by
      refine List.findIdx?_eq_none_iff.2 fun slot member => ?_
      obtain ⟨k, inside, rfl⟩ := List.mem_mapIdx.1 member
      have other := nothing k
      simp only [LocalReference.Means, List.getElem?_eq_getElem inside, Option.bind_some] at other
      simpa using other
    simp [LocalReference.find, byName, missing, LocalReference.refusal]

/-- There is a warning for each declared variable that no reference meant, in the
order of the declaration. -/
theorem unused_accessed (references : List LocalReference) :
    (accessed base declared call references).unused =
      declared.zipIdx.filterMap fun (d, k) =>
        if ∃ r ∈ references, r.Means declared k then none
        else some (.unusedLocal d.name k, call) := by
  have indexed : (accessed base declared call references).slots.zipIdx =
      declared.zipIdx.map fun (d, k) =>
        (⟨d.name, decide (∃ r ∈ references, r.Means declared k)⟩, k) := by
    refine List.ext_getElem? fun k => ?_
    simp [accessed, Function.comp_def]
  unfold unused
  rw [indexed, List.filterMap_map]
  refine List.filterMap_congr fun ⟨d, k⟩ _ => ?_
  simp [accessed]

end LocalTable

/-- The state after references are looked up one after the other, refused ones
among them. -/
def Rewriting.after (state : Rewriting) (references : List LocalReference) : Rewriting :=
  references.foldl (fun state r =>
    match (Rewrite.localSlot r.find).run state with
    | .ok _ left => left
    | .error _ left => left) state

/-- What declared variables are good for after some references to them. -/
structure Rewriting.Serves (state : Rewriting) (base : Nat) (declared : List LocalDeclaration)
    (call : Place) (references : List LocalReference) : Prop where
  /-- A reference that means a variable yields the slot at which the body has it. -/
  reaches : ∀ (r : LocalReference) k, r.Means declared k → ∃ slot left,
    (Rewrite.localSlot r.find).run state = .ok slot left ∧ slot.toNat = base + k ∧
      base + k < state.body.locals.length ∧
      ∃ d added, declared[k]? = some d ∧ state.body.locals[base + k]? = some added ∧ d.Adds added
  /-- No reference means two. -/
  unique : ∀ (r : LocalReference) j k, r.Means declared j → r.Means declared k → j = k
  /-- One that means none is refused, and nothing is noted. -/
  refuses : ∀ (r : LocalReference), (∀ k, ¬r.Means declared k) →
    (Rewrite.localSlot r.find).run state = .error (.ofCause r.refusal) state
  /-- An instruction is composed with the slot, or refused with the reference. -/
  emits : ∀ frame place opcode value r, opcode.Refers value r →
    match (Rewrite.localSlot r.find).run state with
    | .ok slot left => ∃ i, (Rewrite.instruction frame place opcode value).run state = .ok i left ∧
        i.Accesses opcode slot
    | .error failure left =>
        (Rewrite.instruction frame place opcode value).run state = .error failure left
  /-- The variables that no reference yielded are reported, in order. -/
  reports : state.locals.map LocalTable.unused = some (declared.zipIdx.filterMap fun (d, k) =>
    if ∃ r ∈ references, r.Means declared k then none else some (.unusedLocal d.name k, call))

namespace Rewrite

variable {state : Rewriting} {declared : List LocalDeclaration} {base : Nat} {call : Place}
  {earlier : List LocalReference} {r : LocalReference} {opcode : Opcode} {value : Argument}

/-- Looking a reference up is a matter of the table in use. Only the table
changes, and if the reference is refused not even that. -/
theorem run_localSlot_eq (state : Rewriting) (r : LocalReference) :
    (localSlot r.find).run state =
      match r.find state.locals with
      | .ok (slot, table) => .ok slot { state with locals := table }
      | .error cause => .error (.ofCause cause) state := by
  unfold localSlot
  rw [Steps.run_bind, Steps.run_get]
  dsimp only
  rw [Steps.run_bind]
  cases r.find state.locals <;> rfl

/-- One reference after others is noted in the table with them. A reference that
means nothing is noted too, which marks no variable. -/
theorem after_cons_of_accessed (distinct : (LocalDeclaration.names declared).Nodup)
    (table : state.locals = some (.accessed base declared call earlier)) :
    state.after [r] =
      { state with locals := some (.accessed base declared call (earlier ++ [r])) } := by
  simp only [Rewriting.after, List.foldl_cons, List.foldl_nil]
  rw [run_localSlot_eq, table]
  by_cases some : ∃ k, r.Means declared k
  · obtain ⟨k, means⟩ := some
    rw [LocalTable.find_accessed distinct means]
  · have nothing := not_exists.1 some
    rw [LocalTable.find_refused nothing, LocalTable.accessed_of_refused nothing, ← table]

/-- So are any number of references, by induction on them. The table in use is
then the one that they describe together. -/
theorem after_of_accessed (distinct : (LocalDeclaration.names declared).Nodup)
    (table : state.locals = some (.accessed base declared call earlier))
    (references : List LocalReference) :
    state.after references =
      { state with locals := some (.accessed base declared call (earlier ++ references)) } := by
  induction references generalizing state earlier with
  | nil => simp [Rewriting.after, ← table]
  | cons r rest ih =>
    have first := after_cons_of_accessed (r := r) distinct table
    calc state.after (r :: rest)
        = (state.after [r]).after rest := rfl
      _ = _ := by
        rw [first, ih rfl]
        simp

/-- An opcode that names a variable itself accesses what it names. -/
theorem localAccess_of_implicitLocal {index : UInt16} {general : Opcode}
    (implicit : opcode.implicitLocal = some index)
    (full : opcode.generalLocalForm = some general) :
    general.localAccess = opcode.localAccess := by
  cases opcode <;> first | (cases implicit; done) | (cases full; rfl)

theorem localAccess_reaching (opcode : Opcode) (slot : UInt16) :
    (opcode.reaching slot).localAccess = opcode.localAccess := by
  unfold Opcode.reaching
  split
  · cases opcode <;> rfl
  · rfl

/-- An opcode with a variable for its operand is composed with the slot that is
found. A slot beyond the short form is reached by the full one, so only finding
can fail. -/
theorem instruction_of_isLocalSlot (frame : Frame) (place : Place)
    (takes : opcode.kind.isLocalSlot = true)
    (composes : instruction frame place opcode value =
      localSlot r.find >>= fun slot => liftExcept (localAccess opcode slot)) :
    match (localSlot r.find).run state with
    | .ok slot left => ∃ i, (instruction frame place opcode value).run state = .ok i left ∧
        i.Accesses opcode slot
    | .error failure left =>
        (instruction frame place opcode value).run state = .error failure left := by
  rw [composes, Steps.run_bind]
  cases (localSlot r.find).run state with
  | error failure left => rfl
  | ok slot left =>
    have explicit : opcode.namesLocal = false := by
      simp [Opcode.namesLocal, Opcode.implicitLocal_of_isLocalSlot takes]
    refine ⟨⟨opcode.reaching slot, .localSlot slot⟩, ?_, rfl, Opcode.fits_reaching takes slot, rfl,
      localAccess_reaching opcode slot, by simp [explicit]⟩
    exact Steps.run_liftExcept_eq_ok.2 ⟨Opcode.localAccess_eq takes slot, rfl⟩

/-- An instruction that refers to a variable is composed with its slot, or
refused as the reference is. Proof: by the three ways of referring, by the opcode
itself, by a name and by an index. -/
theorem instruction_of_refers (frame : Frame) (place : Place) (refers : opcode.Refers value r)
    (declared : state.locals.isSome = true) :
    match (localSlot r.find).run state with
    | .ok slot left => ∃ i, (instruction frame place opcode value).run state = .ok i left ∧
        i.Accesses opcode slot
    | .error failure left =>
        (instruction frame place opcode value).run state = .error failure left := by
  cases refers with
  | @implicit index value implicit =>
    obtain ⟨-, general, full, wide⟩ := Opcode.full_of_implicitLocal implicit
    have composes : (instruction frame place opcode value).run state =
        (localSlot (LocalReference.numbered index.toNat).find >>= fun slot =>
          liftExcept (Instruction.checked general (.localSlot slot))).run state := by
      have known : state.locals.isNone = false := by simpa using declared
      unfold instruction
      rw [implicit, full]
      dsimp only
      rw [Steps.run_bind, Steps.run_get]
      dsimp only
      rw [known]
      rfl
    rw [composes, Steps.run_bind]
    cases (localSlot (LocalReference.numbered index.toNat).find).run state with
    | error failure left => rfl
    | ok slot left =>
      have fits : (Operand.localSlot slot).fits general.kind = true := by
        simp [wide, Operand.fits]
      refine ⟨⟨general, .localSlot slot⟩, ?_, rfl, fits, rfl,
        localAccess_of_implicitLocal implicit full, ?_⟩
      · exact Steps.run_liftExcept_eq_ok.2 ⟨Instruction.checked_of_fits fits, rfl⟩
      · simp [Opcode.namesLocal, implicit, full]
  | name takes =>
    refine instruction_of_isLocalSlot frame place takes ?_
    rw [instruction_of_explicit (Opcode.implicitLocal_of_isLocalSlot takes), takes]
    rfl
  | index takes =>
    refine instruction_of_isLocalSlot frame place takes ?_
    rw [instruction_of_explicit (Opcode.implicitLocal_of_isLocalSlot takes), takes]
    rfl

/-- The table after references serves all that is declared. Slots are those of
the appended variables, so they are indices that the body has. -/
theorem serves_of_accessed {references : List LocalReference} {own added : List Local}
    (fit : LocalDeclaration.Fit own.length declared)
    (adds : List.Forall₂ LocalDeclaration.Adds declared added)
    (appended : state.body.locals = own ++ added)
    (table : state.locals = some (.accessed own.length declared call references)) :
    state.Serves own.length declared call references where
  reaches r k means := by
    have inside : k < declared.length := by
      cases r with
      | numbered index => exact means.2
      | named name =>
        obtain ⟨d, atPlace, -⟩ := Option.bind_eq_some_iff.1 means
        exact (List.getElem?_eq_some_iff.1 atPlace).1
    have small : own.length + k < 65536 := by
      have room := fit.room
      unfold LocalTable.capacity at room
      omega
    have found : (localSlot r.find).run state = .ok (.ofNat (own.length + k))
        { state with locals := some (.accessed own.length declared call (references ++ [r])) } := by
      rw [run_localSlot_eq, table, LocalTable.find_accessed fit.distinct means]
    have within : k < added.length := adds.length_eq ▸ inside
    refine ⟨_, _, found, UInt16.toNat_ofNat_of_lt' small, ?_, declared[k], added[k], ?_, ?_, ?_⟩
    · simpa [appended] using within
    · exact List.getElem?_eq_getElem inside
    · rw [appended, List.getElem?_append_right (Nat.le_add_right _ _)]
      simp [within]
    · exact adds.get inside within
  unique _ _ _ one other := one.unique fit.distinct other
  refuses r nothing := by
    rw [run_localSlot_eq, table, LocalTable.find_refused nothing]
  emits frame place _ _ _ refers := instruction_of_refers frame place refers (by simp [table])
  reports := by rw [table, Option.map_some, LocalTable.unused_accessed]

/-- Declared local variables are at their slots. The rule for a declaring call
reads its arguments, declares, and removes the call. A declaration that is not
admitted is rejected and changes nothing; one that is admitted appends its
variables to those of the body and, after any references to them, still serves
each further one. -/
theorem declared_slots (frame : Frame) (call : Place) (hasInitFlag : Bool) :
    (declareLocals frame call hasInitFlag =
      reading frame call (declarations hasInitFlag) >>= fun ((declared, init), taken) =>
        declare declared init call >>= fun _ => removeCall frame call taken) ∧
    ∀ (state : Rewriting) (declared : List LocalDeclaration) (init : Bool),
      (∃ failure, (declare declared init call).run state = .error failure state ∧
        ¬state.Admits declared ∧ state.Rejects declared call failure) ∨
      (∃ final, (declare declared init call).run state = .ok ⟨⟩ final ∧ state.Admits declared ∧
        (∃ added, List.Forall₂ LocalDeclaration.Adds declared added ∧ final.body =
          { state.body with locals := state.body.locals ++ added, initLocals := init }) ∧
        final.labels = state.labels ∧ final.symbols = state.symbols ∧
        ∀ references, (final.after references).body = final.body ∧
          (final.after references).Serves state.body.locals.length declared call references) := by
  refine ⟨rfl, fun state declared init => ?_⟩
  rcases declare_outcome state declared init call with
    ⟨failure, ran, rejects⟩ | ⟨admits, added, adds, ran⟩
  · exact .inl ⟨failure, ran, rejects.not_admits, rejects⟩
  · refine .inr ⟨_, ran, admits, ⟨added, adds, rfl⟩, rfl, rfl, fun references => ?_⟩
    have table : (declaredAfter state declared added init call).locals =
        some (.accessed state.body.locals.length declared call []) := by
      rw [LocalTable.accessed_nil]
      rfl
    rw [after_of_accessed admits.fit.distinct table references]
    exact ⟨rfl, serves_of_accessed admits.fit adds rfl rfl⟩

/-- A body with one variable of the compiler, before anything is declared. -/
def oneVariable : Rewriting where
  body := { locals := [{ type := Weave.emptyProgram.undefinedCoreType "System" "Int32" }] }
  symbols := Weave.emptyProgram

/-- A named variable that is pinned, and one without a name. -/
def pinnedAndAnonymous : List LocalDeclaration :=
  [{ name := some "source", type := Weave.emptyProgram.undefinedCoreType "System" "Byte"
     pinned := true },
   { name := none, type := Weave.emptyProgram.undefinedCoreType "System" "Int32" }]

/-- They get the slots after the variable of the compiler. Only the pinned one is
accessed, by its name, so the other one is reported; there is no third. -/
theorem declared_slots_oneVariable :
    ∃ final, (declare pinnedAndAnonymous true ⟨0⟩).run oneVariable = .ok ⟨⟩ final ∧
      (final.body.locals.map Local.isPinned = [false, true, false]) ∧
      (final.after [.named "source", .numbered 2]).Serves 1 pinnedAndAnonymous ⟨0⟩
        [.named "source", .numbered 2] ∧
      (final.after [.named "source", .numbered 2]).locals.map LocalTable.unused =
        some [(.unusedLocal none 1, ⟨0⟩)] := by
  have frame : Frame :=
    { settings := {}
      method := { name := "Run", returnType := Weave.emptyProgram.undefinedCoreType "System" "Void" }
      blocks := .ofBody {}
      mapsPoints := false }
  obtain ⟨failure, -, refused, -⟩ | ⟨final, ran, -, body, -, -, serves⟩ :=
    (declared_slots frame ⟨0⟩ true).2 oneVariable pinnedAndAnonymous true
  · exact absurd ⟨rfl, by decide, by decide, by decide⟩ refused
  · obtain ⟨-, served⟩ := serves [.named "source", .numbered 2]
    obtain ⟨added, adds, body⟩ := body
    obtain rfl := LocalDeclaration.forall₂_adds_iff.1 adds
    refine ⟨final, ran, ?_, served, ?_⟩
    · rw [body]
      rfl
    · rw [served.reports]
      rfl

end Rewrite

end InlineCil
