import InlineCil.Proofs.Pass
import Mathlib.Data.List.Forall2
import Mathlib.Data.List.Nodup

/-!
# Declaring local variables

A method may declare local variables for its markers, once and all together. A
declaration names a variable or leaves it without a name, gives its type, and may
pin it. What a body gets for a list of declarations is said here without regard
to how they are checked: one variable for each, in order, after those that the
body has.

Two things can stand in the way. No two variables may have one name, since a
marker could not tell them apart, and every variable needs an index of sixteen
bits. `LocalTable.room_of_check` and `LocalTable.cause_of_check` read the check
declaration by declaration, by induction on the list: one gives what declarations
that pass have, the other why those that fail were refused.
`Rewrite.declare_outcome` puts the two together. Either everything is declared,
or the failure names something that is really the matter and the state is the one
from before.
-/

namespace InlineCil

namespace LocalDeclaration

/-- The names in declarations. -/
def names (declared : List LocalDeclaration) : List String :=
  declared.filterMap LocalDeclaration.name

/-- What a declaration adds to a body: a variable of its name, if it has one, and
of its type, which is wrapped if the variable is pinned. -/
structure Adds (d : LocalDeclaration) (added : Local) : Prop where
  name : added.name = d.name
  plain : d.pinned = false → added.type = d.type
  pinned : d.pinned = true → added.type = .pinned d.type

/-- Declarations fit after some variables: no two have one name, and an index has
room for the slot of each and for the number of variables before them. -/
structure Fit (base : Nat) (declared : List LocalDeclaration) : Prop where
  distinct : (names declared).Nodup
  free : base < LocalTable.capacity
  room : base + declared.length ≤ LocalTable.capacity

/-- One variable alone is what a declaration adds: a variable has no more than a
name and a type. So what `LocalDeclaration.Adds` spells out, field by field, is
what `LocalTable.variableOf` makes. -/
theorem adds_iff {d : LocalDeclaration} {added : Local} :
    d.Adds added ↔ added = LocalTable.variableOf d := by
  constructor
  · intro adds
    obtain ⟨name, type⟩ := added
    obtain rfl : name = d.name := adds.name
    cases pinned : d.pinned with
    | false => simp [LocalTable.variableOf, pinned, show type = d.type from adds.plain pinned]
    | true =>
      simp [LocalTable.variableOf, pinned, show type = .pinned d.type from adds.pinned pinned]
  · rintro rfl
    exact ⟨rfl, fun plain => by simp [LocalTable.variableOf, plain],
      fun pinned => by simp [LocalTable.variableOf, pinned]⟩

theorem forall₂_adds_iff {declared : List LocalDeclaration} {added : List Local} :
    List.Forall₂ Adds declared added ↔ added = declared.map LocalTable.variableOf := by
  induction declared generalizing added with
  | nil => simp
  | cons d rest ih => cases added <;> simp [adds_iff, ih]

end LocalDeclaration

/-- Variables can be declared: none are yet, and they fit after those of the
body. -/
structure Rewriting.Admits (state : Rewriting) (declared : List LocalDeclaration) : Prop where
  undeclared : state.locals = none
  fit : LocalDeclaration.Fit state.body.locals.length declared

/-- Why variables cannot be declared: some are already, there is no room, or a
name comes twice. -/
inductive Rewriting.Rejects (state : Rewriting) (declared : List LocalDeclaration)
    (call : Place) : Failure → Prop where
  | again (earlier : state.locals.isSome = true) :
      Rejects state declared call (.causedAt .localsRepeated call)
  | full (undeclared : state.locals = none)
      (occupied : LocalTable.capacity ≤ state.body.locals.length) :
      Rejects state declared call (.ofFault (.tooManyLocals state.body.locals.length))
  | crowded (excess : LocalTable.capacity < state.body.locals.length + declared.length) :
      Rejects state declared call (.causedAt .tooManyLocals call)
  | repeated {name : String} (twice : 2 ≤ (LocalDeclaration.names declared).count name) :
      Rejects state declared call (.causedAt (.localRepeated name) call)

/-- What is rejected is not admitted: each reason for a refusal denies one of the
things that are asked of declarations. -/
theorem Rewriting.Rejects.not_admits {state : Rewriting} {declared : List LocalDeclaration}
    {call : Place} {failure : Failure} (rejects : state.Rejects declared call failure) :
    ¬state.Admits declared := by
  intro admits
  cases rejects with
  | again earlier => simp [admits.undeclared] at earlier
  | full _ occupied => exact absurd occupied (Nat.not_le.2 admits.fit.free)
  | crowded excess => exact absurd admits.fit.room (Nat.not_le.2 excess)
  | @repeated name twice =>
    exact absurd (List.nodup_iff_count_le_one.1 admits.fit.distinct name) (Nat.not_le.2 twice)

namespace LocalTable

variable {declared : List LocalDeclaration} {seen : List String} {index : Nat}

/-- Declarations that pass have room, and names that are new.

By induction on the declarations. What was seen grows by the name of each, so the
names that come later are told apart from it and from each other. -/
theorem room_of_check (start : index ≤ capacity) (passes : check seen index declared = .ok ()) :
    index + declared.length ≤ capacity ∧ (LocalDeclaration.names declared).Nodup ∧
      ∀ name ∈ LocalDeclaration.names declared, name ∉ seen := by
  induction declared generalizing seen index with
  | nil => simpa [LocalDeclaration.names] using start
  | cons d rest ih =>
    unfold check at passes
    split at passes
    · simp at passes
    next below =>
    have next : index + 1 ≤ capacity := Nat.not_le.1 below
    split at passes
    · next anonymous =>
      obtain ⟨room, distinct, fresh⟩ := ih next passes
      have names : LocalDeclaration.names (d :: rest) = LocalDeclaration.names rest :=
        List.filterMap_cons_none anonymous
      exact ⟨by simp only [List.length_cons]; omega, names ▸ distinct, names ▸ fresh⟩
    · next name named =>
      split at passes
      · simp at passes
      next new =>
      obtain ⟨room, distinct, fresh⟩ := ih next passes
      have names : LocalDeclaration.names (d :: rest) = name :: LocalDeclaration.names rest :=
        List.filterMap_cons_some named
      rw [names]
      refine ⟨by simp only [List.length_cons]; omega, List.nodup_cons.2 ⟨?_, distinct⟩,
        List.forall_mem_cons.2 ⟨by simpa using new, ?_⟩⟩
      · exact fun later => fresh name later List.mem_cons_self
      · exact fun other later among => fresh other later (List.mem_cons_of_mem _ among)

/-- Declarations that do not pass have no room, or a name comes twice.

The check stops at the first declaration that is refused, but what it says is
true of the whole list: what was seen before it and its own name are both among
the names. -/
theorem cause_of_check {cause : Cause} (fails : check seen index declared = .error cause) :
    (cause = .tooManyLocals ∧ capacity < index + declared.length) ∨
      ∃ name, cause = .localRepeated name ∧
        2 ≤ (seen ++ LocalDeclaration.names declared).count name := by
  induction declared generalizing seen index with
  | nil => simp [check] at fails
  | cons d rest ih =>
    unfold check at fails
    split at fails
    · next beyond =>
      refine .inl ⟨(Except.error.inj fails).symm, ?_⟩
      simp only [List.length_cons]
      omega
    split at fails
    · next anonymous =>
      have names : LocalDeclaration.names (d :: rest) = LocalDeclaration.names rest :=
        List.filterMap_cons_none anonymous
      refine (ih fails).imp (fun crowded => ⟨crowded.1, ?_⟩) fun repeated => names ▸ repeated
      simpa [Nat.add_right_comm, Nat.add_assoc] using crowded.2
    · next name named =>
      have names : LocalDeclaration.names (d :: rest) = name :: LocalDeclaration.names rest :=
        List.filterMap_cons_some named
      rw [names]
      split at fails
      · next known =>
        refine .inr ⟨name, (Except.error.inj fails).symm, ?_⟩
        have before : 0 < seen.count name := List.count_pos_iff.2 (by simpa using known)
        rw [List.count_append, List.count_cons_self]
        omega
      · refine (ih fails).imp (fun crowded => ⟨crowded.1, ?_⟩) fun ⟨other, same, twice⟩ =>
          ⟨other, same, ?_⟩
        · simpa [Nat.add_right_comm, Nat.add_assoc] using crowded.2
        · exact (List.perm_middle.count_eq other).symm ▸ twice

end LocalTable

namespace Rewrite

variable {state final : Rewriting} {declared : List LocalDeclaration} {init : Bool} {call : Place}

/-- The state after a declaration: the variables that are added come after those
of the body, and the table holds their names, none of them accessed. -/
def declaredAfter (state : Rewriting) (declared : List LocalDeclaration) (added : List Local)
    (init : Bool) (call : Place) : Rewriting :=
  { state with
    body := { state.body with locals := state.body.locals ++ added, initLocals := init }
    locals := some
      ⟨state.body.locals.length, declared.map fun d => { name := d.name }, call⟩ }

/-- Variables are declared, or rejected for a reason while nothing changes.

A declaration is refused in the order in which the step looks: an earlier
declaration, a body that is full, and then what the check finds. A check that
passes gives what is admitted. -/
theorem declare_outcome (state : Rewriting) (declared : List LocalDeclaration) (init : Bool)
    (call : Place) :
    (∃ failure, (declare declared init call).run state = .error failure state ∧
      state.Rejects declared call failure) ∨
    (state.Admits declared ∧ ∃ added, List.Forall₂ LocalDeclaration.Adds declared added ∧
      (declare declared init call).run state =
        .ok ⟨⟩ (declaredAfter state declared added init call)) := by
  unfold declare
  rw [Steps.run_bind, Steps.run_get]
  dsimp only
  split
  · next again => exact .inl ⟨_, rfl, .again again⟩
  next new =>
  split
  · next occupied => exact .inl ⟨_, rfl, .full (by simpa using new) occupied⟩
  next free =>
  cases checked : LocalTable.check [] state.body.locals.length declared with
  | error cause =>
    have refused : LocalTable.declare state.body.locals.length declared call = .error cause := by
      rw [LocalTable.declare, checked]
      rfl
    rw [refused]
    rcases LocalTable.cause_of_check checked with ⟨rfl, excess⟩ | ⟨name, rfl, twice⟩
    · exact .inl ⟨_, rfl, .crowded excess⟩
    · exact .inl ⟨_, rfl, .repeated twice⟩
  | ok passes =>
    have free : state.body.locals.length < LocalTable.capacity := Nat.not_le.1 free
    obtain ⟨room, distinct, -⟩ := LocalTable.room_of_check (Nat.le_of_lt free) checked
    have accepted : LocalTable.declare state.body.locals.length declared call =
        .ok ⟨state.body.locals.length, declared.map fun d => { name := d.name }, call⟩ := by
      rw [LocalTable.declare, checked]
      rfl
    rw [accepted]
    exact .inr ⟨⟨by simpa using new, distinct, free, room⟩, _,
      LocalDeclaration.forall₂_adds_iff.2 rfl, rfl⟩

/-- What is admitted is declared, since everything that is rejected is not
admitted. -/
theorem run_declare (admits : state.Admits declared) (init : Bool) (call : Place) :
    ∃ added, List.Forall₂ LocalDeclaration.Adds declared added ∧
      (declare declared init call).run state =
        .ok ⟨⟩ (declaredAfter state declared added init call) := by
  rcases declare_outcome state declared init call with ⟨failure, -, rejects⟩ | ⟨-, declares⟩
  · exact absurd admits rejects.not_admits
  · exact declares

/-- Whatever was declared was admitted. The rules that go on after a declaration
need no more than this of it. -/
theorem declare_eq_ok {done : Unit}
    (ran : (declare declared init call).run state = .ok done final) :
    state.Admits declared ∧ ∃ added, List.Forall₂ LocalDeclaration.Adds declared added ∧
      final = declaredAfter state declared added init call := by
  rcases declare_outcome state declared init call with
    ⟨failure, refused, -⟩ | ⟨admits, added, adds, declares⟩
  · rw [refused] at ran
    simp at ran
  · rw [declares] at ran
    exact ⟨admits, added, adds, by simpa using ran.symm⟩

end Rewrite

end InlineCil
