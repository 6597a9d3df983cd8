import InlineCil.Proofs.Arrays
import InlineCil.Proofs.Expression.Inheritance
import InlineCil.Proofs.Expression.Soundness
import InlineCil.Proofs.Loading

/-!
# Well-composed types

Types are composed step by step, and each step looks at its operands alone:
nothing is built over a reference to a storage location, ranks of arrays are
bounded, and an instance has an argument for each parameter of its definition. A
step refuses exactly what would break a rule, so whatever an expression composes
from well-composed types is well composed, however deep it is. Definitions are
looked up while types are read; what was found is kept, so an instance stays
right.

`TypeSig.WellComposed` states the rules for a whole signature, given how many
parameters definitions have. The first half goes through the steps. Each lemma
says that on well-composed operands a step succeeds exactly if its result is well
composed, so no step is too lenient or too strict.

An instance asks for the number of parameters of its definition, which is looked
up and may load modules. The second half is about what such lookups leave behind.
`Recalls` says that a definition once found stays the one found, which is enough
to carry well-composedness from part to whole. `Settled` symbols are those where
a lookup changes no answer at all, so that numbers of parameters are the same
before and after.
-/

namespace InlineCil

/-- How many parameters a definition has, if there is one. -/
abbrev Arities := TypeName → Option Nat

namespace TypeSig

/-- A reference to a storage location, perhaps under custom modifiers. -/
inductive IsReference : TypeSig → Prop where
  | byRef (element : TypeSig) : IsReference (.byRef element)
  | modified (required : Bool) (modifier element : TypeSig) (refers : IsReference element) :
      IsReference (.modified required modifier element)

/-- The rules of the type system hold everywhere in the signature. -/
inductive WellComposed (arity? : Arities) : TypeSig → Prop where
  | named (name : TypeName) : WellComposed arity? (.named name)
  | genericParameter (owner : GenericOwner) (index : Nat) :
      WellComposed arity? (.genericParameter owner index)
  | pointer (element : TypeSig) (composed : WellComposed arity? element)
      (direct : ¬element.IsReference) : WellComposed arity? (.pointer element)
  | byRef (element : TypeSig) (composed : WellComposed arity? element)
      (direct : ¬element.IsReference) : WellComposed arity? (.byRef element)
  | array (element : TypeSig) (rank : Nat) (composed : WellComposed arity? element)
      (direct : ¬element.IsReference) (positive : 1 ≤ rank) (bounded : rank ≤ 32) :
      WellComposed arity? (.array element rank)
  | genericInstance (definition : TypeName) (arguments : List TypeSig)
      (composed : ∀ argument ∈ arguments, WellComposed arity? argument)
      (direct : ∀ argument ∈ arguments, ¬argument.IsReference)
      (fits : arity? definition = some arguments.length) (several : arguments ≠ []) :
      WellComposed arity? (.genericInstance definition arguments)
  | modified (required : Bool) (modifier element : TypeSig)
      (modifying : WellComposed arity? modifier) (composed : WellComposed arity? element) :
      WellComposed arity? (.modified required modifier element)
  | pinned (element : TypeSig) (composed : WellComposed arity? element) :
      WellComposed arity? (.pinned element)

/-- Steps look for references through custom modifiers, as many as there are. By
recursion on the signature: only a modifier hides anything. -/
theorem isByRef_iff : (sig : TypeSig) → (sig.isByRef = true ↔ sig.IsReference)
  | .byRef element => ⟨fun _ => .byRef element, fun _ => rfl⟩
  | .modified required modifier element => by
      rw [isByRef, isByRef_iff element]
      exact ⟨.modified required modifier element, fun | .modified _ _ _ refers => refers⟩
  | .named _ | .genericParameter .. | .pointer _ | .array .. | .genericInstance .. | .pinned _ =>
      ⟨nofun, nofun⟩

@[simp] theorem isByRef_eq_false {sig : TypeSig} : sig.isByRef = false ↔ ¬sig.IsReference := by
  rw [← isByRef_iff, Bool.not_eq_true]

variable {arity? : Arities} {element modifier definition result : TypeSig}
  {arguments : List TypeSig} {name : TypeName}

/-- A pointer is refused exactly if it would break a rule: nothing points to a
reference. The element is well composed already, so the rule about the pointer
itself is all there is to check. -/
theorem pointerTo_eq_ok (composed : element.WellComposed arity?) :
    element.pointerTo = .ok result ↔ result = .pointer element ∧ result.WellComposed arity? := by
  unfold pointerTo
  constructor
  · intro made
    split at made
    · simp at made
    · next direct =>
      obtain rfl := Except.ok.inj made
      exact ⟨rfl, .pointer element composed (by simpa using direct)⟩
  · rintro ⟨rfl, obeys⟩
    cases obeys with
    | pointer _ _ direct => simp [isByRef_eq_false.2 direct]

/-- A reference is refused exactly if it would break a rule: there are no
references to references, also not behind custom modifiers of the element. -/
theorem byRefTo_eq_ok (composed : element.WellComposed arity?) :
    element.byRefTo = .ok result ↔ result = .byRef element ∧ result.WellComposed arity? := by
  unfold byRefTo
  constructor
  · intro made
    split at made
    · simp at made
    · next direct =>
      obtain rfl := Except.ok.inj made
      exact ⟨rfl, .byRef element composed (by simpa using direct)⟩
  · rintro ⟨rfl, obeys⟩
    cases obeys with
    | byRef _ _ direct => simp [isByRef_eq_false.2 direct]

/-- An array is refused exactly if it would break a rule, for its elements or for
its rank. The rank is read as an integer, and within its bounds the conversion to
a number loses nothing. -/
theorem arrayOf_eq_ok (composed : element.WellComposed arity?) (rank : Int) :
    element.arrayOf rank = .ok result ↔
      result = .array element rank.toNat ∧ result.WellComposed arity? := by
  unfold arrayOf greatestRank
  constructor
  · intro made
    split at made
    · simp at made
    next direct =>
    split at made
    · simp at made
    next ranked =>
    obtain rfl := Except.ok.inj made
    have bounds : ¬(rank < 1 ∨ 32 < rank) := by simpa using ranked
    exact ⟨rfl, .array element _ composed (by simpa using direct) (by omega) (by omega)⟩
  · rintro ⟨rfl, obeys⟩
    cases obeys with
    | array _ _ _ direct positive bounded =>
      have bounds : ¬(rank < 1 ∨ 32 < rank) := by omega
      simp [isByRef_eq_false.2 direct, bounds]

/-- Arguments pass if none of them is a reference. References are found behind
custom modifiers too, as everywhere else in the rules. -/
theorem checkGenericArguments_eq_ok :
    checkGenericArguments arguments = .ok () ↔
      ∀ argument ∈ arguments, ¬argument.IsReference := by
  unfold checkGenericArguments
  cases found : arguments.find? isByRef with
  | none =>
    have none := List.find?_eq_none.1 found
    simpa using none
  | some argument =>
    have refers := List.find?_some found
    have among := List.mem_of_find?_eq_some found
    constructor
    · intro made
      simp at made
    · intro direct
      exact absurd ((isByRef_iff argument).1 refers) (direct argument among)

/-- An instance is made if there are as many arguments as parameters, and some,
and none of them is a reference. The definition is only mentioned in failures. -/
theorem instantiate_eq_ok {expected : Nat} :
    instantiate definition name expected arguments = .ok result ↔
      result = .genericInstance name arguments ∧ arguments.length = expected ∧ arguments ≠ [] ∧
        ∀ argument ∈ arguments, ¬argument.IsReference := by
  unfold instantiate
  by_cases empty : expected = 0
  · subst empty
    simp only [if_true, List.length_eq_zero_iff]
    constructor
    · intro made
      cases made
    · rintro ⟨-, nothing, several, -⟩
      contradiction
  by_cases same : arguments.length = expected
  · have several : arguments ≠ [] := by
      rintro rfl
      exact empty same.symm
    simp only [empty, same, several, if_false, ne_eq, not_true_eq_false, not_false_eq_true,
      true_and, ← checkGenericArguments_eq_ok]
    cases checkGenericArguments arguments with
    | error failure => simp [bind, Except.bind]
    | ok _ => simp [bind, Except.bind, pure, Except.pure, eq_comm]
  · simp [empty, same, throw, throwThe, MonadExceptOf.throw, bind, Except.bind]

/-- So an instance of a definition with known parameters is refused exactly if it
would break a rule. -/
theorem instantiate_eq_ok_of_known (composed : ∀ argument ∈ arguments, argument.WellComposed arity?)
    {expected : Nat} (known : arity? name = some expected) :
    instantiate definition name expected arguments = .ok result ↔
      result = .genericInstance name arguments ∧ result.WellComposed arity? := by
  rw [instantiate_eq_ok]
  constructor
  · rintro ⟨rfl, fits, several, direct⟩
    exact ⟨rfl, .genericInstance name arguments composed direct (fits ▸ known) several⟩
  · rintro ⟨rfl, obeys⟩
    cases obeys with
    | genericInstance _ _ _ direct fits several =>
      exact ⟨rfl, Option.some.inj (fits.symm.trans known), several, direct⟩

/-- Only an uninstantiated type can be the definition of an instance. -/
theorem genericDefinition_eq_ok : genericDefinition definition = .ok name ↔
    definition = .named name := by
  cases definition <;> simp [genericDefinition]

end TypeSig

namespace Symbols

variable {s left later : Symbols} {name : TypeName} {type : TypeDef}

/-- How many parameters the definition behind a name has, if it is found. -/
def arity? (s : Symbols) (name : TypeName) : Option Nat :=
  match (resolve name).run s with
  | .ok type _ => some type.genericParameters.length
  | .error _ _ => none

/-- A definition that was found has the number of parameters that it was found
with. -/
theorem arity?_of_run (found : (resolve name).run s = .ok type left) :
    s.arity? name = some type.genericParameters.length := by
  rw [arity?, found]

/-- Every type that was found is still kept. -/
def Recalls (later s : Symbols) : Prop :=
  ∀ key found, s.types.lookup key = some found → later.types.lookup key = some found

theorem Recalls.refl (s : Symbols) : s.Recalls s := fun _ _ kept => kept

theorem Recalls.trans (second : later.Recalls left) (first : left.Recalls s) : later.Recalls s :=
  fun key found kept => second key found (first key found kept)

/-- A step that fails for any reason and leaves symbols related to those before. -/
def leaving (reaches : Symbols → Symbols → Prop) (refl : ∀ s, reaches s s)
    (trans : ∀ {s middle left}, reaches s middle → reaches middle left → reaches s left) :
    Promise Failure Symbols where
  reaches := reaches
  admits _ _ := True
  refl := refl
  trans := trans
  admits_of_reaches _ _ := trivial

/-- Where any failure is admitted, only lookups matter, since all other steps
leave the symbols as they are. -/
theorem inherited_of_admits {p : Promise Failure Symbols} (admits : ∀ s failure, p.admits s failure)
    (kept : ∀ assembly fullName, p.KeptBy (lookup assembly fullName)) :
    Inherited fun _ => p.KeptBy where
  pure := Promise.keptBy_pure
  throw _ := Promise.keptBy_throw fun s => admits s _
  bind kept keeps := kept.bind keeps
  lookup := kept

/-- The types found so far stay as they are. -/
def unlearning : Promise Failure Symbols :=
  leaving (fun s left => left.types = s.types) (fun _ => rfl) fun first second => second.trans first

/-- The types found so far stay, and others may come. -/
def recalling : Promise Failure Symbols :=
  leaving (fun s left => left.Recalls s) Recalls.refl fun first second => second.trans first

/-- Loading a module finds no types. What it changes are the modules and what the
loader keeps, and those say nothing of the types found so far. -/
theorem unlearning_loadModule (path : String) : unlearning.KeptBy (loadModule path) := by
  intro s
  unfold Steps.Meets
  cases loads : s.loader with
  | none =>
    have refused : (loadModule path).run s = .error (.settings .noReader) s := by
      rw [loadModule, Steps.run_bind, Steps.run_get]
      simp [loads]
    rw [refused]
    exact ⟨rfl, trivial⟩
  | some cache =>
    rw [run_loadModule loads]
    cases (cache.load path).1 with
    | ok module => rfl
    | error failure => exact ⟨rfl, trivial⟩

/-- Asking for a module, loaded or not, finds no types. Proof: by what answers
the request, which is the registered module, the search paths or nothing. -/
theorem unlearning_module (assembly : String) : unlearning.KeptBy (module assembly) := by
  intro s
  have loaded (path : String) := unlearning_loadModule path s
  unfold Steps.Meets at loaded ⊢
  rw [run_module_by]
  cases s.registered? (simpleName assembly) with
  | some module => rfl
  | none =>
    cases s.candidate? (simpleName assembly) with
    | none => exact ⟨rfl, trivial⟩
    | some path => exact loaded path

/-- Nor does the search for a type keep what it finds. By induction on the
modules searched. Only the lookup around it does, and only after the search has
come to an end. -/
theorem unlearning_search (type : String) (steps : Nat) (assembly : String) :
    unlearning.KeptBy (search type steps assembly) := by
  have throws {α : Type} (failure : Failure) : unlearning.KeptBy (throw failure : Resolving α) :=
    Promise.keptBy_throw fun _ => trivial
  induction steps generalizing assembly with
  | zero => exact throws _
  | succ steps ih =>
    unfold search
    refine ((unlearning_module assembly).rethrow fun _ _ _ => trivial).bind fun module => ?_
    split
    · exact Promise.keptBy_pure _
    · split
      · exact ih _
      · exact throws _

/-- A lookup keeps the type that it finds, and all others. What it finds was not
known before, so nothing is replaced. -/
theorem recalling_lookup (assembly fullName : String) :
    recalling.KeptBy (lookup assembly fullName) := by
  intro s
  have searched := unlearning_search (key assembly fullName).2 forwardingLimit assembly s
  unfold Steps.Meets at searched ⊢
  rw [run_lookup_by]
  cases unknown : s.types.lookup (key assembly fullName) with
  | some found => exact Recalls.refl s
  | none =>
    dsimp only
    cases ran : (search (key assembly fullName).2 forwardingLimit assembly).run s with
    | error failure left =>
      rw [ran] at searched
      obtain ⟨same, -⟩ := searched
      exact ⟨fun other found kept => by rw [same, kept], trivial⟩
    | ok found left =>
      rw [ran] at searched
      have same : left.types = s.types := searched
      intro other held kept
      rw [Steps.lookup_cons, same]
      have apart : other ≠ key assembly fullName := by
        rintro rfl
        rw [kept] at unknown
        contradiction
      rw [if_neg apart, kept]

theorem inherited_recalling : Inherited fun _ => recalling.KeptBy :=
  inherited_of_admits (fun _ _ => trivial) recalling_lookup

/-- A definition that was found is kept under the names that it was asked for,
whether it was kept before or is new. So whoever resolves a name again is told
the same definition. -/
theorem exists_kept_of_resolve (found : (resolve name).run s = .ok type left) :
    ∃ bound, left.types.lookup (key name.scope name.fullName) = some bound ∧
      bound.definition = type := by
  obtain ⟨bound, middle, looked, ended⟩ := Steps.run_bind_ok.1 found
  obtain ⟨rfl, rfl⟩ := by simpa using ended
  rw [run_lookup_by] at looked
  refine ⟨bound, ?_, rfl⟩
  cases known : s.types.lookup (key name.scope name.fullName) with
  | some other =>
    obtain ⟨rfl, rfl⟩ := by simpa [known] using looked
    exact known
  | none =>
    rw [known] at looked
    dsimp only at looked
    split at looked
    · obtain ⟨rfl, rfl⟩ := by simpa using looked
      rw [Steps.lookup_cons, if_pos rfl]
    · simp at looked

/-- As long as a definition is kept, it has the parameters that it was found
with. Asking again is answered from what is kept, without a search. -/
theorem arity?_of_recalls (found : (resolve name).run s = .ok type left)
    (recalls : later.Recalls left) :
    later.arity? name = some type.genericParameters.length := by
  obtain ⟨bound, kept, rfl⟩ := exists_kept_of_resolve found
  have again : (lookup name.scope name.fullName).run later = .ok bound later := by
    rw [run_lookup_by, recalls _ _ kept]
  have resolved : (resolve name).run later = .ok bound.definition later := by
    rw [resolve, Steps.run_bind, again]
    rfl
  exact arity?_of_run resolved

/-- What is found does not depend on what was found before: nothing loads
modules, or those that may be loaded are coherent. -/
def Settled (s : Symbols) : Prop :=
  s.loader = none ∨ ∃ start, Coherent start Set.univ ∧ Grown start Set.univ s

/-- Settled symbols stay settled, and every definition keeps the parameters that
it has. -/
def steady : Promise Failure Symbols :=
  leaving (fun s left => s.Settled → left.Settled ∧ left.arity? = s.arity?)
    (fun _ settled => ⟨settled, rfl⟩) fun first second settled =>
      have ⟨still, same⟩ := first settled
      have ⟨last, again⟩ := second still
      ⟨last, again.trans same⟩

/-- The number of parameters is read off the answer to a lookup, which may be
known without running it. -/
theorem arity?_eq_answer (s : Symbols) (name : TypeName) :
    s.arity? name = (answer (resolve name) s).toOption.map (·.genericParameters.length) := by
  unfold arity? answer
  cases (resolve name).run s <;> rfl

/-- Without a loader, a definition is the one kept or the one that the search
finds. So the parameters of a name are told by the modules and by what has been
kept. -/
theorem arity?_of_unloaded (unloaded : s.loader = none) (name : TypeName) :
    s.arity? name = ((s.types.lookup (key name.scope name.fullName)).or
      (searched s.modules (key name.scope name.fullName).2 forwardingLimit
        name.scope).toOption).map (·.definition.genericParameters.length) := by
  rw [arity?, resolve, Steps.run_bind, run_lookup unloaded]
  cases s.types.lookup (key name.scope name.fullName) with
  | some found => rfl
  | none =>
    cases searched s.modules (key name.scope name.fullName).2 forwardingLimit name.scope <;> rfl

/-- A type that is kept from now on is the one that the search finds, so keeping
it changes no number of parameters. -/
theorem arity?_of_kept (unloaded : s.loader = none) {assembly fullName : String}
    {found : BoundType} (unknown : s.types.lookup (key assembly fullName) = none)
    (finds : searched s.modules (key assembly fullName).2 forwardingLimit assembly = .ok found) :
    arity? { s with types := (key assembly fullName, found) :: s.types } = s.arity? := by
  funext name
  rw [arity?_of_unloaded unloaded, arity?_of_unloaded (by exact unloaded)]
  dsimp only
  rw [Steps.lookup_cons]
  split
  · next same =>
    have spelled : Text.lowered name.scope = Text.lowered assembly := congrArg Prod.fst same
    rw [same, unknown, toOption_searched_congr spelled, finds]
    rfl
  · rfl

/-- A lookup in settled symbols changes no answer. Without a loader it keeps what
the search would find again; with coherent modules it may load more of them,
which answer as before. -/
theorem steady_leftBy_lookup (assembly fullName : String) (settled : s.Settled) :
    (leftBy (lookup assembly fullName) s).Settled ∧
      (leftBy (lookup assembly fullName) s).arity? = s.arity? := by
  obtain unloaded | ⟨start, coherent, grown⟩ := settled
  · unfold leftBy
    rw [run_lookup unloaded]
    cases unknown : s.types.lookup (key assembly fullName) with
    | some found => exact ⟨.inl unloaded, rfl⟩
    | none =>
      dsimp only
      cases finds : searched s.modules (key assembly fullName).2 forwardingLimit assembly with
      | ok found => exact ⟨.inl unloaded, arity?_of_kept unloaded unknown finds⟩
      | error failure => exact ⟨.inl unloaded, rfl⟩
  · obtain ⟨left, still, ran⟩ := grown.run_lookup coherent (Set.mem_univ assembly) fullName
    rw [(answer_of_run ran).2]
    refine ⟨.inr ⟨start, coherent, still⟩, funext fun name => ?_⟩
    have alike := (still.answerAlike grown coherent).resolve name (Set.mem_univ name.scope)
    rw [arity?_eq_answer, arity?_eq_answer, alike]

/-- A lookup keeps settled symbols settled, whether it succeeds or fails.
Definitions that were found keep the parameters that they have. -/
theorem steady_lookup (assembly fullName : String) : steady.KeptBy (lookup assembly fullName) := by
  intro s
  have kept (settled : s.Settled) := steady_leftBy_lookup assembly fullName settled
  unfold leftBy at kept
  unfold Steps.Meets
  cases ran : (lookup assembly fullName).run s with
  | ok found left =>
    rw [ran] at kept
    exact kept
  | error failure left =>
    rw [ran] at kept
    exact ⟨kept, trivial⟩

theorem inherited_steady : Inherited fun _ => steady.KeptBy :=
  inherited_of_admits (fun _ _ => trivial) steady_lookup

end Symbols

/-- An instance is made exactly if its definition is an uninstantiated type that
is found and the instance would break no rule. How many parameters there are is
given by the definition that this very lookup finds. -/
theorem TypeSig.instanceOf_eq_ok {arity? : Arities} {definition result : TypeSig}
    {arguments : List TypeSig} {s left : Symbols}
    (composed : ∀ argument ∈ arguments, argument.WellComposed arity?)
    (known : ∀ name type, (Symbols.resolve name).run s = .ok type left →
      arity? name = some type.genericParameters.length) :
    (definition.instanceOf arguments).run s = .ok result left ↔
      ∃ name type, definition = .named name ∧ (Symbols.resolve name).run s = .ok type left ∧
        result = .genericInstance name arguments ∧ result.WellComposed arity? := by
  rw [instanceOf, Steps.run_bind_ok]
  constructor
  · rintro ⟨name, middle, named, made⟩
    obtain ⟨isNamed, rfl⟩ := Steps.run_liftExcept_eq_ok.1 named
    obtain ⟨type, last, found, formed⟩ := Steps.run_bind_ok.1 made
    obtain ⟨fits, rfl⟩ := Steps.run_liftExcept_eq_ok.1 formed
    obtain ⟨rfl, obeys⟩ := (instantiate_eq_ok_of_known composed (known name type found)).1 fits
    exact ⟨name, type, genericDefinition_eq_ok.1 isNamed, found, rfl, obeys⟩
  · rintro ⟨name, type, rfl, found, made⟩
    have counted := known name type found
    refine ⟨name, s, rfl, Steps.run_bind_ok.2 ⟨type, left, found, ?_⟩⟩
    exact Steps.run_liftExcept_eq_ok.2 ⟨(instantiate_eq_ok_of_known composed counted).2 made, rfl⟩

end InlineCil
