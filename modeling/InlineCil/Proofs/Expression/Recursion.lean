import InlineCil.Proofs.Expression.Restraint
import Mathlib.Logic.Function.Iterate

/-!
# Readers without a bound

Readers call themselves and each other and loop over the elements of arrays, up
to a bound. Here the bound is taken away. Every step takes an instruction before
it goes on to other readers, so what it does with some lines ahead depends on
them only where fewer lines are ahead. Hence the readers that do one step and
leave the rest to each other exist and are unique, and the bounded ones are them
wherever no more lines are ahead than the bound.

`Agree n` compares two readers on states with fewer than `n` lines ahead. Steps
keep agreement, and a step that takes a line raises `n` by one: this is the whole
argument, and the lemmas on single steps follow the definitions of the readers
one by one. From it come the uniqueness of a fixed point of `Readers.next`, by
induction on the lines ahead, and the existence of one as the limit of its
iterates.

The bounded readers appear only at the end. Being iterates of the same step
themselves, they agree with the fixed point as long as the bound lasts, and the
rules of a pass call them with as many rounds as there are lines before the call.
-/

namespace InlineCil

namespace Reader

variable {site : Site} {α β : Type} {n m : Nat}

/-- Two readers do the same wherever fewer lines are ahead, and put no line back. -/
def Agree (n : Nat) (one other : Reader α) : Prop :=
  ∀ state, state.ahead.length < n → one.run state = other.run state ∧
    Steps.Meets one state (fun _ left => left.ahead.length ≤ state.ahead.length)
      fun _ left => left.ahead.length ≤ state.ahead.length

variable {one other another : Reader α}

theorem Agree.mono (agree : Agree n one other) (fewer : m ≤ n) : Agree m one other :=
  fun state inside => agree state (Nat.lt_of_lt_of_le inside fewer)

/-- Agreement goes both ways, for the readers end in the same states. So what one
of them leaves ahead is what the other one leaves. -/
theorem Agree.symm (agree : Agree n one other) : Agree n other one := by
  intro state inside
  obtain ⟨same, recedes⟩ := agree state inside
  refine ⟨same.symm, ?_⟩
  unfold Steps.Meets at recedes ⊢
  rwa [← same]

/-- Agreement can be chained. That no line is put back is a property of the first
reader, so it needs to be known only once. -/
theorem Agree.trans (agree : Agree n one other) (next : Agree n other another) :
    Agree n one another := fun state inside =>
  ⟨(agree state inside).1.trans (next state inside).1, (agree state inside).2⟩

/-- All readers agree where fewer than no lines are ahead. This is where
inductions on the number of lines begin. -/
theorem agree_zero (one other : Reader α) : Agree 0 one other := fun _ inside =>
  absurd inside (Nat.not_lt_zero _)

/-- Readers that agree for every number of lines are the same, because any state
has some number of lines ahead. -/
theorem eq_of_agree (agree : ∀ n, Agree n one other) : one = other :=
  funext fun state => (agree (state.ahead.length + 1) state (Nat.lt_succ_self _)).1

theorem agree_pure (value : α) : Agree n (pure value) (pure value) := fun _ _ =>
  ⟨rfl, Nat.le_refl _⟩

theorem agree_throw (failure : Failure) : Agree n (throw failure : Reader α) (throw failure) :=
  fun _ _ => ⟨rfl, Nat.le_refl _⟩

/-- What would come after a failure does not matter, so the two may go on to
readers that do not agree at all. -/
theorem agree_throw_bind (failure : Failure) {next follow : α → Reader β} :
    Agree n (throw failure >>= next) (throw failure >>= follow) := fun _ _ => ⟨rfl, Nat.le_refl _⟩

theorem agree_liftExcept (outcome : Except Failure α) :
    Agree n (liftExcept outcome) (liftExcept outcome) := fun _ _ =>
  ⟨rfl, Steps.meets_liftExcept (fun _ _ => Nat.le_refl _) fun _ _ => Nat.le_refl _⟩

/-- A lookup takes no line, since it sees the symbols only. So it agrees with
itself however few lines are ahead. -/
theorem agree_resolving (step : Resolving α) : Agree n (resolving step) (resolving step) := by
  intro state inside
  refine ⟨rfl, ?_⟩
  unfold Steps.Meets
  rw [run_resolving]
  cases step.run state.symbols <;> exact Nat.le_refl _

theorem agree_get {next follow : Reading → Reader α}
    (rest : ∀ state, Agree n (next state) (follow state)) :
    Agree n (get >>= next) (get >>= follow) := fun state inside => rest state state inside

/-- Readers that agree may be followed by readers that agree: the second ones
find no more lines ahead than the first ones did. -/
theorem Agree.bind {next follow : α → Reader β} (first : Agree n one other)
    (rest : ∀ value, Agree n (next value) (follow value)) :
    Agree n (one >>= next) (other >>= follow) := by
  intro state inside
  obtain ⟨same, recedes⟩ := first state inside
  have after (value : α) (left : Reading) (ran : one.run state = .ok value left) :=
    rest value left (Nat.lt_of_le_of_lt (recedes.ok ran) inside)
  constructor
  · rw [Steps.run_bind, Steps.run_bind, ← same]
    cases ran : one.run state with
    | ok value left => exact (after value left ran).1
    | error failure left => rfl
  · refine recedes.bind fun value left ran shorter => ?_
    exact (after value left ran).2.mono (fun _ _ further => Nat.le_trans further shorter)
      fun _ _ further => Nat.le_trans further shorter

theorem Agree.map (change : α → β) (agree : Agree n one other) :
    Agree n (change <$> one) (change <$> other) := by
  rw [← bind_pure_comp, ← bind_pure_comp]
  exact agree.bind fun value => agree_pure (change value)

/-- Giving failures a place changes neither what is taken nor what is read, so
agreement is kept. -/
theorem Agree.located (place : Place) (agree : Agree n one other) :
    Agree n (Reader.located place one) (Reader.located place other) := by
  intro state inside
  obtain ⟨same, recedes⟩ := agree state inside
  unfold Reader.located
  rw [Steps.run_tryCatch, Steps.run_tryCatch, same]
  exact ⟨rfl, Steps.meets_rethrow recedes⟩

/-- An argument that may be missing is read by readers that agree, or by none. -/
theorem Agree.optional (present : Bool) (agree : Agree n one other) :
    Agree n (Reader.optional present one) (Reader.optional present other) := by
  cases present with
  | true => exact agree.map some
  | false => exact agree_pure none

/-- What comes after a line was taken has one line less ahead. So readers that
agree for `n` lines agree for one more behind it. -/
theorem agree_take {next follow : Line → Reader α}
    (rest : ∀ line, Agree n (next line) (follow line)) :
    Agree (n + 1) (take site >>= next) (take site >>= follow) := by
  rintro ⟨ahead, taken, symbols⟩ inside
  unfold Steps.Meets
  rw [Steps.run_bind, Steps.run_bind]
  cases ahead with
  | nil => exact ⟨rfl, Nat.le_refl _⟩
  | cons line lines =>
    cases together : site.blocks.sameBlock line.place site.call.place with
    | false =>
      unfold take
      rw [Steps.run_bind, Steps.run_get]
      simp [together]
    | true =>
      rw [run_take line lines taken symbols together]
      obtain ⟨same, recedes⟩ := rest
        ⟨line.place, line.instruction.retarget line.place site.call.place⟩
        ⟨lines, taken ++ [line.place], symbols⟩ (Nat.lt_of_succ_lt_succ inside)
      exact ⟨same, recedes.mono (fun _ _ => Nat.le_succ_of_le) fun _ _ => Nat.le_succ_of_le⟩

/-- Where nothing is ahead the argument is missing, whatever would come after it. -/
theorem agree_missing (next : Line → Reader α) :
    Agree 1 (throw (missing site)) (take site >>= next) := by
  rintro ⟨ahead, taken, symbols⟩ inside
  obtain rfl : ahead = [] := List.eq_nil_of_length_eq_zero (Nat.lt_one_iff.1 inside)
  exact ⟨rfl, Nat.le_refl _⟩

/-- A text takes one instruction and goes on to no other reader. -/
theorem agree_string : Agree n (string site) (string site) := by
  refine (agree_take fun line => ?_).mono n.le_succ
  split
  · exact agree_pure _
  · exact agree_throw _

/-- A token of a type takes one instruction and goes on to no other reader. -/
theorem agree_typeToken : Agree n (typeToken site) (typeToken site) := by
  refine (agree_take fun line => ?_).mono n.le_succ
  split
  · exact agree_pure _
  · exact agree_throw _

/-- The owner of generic parameters takes one call and goes on to no other
reader. It agrees with itself under any choice. -/
theorem agree_parameterOwner : Agree n (parameterOwner site) (parameterOwner site) := by
  refine (agree_take fun line => (agree_liftExcept _).bind fun b => ?_).mono n.le_succ
  split
  · exact agree_pure _
  · exact agree_pure _
  · exact agree_throw _

section Steps

variable {constant constant' : Reader Constant} {integer integer' : Reader Int}

/-- A constant goes on only to what a conversion is applied to, after the
conversion was taken. -/
theorem agree_constantStep (nested : Agree n constant constant') :
    Agree (n + 1) (constantStep site constant) (constantStep site constant') := by
  refine agree_take fun line => ?_
  split
  · refine nested.bind fun value => ?_
    split
    · exact agree_pure _
    · exact agree_throw _
  · split
    · exact agree_pure _
    · exact agree_throw _

/-- A whole number is a constant that is looked at in the end. It takes nothing
itself, so it agrees on as many lines as the constant does. -/
theorem agree_integerStep (same : Agree n constant constant') :
    Agree n (integerStep constant) (integerStep constant') := by
  refine agree_get fun state => same.bind fun value => ?_
  cases value with
  | int32 number => exact agree_pure _
  | int64 number => exact agree_pure _
  | float number => exact agree_throw _

/-- A floating-point number is a constant that is widened in the end. -/
theorem agree_floatStep (same : Agree n constant constant') :
    Agree n (floatStep constant) (floatStep constant') := by
  refine same.bind fun value => ?_
  cases value <;> exact agree_pure _

variable {element element' : Reader α}
  {elements elements' : Reader (Place × List (Int × α))}

/-- The value and the index may be read by taking nothing, but not the rest: the
loop goes on only after the duplicate of the array and a store were taken. -/
theorem agree_elementsStep (values : Agree (n + 1) element element')
    (integers : Agree (n + 1) integer integer') (nested : Agree n elements elements') :
    Agree (n + 1) (elementsStep site element integer elements)
      (elementsStep site element' integer' elements') := by
  refine values.bind fun value => integers.bind fun index => agree_take fun duplicate => ?_
  dsimp only
  split
  · exact agree_throw_bind _
  · refine (agree_take fun line => ?_).mono n.le_succ
    split
    · exact agree_pure _
    · split
      · exact nested.bind fun found => agree_pure _
      · exact agree_throw _

/-- An array takes the call or the store that ends it before it goes on to its
elements and its length. So its parts need to agree on one line less. -/
theorem agree_arrayStep (nested : Agree n elements elements') (integers : Agree n integer integer') :
    Agree (n + 1) (arrayStep site elements integer) (arrayStep site elements' integer') := by
  refine agree_take fun line => ?_
  split
  · refine integers.bind fun count => ?_
    split
    · exact agree_pure _
    · exact agree_throw _
  · split
    · refine nested.bind fun found => integers.bind fun length => ?_
      split
      · exact agree_pure _
      · exact agree_throw _
    · refine (agree_liftExcept _).bind fun b => ?_
      split
      · exact agree_pure _
      · exact agree_throw _

variable {reflected reflected' type type' : Reader TypeSig}
  {types types' : Reader (List TypeSig)}

/-- A reflected type takes the call that composes it before it goes on to what
that is composed of. -/
theorem agree_reflectedTypeStep (integers : Agree n integer integer') (nested : Agree n type type')
    (arrays : Agree n types types') :
    Agree (n + 1) (reflectedTypeStep site integer type types)
      (reflectedTypeStep site integer' type' types') := by
  refine agree_take fun line => Agree.located _ ((agree_liftExcept _).bind fun b => ?_)
  split
  · exact agree_typeToken
  · exact nested.bind fun element => agree_liftExcept _
  · exact nested.bind fun element => agree_liftExcept _
  · exact nested.bind fun element => agree_liftExcept _
  · exact integers.bind fun rank => nested.bind fun element => agree_liftExcept _
  · exact arrays.bind fun arguments => nested.bind fun definition => agree_resolving _
  · exact agree_throw _

/-- A type reference takes its conversion or the call that composes it before it
goes on. Its four parts agree on what is ahead then, and nothing else in the step
depends on a choice. -/
theorem agree_typeStep (integers : Agree n integer integer')
    (reflection : Agree n reflected reflected') (nested : Agree n type type')
    (arrays : Agree n types types') :
    Agree (n + 1) (typeStep site integer reflected type types)
      (typeStep site integer' reflected' type' types') := by
  refine agree_take fun line => Agree.located _ ((agree_liftExcept _).bind fun b => ?_)
  split
  · exact reflection
  · exact agree_string.bind fun name => agree_string.bind fun assembly => agree_resolving _
  · split
    · exact agree_pure _
    · exact agree_throw _
  · exact nested.bind fun element => agree_liftExcept _
  · exact nested.bind fun element => agree_liftExcept _
  · exact nested.bind fun element => agree_liftExcept _
  · exact integers.bind fun rank => nested.bind fun element => agree_liftExcept _
  · exact arrays.bind fun arguments => nested.bind fun definition => agree_resolving _
  · exact nested.bind fun modifier => nested.bind fun element => agree_pure _
  · exact integers.bind fun index => agree_parameterOwner.bind fun owner => agree_liftExcept _
  · exact agree_throw _

/-- A method reference takes its call before it goes on to the type, the name and
the signature. Proof: for each builder, along the parts in the order in which
they are read. -/
theorem agree_methodStep {method method' : Reader MethodRef} (integers : Agree n integer integer')
    (typed : Agree n type type') (arrays : Agree n types types') (nested : Agree n method method') :
    Agree (n + 1) (methodStep site integer type types method)
      (methodStep site integer' type' types' method') := by
  refine agree_take fun line => Agree.located _ ((agree_liftExcept _).bind fun b => ?_)
  split
  · exact (arrays.optional _).bind fun parameters => (integers.optional _).bind fun arity =>
      agree_string.bind fun name => typed.bind fun on => agree_resolving _
  · exact agree_string.bind fun name => typed.bind fun on => agree_resolving _
  · exact arrays.bind fun parameters => typed.bind fun on => agree_resolving _
  · exact typed.bind fun on => agree_resolving _
  · exact integers.bind fun number => typed.bind fun on => agree_resolving _
  · exact typed.bind fun right => typed.bind fun left => integers.bind fun number =>
      typed.bind fun on => agree_resolving _
  · exact typed.bind fun other => integers.bind fun direction => integers.bind fun kind =>
      typed.bind fun on => agree_resolving _
  · exact arrays.bind fun arguments => nested.bind fun definition => agree_liftExcept _
  · exact arrays.bind fun parameters => nested.bind fun declared => agree_liftExcept _
  · exact agree_throw _

/-- A field reference takes its call before it goes on to the type. So the reader
of types needs to agree on fewer lines, and agreeing on as many is enough. -/
theorem agree_fieldStep (typed : Agree n type type') :
    Agree n (fieldStep site type) (fieldStep site type') := by
  refine (agree_take fun line => Agree.located _ ((agree_liftExcept _).bind fun b => ?_)).mono
    n.le_succ
  split
  · exact agree_string.bind fun name => typed.bind fun on => agree_resolving _
  · exact agree_throw _

/-- A signature takes its call before it goes on to convention, return type and
parameters. -/
theorem agree_signatureStep {signature signature' : Reader CallSite}
    (integers : Agree n integer integer') (typed : Agree n type type')
    (arrays : Agree n types types') (nested : Agree n signature signature') :
    Agree (n + 1) (signatureStep site integer type types signature)
      (signatureStep site integer' type' types' signature') := by
  refine agree_take fun line => Agree.located _ ((agree_liftExcept _).bind fun b => ?_)
  split
  · exact arrays.bind fun parameters => typed.bind fun returnType => integers.bind fun flags =>
      agree_liftExcept _
  · exact arrays.bind fun parameters => typed.bind fun returnType =>
      integers.bind fun convention => agree_liftExcept _
  · exact arrays.bind fun parameters => nested.bind fun declared => agree_liftExcept _
  · exact agree_throw _

/-- The declaration of a local variable takes its call before it goes on to the
type or to the declaration that is pinned. -/
theorem agree_localVariableStep {localVariable localVariable' : Reader LocalDeclaration}
    (reflection : Agree n reflected reflected') (typed : Agree n type type')
    (nested : Agree n localVariable localVariable') :
    Agree (n + 1) (localVariableStep site reflected type localVariable)
      (localVariableStep site reflected' type' localVariable') := by
  refine agree_take fun line => Agree.located _ ((agree_liftExcept _).bind fun b => ?_)
  split
  · next named reflects =>
    cases reflects with
    | true => exact reflection.bind fun type =>
        (agree_string.optional named).bind fun name => agree_pure _
    | false => exact typed.bind fun type =>
        (agree_string.optional named).bind fun name => agree_pure _
  · refine nested.bind fun declared => ?_
    split
    · exact agree_throw_bind _
    · exact agree_pure _
  · exact agree_throw _

end Steps

/-- The bound of a loop does not matter while fewer lines are ahead: the loop is
the one that goes on without a bound. By induction on the rounds, each of which
takes an instruction before the next. -/
theorem agree_elements {element element' : Reader α} {integer' : Reader Int}
    {loop : Reader (Place × List (Int × α))} {bound rounds : Nat}
    (values : Agree n element element') (integers : Agree n (integer site bound) integer')
    (loops : loop = elementsStep site element' integer' loop) (enough : n ≤ rounds) :
    Agree n (elements site element bound rounds) loop := by
  induction n generalizing rounds with
  | zero => exact agree_zero _ _
  | succ n ih =>
    obtain ⟨rounds, rfl⟩ := Nat.exists_eq_add_of_le' (Nat.le_trans (Nat.le_add_left 1 n) enough)
    rw [loops]
    exact agree_elementsStep values integers
      (ih (values.mono n.le_succ) (integers.mono n.le_succ) (Nat.le_of_succ_le_succ enough))

/-- What a family of readers comes to, if from some number on its members agree
for long enough. A state is read by a member that is late enough for the lines it
has ahead. -/
def limit (family : Nat → Reader α) : Reader α := fun state =>
  family (state.ahead.length + 2) state

/-- The limit agrees with each member for as long as this one agrees with all
later ones. -/
theorem agree_limit {family : Nat → Reader α}
    (coherent : ∀ n a b, n ≤ a → n ≤ b → Agree (n - 1) (family a) (family b)) (n : Nat) :
    Agree (n - 1) (limit family) (family n) := fun state inside =>
  coherent (state.ahead.length + 2) _ n (Nat.le_refl _) (by omega) state (by omega)

end Reader

/-- What the elements of an array may be. -/
inductive Element where
  | label | reflectedType | type | localVariable

/-- The readers that call themselves, and the loops over the elements of arrays. -/
inductive Recursive where
  | constant | reflectedType | type | method | signature | localVariable
  | elements (of : Element)

abbrev Element.Value : Element → Type
  | .label => String
  | .reflectedType | .type => TypeSig
  | .localVariable => LocalDeclaration

abbrev Recursive.Value : Recursive → Type
  | .constant => Constant
  | .reflectedType | .type => TypeSig
  | .method => MethodRef
  | .signature => CallSite
  | .localVariable => LocalDeclaration
  | .elements of => Place × List (Int × of.Value)

/-- A choice of all readers that may go on to each other. -/
def Readers := (role : Recursive) → Reader role.Value

namespace Readers

open Reader

variable {site : Site} {n : Nat} {one other : Readers}

def integer (readers : Readers) : Reader Int := integerStep (readers .constant)

def element (site : Site) (readers : Readers) : (of : Element) → Reader of.Value
  | .label => string site
  | .reflectedType => readers .reflectedType
  | .type => readers .type
  | .localVariable => readers .localVariable

def array (site : Site) (readers : Readers) (of : Element) : Reader (List of.Value) :=
  arrayStep site (readers (.elements of)) readers.integer

/-- One step of each reader, which goes on to the given ones. -/
def next (site : Site) (readers : Readers) : Readers
  | .constant => constantStep site (readers .constant)
  | .reflectedType =>
      reflectedTypeStep site readers.integer (readers .reflectedType)
        (readers.array site .reflectedType)
  | .type =>
      typeStep site readers.integer (readers .reflectedType) (readers .type)
        (readers.array site .type)
  | .method =>
      methodStep site readers.integer (readers .type) (readers.array site .type) (readers .method)
  | .signature =>
      signatureStep site readers.integer (readers .type) (readers.array site .type)
        (readers .signature)
  | .localVariable =>
      localVariableStep site (readers .reflectedType) (readers .type) (readers .localVariable)
  | .elements of =>
      elementsStep site (readers.element site of) readers.integer (readers (.elements of))

/-- The bounded readers of elements. -/
def values (site : Site) (bound : Nat) : (of : Element) → Reader of.Value
  | .label => string site
  | .reflectedType => Reader.reflectedType site bound
  | .type => Reader.type site bound
  | .localVariable => Reader.localVariable site bound

/-- The bounded readers. -/
def bounded (site : Site) (bound : Nat) : Readers
  | .constant => Reader.constant site bound
  | .reflectedType => Reader.reflectedType site bound
  | .type => Reader.type site bound
  | .method => Reader.method site bound
  | .signature => Reader.signature site bound
  | .localVariable => Reader.localVariable site bound
  | .elements of => elements site (values site bound of) bound bound

/-- How many lines are certain to have been taken before the reader runs: the
store of an element before a loop. -/
def lag : Recursive → Nat
  | .elements _ => 1
  | _ => 0

/-- All readers do the same if fewer lines are ahead, and put no line back. A
loop is run when one of these has been taken. -/
def Agree (n : Nat) (one other : Readers) : Prop :=
  ∀ role, Reader.Agree (n - lag role) (one role) (other role)

theorem Agree.integer (agree : Agree n one other) : Reader.Agree n one.integer other.integer :=
  agree_integerStep (agree .constant)

/-- Choices that agree read the same elements of arrays, whichever of the four
kinds of element it is. -/
theorem Agree.element (agree : Agree n one other) (site : Site) (of : Element) :
    Reader.Agree n (one.element site of) (other.element site of) := by
  cases of with
  | label => exact agree_string
  | reflectedType => exact agree .reflectedType
  | type => exact agree .type
  | localVariable => exact agree .localVariable

/-- Choices that agree read the same arrays: the instruction that ends an array
is taken before its loop is run. -/
theorem Agree.array (agree : Agree n one other) (site : Site) (of : Element) :
    Reader.Agree n (one.array site of) (other.array site of) := by
  cases n with
  | zero => exact agree_zero _ _
  | succ n => exact agree_arrayStep (agree (.elements of)) (agree.integer.mono n.le_succ)

/-- A step takes a line before it goes on to other readers: these have one line
less ahead. One case for each reader, from the lemma on its step. -/
theorem Agree.next (agree : Agree n one other) (site : Site) :
    Agree (n + 1) (one.next site) (other.next site) := by
  intro role
  cases role with
  | constant => exact agree_constantStep (agree .constant)
  | reflectedType =>
    exact agree_reflectedTypeStep agree.integer (agree .reflectedType) (agree.array site _)
  | type =>
    exact agree_typeStep agree.integer (agree .reflectedType) (agree .type) (agree.array site _)
  | method => exact agree_methodStep agree.integer (agree .type) (agree.array site _) (agree .method)
  | signature =>
    exact agree_signatureStep agree.integer (agree .type) (agree.array site _) (agree .signature)
  | localVariable =>
    exact agree_localVariableStep (agree .reflectedType) (agree .type) (agree .localVariable)
  | elements of =>
    change Reader.Agree n _ _
    cases n with
    | zero => exact agree_zero _ _
    | succ n => exact agree_elementsStep (agree.element site of) agree.integer (agree (.elements of))

/-- Choices that agree for every number of lines are the same. -/
theorem eq_of_agree (agree : ∀ n, Agree n one other) : one = other :=
  funext fun role => Reader.eq_of_agree fun n =>
    (agree (n + lag role) role).mono (by omega)

/-- After so many steps it does not matter what is gone on to, by induction on
the steps. -/
theorem agree_steps (site : Site) (one other : Readers) (n : Nat) :
    Agree n ((next site)^[n] one) ((next site)^[n] other) := by
  induction n with
  | zero =>
    intro role
    rw [Nat.zero_sub]
    exact agree_zero _ _
  | succ n ih =>
    rw [Function.iterate_succ_apply', Function.iterate_succ_apply']
    exact ih.next site

/-- There is at most one way to go on without a bound: two of them agree for
every number of lines. -/
theorem eq_of_fixed (fixed : one.next site = one) (alike : other.next site = other) :
    one = other := by
  refine eq_of_agree fun n => ?_
  have agree := agree_steps site one other n
  rwa [Function.iterate_fixed fixed, Function.iterate_fixed alike] at agree

/-- Iterates that are late enough agree, whichever two of them are taken. -/
theorem agree_iterate (seed : Readers) {n a b : Nat} (early : n ≤ a) (late : n ≤ b) :
    Agree n ((next site)^[a] seed) ((next site)^[b] seed) := by
  obtain ⟨a, rfl⟩ := Nat.exists_eq_add_of_le early
  obtain ⟨b, rfl⟩ := Nat.exists_eq_add_of_le late
  rw [Function.iterate_add_apply, Function.iterate_add_apply]
  exact agree_steps site _ _ n

/-- The readers that go on without a bound. -/
def unbounded (site : Site) : Readers := fun role =>
  limit fun steps => (next site)^[steps] (bounded site 0) role

/-- The readers without a bound agree with an iterate for fewer lines than it
makes steps. -/
theorem agree_unbounded (site : Site) (n : Nat) :
    Agree n (unbounded site) ((next site)^[n + 1] (bounded site 0)) := by
  intro role
  refine (agree_limit (fun n a b early late => ?_) (n + 1)).mono (Nat.sub_le _ _)
  exact (agree_iterate _ early late role).mono (by cases role <;> simp [lag])

/-- They are what one step does that goes on to them. This equation determines
them: any readers that satisfy it agree with these on any number of lines. -/
theorem next_unbounded (site : Site) : (unbounded site).next site = unbounded site := by
  refine eq_of_agree fun n role => ?_
  have stepped := (agree_unbounded site n).next site role
  rw [← Function.iterate_succ_apply' (next site)] at stepped
  have here := agree_unbounded site (n + 1) role
  exact (stepped.trans here.symm).mono (by omega)

/-- The bound does not matter while no more lines are ahead. The bounded readers are
compared with any choice that is a fixed point, by induction on the bound. -/
theorem agree_bounded (fixed : one.next site = one) (bound : Nat) :
    Agree (bound + 1) (bounded site bound) one := by
  induction bound with
  | zero =>
    intro role
    rw [← fixed]
    cases role with
    | elements of => exact agree_zero _ _
    | _ => exact agree_missing _
  | succ bound ih =>
    have stepped : Agree _ _ (one.next site) := ih.next site
    rw [fixed] at stepped
    intro role
    have integers : Reader.Agree (bound + 1) (Reader.integer site (bound + 1)) one.integer :=
      (agree_integerStep (stepped .constant)).mono (Nat.le_succ _)
    have loops (of : Element) : one (.elements of) =
        elementsStep site (one.element site of) one.integer (one (.elements of)) :=
      (congrFun fixed (.elements of)).symm
    cases role with
    | elements of =>
      have values : Reader.Agree (bound + 1) (values site (bound + 1) of) (one.element site of) := by
        have early := (stepped.element site of).mono (Nat.le_succ _)
        cases of <;> exact early
      exact agree_elements values integers (loops of) (Nat.le_refl _)
    | constant => exact stepped .constant
    | reflectedType => exact stepped .reflectedType
    | type => exact stepped .type
    | method => exact stepped .method
    | signature => exact stepped .signature
    | localVariable => exact stepped .localVariable

/-- The argument of an emitting call. -/
def argument (site : Site) (readers : Readers) : EmitParameter → Reader Argument
  | .none => return .none
  | .int8 | .uint8 | .int16 | .uint16 | .int32 | .uint32 | .int64 | .uint64 =>
      .integer <$> readers.integer
  | .float32 | .float64 => .float <$> floatStep (readers .constant)
  | .string => .string <$> string site
  | .stringArray => .labels <$> readers.array site .label
  | .typeReference => .type <$> readers .type
  | .methodReference => .method <$> readers .method
  | .fieldReference => .field <$> fieldStep site (readers .type)
  | .signature => .signature <$> readers .signature

/-- The declarations of a call, and whether local variables start at zero. -/
def declarations (site : Site) (readers : Readers) (hasInitFlag : Bool) :
    Reader (List LocalDeclaration × Bool) := do
  let declared ← readers.array site .localVariable
  let init ← if hasInitFlag then (· != 0) <$> readers.integer else pure true
  return (declared, init)

/-- With bounded readers to go on to, the argument of an emitting call is what
the rules read. -/
theorem argument_bounded (site : Site) (bound : Nat) (parameter : EmitParameter) :
    (bounded site bound).argument site parameter = Reader.argument site bound parameter := by
  cases parameter <;> rfl

/-- Choices that agree read the same arguments of emitting calls. Only the
readers that call themselves are chosen, so the kinds without one agree whatever
the choices are. -/
theorem Agree.argument (agree : Agree n one other) (site : Site) (parameter : EmitParameter) :
    Reader.Agree n (one.argument site parameter) (other.argument site parameter) := by
  have integer : Reader.Agree n (Argument.integer <$> one.integer)
      (Argument.integer <$> other.integer) := agree.integer.map _
  have float : Reader.Agree n (Argument.float <$> floatStep (one .constant))
      (Argument.float <$> floatStep (other .constant)) :=
    (agree_floatStep (agree .constant)).map _
  cases parameter with
  | none => exact agree_pure _
  | float32 => exact float
  | float64 => exact float
  | string => exact agree_string.map _
  | stringArray => exact (agree.array site .label).map _
  | typeReference => exact Reader.Agree.map _ (agree .type)
  | methodReference => exact Reader.Agree.map _ (agree .method)
  | fieldReference => exact (agree_fieldStep (agree .type)).map _
  | signature => exact Reader.Agree.map _ (agree .signature)
  | _ => exact integer

theorem Agree.declarations (agree : Agree n one other) (site : Site) (hasInitFlag : Bool) :
    Reader.Agree n (one.declarations site hasInitFlag) (other.declarations site hasInitFlag) := by
  refine (agree.array site .localVariable).bind fun declared => ?_
  cases hasInitFlag with
  | true => exact (agree.integer.map _).bind fun init => agree_pure _
  | false => exact agree_pure _

end Readers

end InlineCil
