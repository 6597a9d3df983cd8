import InlineCil.Proofs.Steps

/-!
# What steps come to

A step that changes a state comes to an end in one of two ways, and a statement
about it says what holds after either. `Meets` is such a statement for one state:
what is given is good together with the state left, or the failure is tolerated
together with it. The rule for composed steps says that the second part may rely
on what the first one did.

Some statements are promises that do not depend on what the step gives: how the
states before and after are related, and which failures there may be. A promise
that the parts of a composed step keep is kept by the whole, so it is proved
along the text of the step, one rule for each way in which steps are put
together. This needs two things of a promise. Its relation is reflexive and
transitive, and a failure that is admitted after some steps was admitted before
them; both are fields of the structure, so that they are proved where a promise
is made and nowhere else.

Promises are made about lookups and about readers, where the text is long and the
statement is short.
-/

namespace InlineCil

namespace Steps

universe u
variable {ε σ α β : Type u}

/-- Run in a state, a step gives a value and leaves a state that are good
together, or fails with a failure and leaves a state that are tolerated together. -/
def Meets (step : EStateM ε σ α) (state : σ) (good : α → σ → Prop) (tolerated : ε → σ → Prop) :
    Prop :=
  match step.run state with
  | .ok value left => good value left
  | .error failure left => tolerated failure left

variable {step : EStateM ε σ α} {state left : σ} {good : α → σ → Prop} {tolerated : ε → σ → Prop}

theorem Meets.ok {value : α} (meets : Meets step state good tolerated)
    (ran : step.run state = .ok value left) : good value left := by
  unfold Meets at meets
  rwa [ran] at meets

theorem Meets.error {failure : ε} (meets : Meets step state good tolerated)
    (ran : step.run state = .error failure left) : tolerated failure left := by
  unfold Meets at meets
  rwa [ran] at meets

theorem Meets.of_run (value : α) (ran : step.run state = .ok value left)
    (holds : good value left) : Meets step state good tolerated := by
  unfold Meets
  rwa [ran]

/-- A step is judged by its runs, so it is enough to look at each way in which it
can end. -/
theorem Meets.intro (good_of_ok : ∀ value left, step.run state = .ok value left → good value left)
    (tolerated_of_error : ∀ failure left, step.run state = .error failure left →
      tolerated failure left) : Meets step state good tolerated := by
  unfold Meets
  split
  · next value left ran => exact good_of_ok value left ran
  · next failure left ran => exact tolerated_of_error failure left ran

theorem Meets.mono {better : α → σ → Prop} {fewer : ε → σ → Prop}
    (meets : Meets step state better fewer)
    (goods : ∀ value left, better value left → good value left)
    (failures : ∀ failure left, fewer failure left → tolerated failure left) :
    Meets step state good tolerated :=
  .intro (fun value left ran => goods value left (meets.ok ran))
    fun failure left ran => failures failure left (meets.error ran)

/-- The second step starts where the first one has come to. Failures of either are
tolerated alike. -/
theorem meets_bind {second : α → EStateM ε σ β} {better : β → σ → Prop}
    (meets : Meets step state (fun value left => Meets (second value) left better tolerated)
      tolerated) : Meets (step >>= second) state better tolerated := by
  unfold Meets at meets ⊢
  rw [run_bind]
  cases ran : step.run state with
  | ok value left => simpa [ran] using meets
  | error failure left => simpa [ran] using meets

/-- What comes after a step may rely on what the step did: on its run, and on
what is known to hold after it. -/
theorem Meets.bind {middle : α → σ → Prop} {second : α → EStateM ε σ β} {better : β → σ → Prop}
    (meets : Meets step state middle tolerated)
    (later : ∀ value left, step.run state = .ok value left → middle value left →
      Meets (second value) left better tolerated) :
    Meets (step >>= second) state better tolerated :=
  meets_bind (.intro (fun value left ran => later value left ran (meets.ok ran))
    fun _ _ ran => meets.error ran)

theorem meets_get {next : σ → EStateM ε σ α} (meets : Meets (next state) state good tolerated) :
    Meets (get >>= next) state good tolerated := meets

theorem meets_throw {failure : ε} (allowed : tolerated failure state) :
    Meets (throw failure) state good tolerated := allowed

/-- A handler that throws again changes the failure only, so the changed failure
has to be tolerated in the state of the old one. -/
theorem meets_rethrow {change : ε → ε}
    (meets : Meets step state good fun failure left => tolerated (change failure) left) :
    Meets (tryCatch step fun failure => throw (change failure)) state good tolerated := by
  unfold Meets at meets ⊢
  rw [run_tryCatch]
  cases ran : step.run state with
  | ok value left => simpa [ran] using meets
  | error failure left => simpa [ran] using meets

theorem meets_liftExcept {outcome : Except ε α}
    (goods : ∀ value, outcome = .ok value → good value state)
    (failures : ∀ failure, outcome = .error failure → tolerated failure state) :
    Meets (liftExcept outcome) state good tolerated := by
  cases outcome with
  | ok value => exact goods value rfl
  | error failure => exact failures failure rfl

end Steps

/-- A promise about steps, whatever they give: how the state left is related to
the state before, and which failures there may be. A failure that the promise
admits later on, it admits from the beginning. -/
structure Promise (ε σ : Type) where
  reaches : σ → σ → Prop
  admits : σ → ε → Prop
  refl : ∀ state, reaches state state
  trans : ∀ {state middle left}, reaches state middle → reaches middle left → reaches state left
  admits_of_reaches : ∀ {state middle failure}, reaches state middle → admits middle failure →
    admits state failure

namespace Promise

variable {ε σ α β : Type} {p : Promise ε σ}

/-- A step keeps the promise, in whatever state it runs. -/
def KeptBy (p : Promise ε σ) (step : EStateM ε σ α) : Prop :=
  ∀ state, Steps.Meets step state (fun _ left => p.reaches state left)
    fun failure left => p.reaches state left ∧ p.admits state failure

theorem keptBy_pure (value : α) : p.KeptBy (pure value) := p.refl

theorem keptBy_throw {failure : ε} (admitted : ∀ state, p.admits state failure) :
    p.KeptBy (throw failure : EStateM ε σ α) := fun state => ⟨p.refl state, admitted state⟩

/-- A composition keeps what its parts keep.

The states are related by transitivity. A failure of the second part is admitted
where that part began, and therefore where the first one began. -/
theorem KeptBy.bind {first : EStateM ε σ α} {second : α → EStateM ε σ β} (kept : p.KeptBy first)
    (keeps : ∀ value, p.KeptBy (second value)) : p.KeptBy (first >>= second) := by
  intro state
  refine Steps.meets_bind ((kept state).mono (fun value middle reached => ?_) fun _ _ held => held)
  refine (keeps value middle).mono (fun _ left further => p.trans reached further) ?_
  intro failure left ⟨further, admitted⟩
  exact ⟨p.trans reached further, p.admits_of_reaches reached admitted⟩

theorem keptBy_get {next : σ → EStateM ε σ α} (keeps : ∀ state, p.KeptBy (next state)) :
    p.KeptBy (get >>= next) := fun state => keeps state state

/-- Failures may be told in another way, if the promise admits them still.
Readers do this when they add the place of a call. -/
theorem KeptBy.rethrow {step : EStateM ε σ α} {change : ε → ε} (kept : p.KeptBy step)
    (admitted : ∀ state failure, p.admits state failure → p.admits state (change failure)) :
    p.KeptBy (tryCatch step fun failure => throw (change failure)) := by
  intro state
  refine Steps.meets_rethrow ((kept state).mono (fun _ _ reached => reached) ?_)
  intro failure left ⟨reached, held⟩
  exact ⟨reached, admitted state failure held⟩

end Promise

end InlineCil
