import InlineCil.Weave
import Mathlib.Data.List.Forall2

/-!
# Runs of steps

Readers, passes and lookups are steps that change a state and may fail, and the
state outlives the failure. A run of a composed step is split into the runs of
its parts here, once: every later proof about a step names what each part gave
and left behind.

`run_bind` computes the run of a composition. `run_bind_ok` takes a successful
run apart: it has two runs in it, of the first part and of the second on what the
first one gave, and there is nothing more to know about the composition. The same
is said of maps and of handlers that throw again, which are all that steps are
put together with besides; a handler of that kind changes failures and never
turns one into a success. So no later proof unfolds the monad.

Results that may fail have their own composition, and a traversal of a list
composes one for each item. Traversals succeed item by item and fail with the
first item that fails. Tables of what was found answer the newest entry of a key.
-/

namespace InlineCil.Steps

universe u
variable {ε σ α β : Type u}

/-- Running one step after another runs the second on what the first gave and
left, and ends where the first failed. -/
theorem run_bind (first : EStateM ε σ α) (second : α → EStateM ε σ β) (state : σ) :
    (first >>= second).run state =
      match first.run state with
      | .ok value left => (second value).run left
      | .error failure left => .error failure left := rfl

@[simp] theorem run_pure (value : α) (state : σ) :
    (pure value : EStateM ε σ α).run state = .ok value state := rfl

/-- Nor does one that fails: what was changed before it stays changed. -/
@[simp] theorem run_throw (failure : ε) (state : σ) :
    (throw failure : EStateM ε σ α).run state = .error failure state := rfl

@[simp] theorem run_get (state : σ) : (get : EStateM ε σ σ).run state = .ok state state := rfl

@[simp] theorem run_set (next state : σ) :
    (set next : EStateM ε σ PUnit).run state = .ok ⟨⟩ next := rfl

/-- A value is changed where the step succeeds; states and failures stay. -/
theorem run_map (change : α → β) (step : EStateM ε σ α) (state : σ) :
    (change <$> step).run state =
      match step.run state with
      | .ok value left => .ok (change value) left
      | .error failure left => .error failure left := rfl

/-- A caught failure goes on from the state that the failing step left. Nothing
is undone by catching it. -/
theorem run_tryCatch (step : EStateM ε σ α) (handle : ε → EStateM ε σ α) (state : σ) :
    (tryCatch step handle).run state =
      match step.run state with
      | .ok value left => .ok value left
      | .error failure left => (handle failure).run left := by
  change EStateM.tryCatch step handle state = _
  unfold EStateM.tryCatch EStateM.run
  cases step state <;> rfl

/-- A result that is there is given without a change of state. -/
@[simp] theorem run_liftExcept_ok (value : α) (state : σ) :
    (liftExcept (.ok value : Except ε α) : EStateM ε σ α).run state = .ok value state := rfl

/-- One that failed fails the step, without a change of state. -/
@[simp] theorem run_liftExcept_error (failure : ε) (state : σ) :
    (liftExcept (.error failure : Except ε α) : EStateM ε σ α).run state = .error failure state :=
  rfl

/-- A composed step succeeds exactly if its parts do, one after the other. Proofs
about a step that succeeded start with this: it names the value and the state in
between. -/
theorem run_bind_ok {first : EStateM ε σ α} {second : α → EStateM ε σ β} {state final : σ}
    {result : β} :
    (first >>= second).run state = .ok result final ↔
      ∃ value left, first.run state = .ok value left ∧
        (second value).run left = .ok result final := by
  rw [run_bind]
  cases first.run state with
  | ok value left => simp [and_assoc]
  | error failure left => simp

/-- A changed value is there exactly if the value is, in the same final state. -/
theorem run_map_ok {change : α → β} {step : EStateM ε σ α} {state final : σ} {result : β} :
    (change <$> step).run state = .ok result final ↔
      ∃ value, step.run state = .ok value final ∧ change value = result := by
  rw [run_map]
  cases step.run state with
  | ok value left => simp [and_assoc, and_comm]
  | error failure left => simp

/-- A handler that throws again does not turn failure into success, so a
successful run may be read without its handlers. -/
theorem run_rethrow_ok {step : EStateM ε σ α} {change : ε → ε} {state final : σ} {result : α} :
    (tryCatch step fun failure => throw (change failure)).run state = .ok result final ↔
      step.run state = .ok result final := by
  rw [run_tryCatch]
  cases step.run state <;> simp

theorem run_liftExcept_eq_ok {outcome : Except ε α} {state final : σ} {result : α} :
    (liftExcept outcome : EStateM ε σ α).run state = .ok result final ↔
      outcome = .ok result ∧ state = final := by
  cases outcome <;> simp

section Results

variable {first : Except ε α} {second : α → Except ε β}

/-- A composed result is there exactly if its parts are. This is the law for
results that have no state. -/
theorem bind_eq_ok_iff {result : β} :
    (first >>= second) = .ok result ↔ ∃ value, first = .ok value ∧ second value = .ok result := by
  cases first <;> simp [bind, Except.bind]

/-- It fails as the first part does, or as the second does on what the first
gave. -/
theorem bind_eq_error_iff {failure : ε} :
    (first >>= second) = .error failure ↔
      first = .error failure ∨ ∃ value, first = .ok value ∧ second value = .error failure := by
  cases first <;> simp [bind, Except.bind]

end Results

section Traversals

variable {f : α → Except ε β} {items : List α}

/-- A list of steps succeeds with the results of its items: one result for each,
in order. -/
theorem mapM_eq_ok_iff {results : List β} :
    items.mapM f = .ok results ↔
      List.Forall₂ (fun item result => f item = .ok result) items results := by
  induction items generalizing results with
  | nil => cases results <;> simp [pure, Except.pure]
  | cons item rest ih =>
    rw [List.mapM_cons, List.forall₂_cons_left_iff]
    simp only [← ih]
    cases f item with
    | error failure => simp [bind, Except.bind]
    | ok result => cases rest.mapM f <;> simp [bind, Except.bind, pure, Except.pure, eq_comm]

/-- In particular if each of them has its own, the results are those of the
function. -/
theorem mapM_eq_ok {g : α → β} (all : ∀ item ∈ items, f item = .ok (g item)) :
    items.mapM f = .ok (items.map g) :=
  mapM_eq_ok_iff.2 (List.forall₂_map_right_iff.2 (List.forall₂_same.2 all))

/-- It fails with the failure of the first item that fails.

By induction on the items. All before the failing one have results, which are
lost, and what comes after it is not looked at, so nothing is said about it. -/
theorem mapM_eq_error_iff {failure : ε} :
    items.mapM f = .error failure ↔ ∃ before item after, items = before ++ item :: after ∧
      (∀ earlier ∈ before, ∃ result, f earlier = .ok result) ∧ f item = .error failure := by
  induction items with
  | nil => simp [pure, Except.pure]
  | cons item rest ih =>
    rw [List.mapM_cons]
    constructor
    · intro failed
      cases first : f item with
      | error other =>
        rw [first] at failed
        obtain rfl := Except.error.inj failed
        exact ⟨[], item, rest, rfl, by simp, first⟩
      | ok result =>
        cases others : rest.mapM f with
        | ok values => simp [first, others, bind, Except.bind, pure, Except.pure] at failed
        | error other =>
          rw [first, others] at failed
          obtain rfl := Except.error.inj failed
          obtain ⟨before, last, after, rfl, succeeded, fails⟩ := ih.1 others
          exact ⟨item :: before, last, after, rfl,
            List.forall_mem_cons.2 ⟨⟨result, first⟩, succeeded⟩, fails⟩
    · rintro ⟨before, last, after, split, succeeded, fails⟩
      cases before with
      | nil =>
        obtain ⟨rfl, rfl⟩ := by simpa using split
        rw [fails]
        rfl
      | cons head before =>
        obtain ⟨rfl, rfl⟩ := by simpa using split
        obtain ⟨⟨result, first⟩, succeeded⟩ := List.forall_mem_cons.1 succeeded
        rw [first, ih.2 ⟨before, last, after, rfl, succeeded, fails⟩]
        rfl

theorem exists_of_mapM {results : List β} (succeeded : items.mapM f = .ok results) :
    ∀ item ∈ items, ∃ result, f item = .ok result := by
  intro item member
  obtain ⟨i, inside, rfl⟩ := List.getElem_of_mem member
  have all := mapM_eq_ok_iff.1 succeeded
  exact ⟨_, all.get inside (all.length_eq ▸ inside)⟩

/-- What is related to something on the left of a list of relations is on its
right. By induction on the relations. -/
theorem exists_of_forall₂ {related : α → β → Prop} {left : List α} {right : List β}
    (all : List.Forall₂ related left right) {a : α} (member : a ∈ left) :
    ∃ b ∈ right, related a b := by
  induction all with
  | nil => simp at member
  | cons head tail ih =>
    rcases List.mem_cons.1 member with rfl | later
    · exact ⟨_, List.mem_cons_self, head⟩
    · obtain ⟨b, among, held⟩ := ih later
      exact ⟨b, List.mem_cons_of_mem _ among, held⟩

end Traversals

/-- A table answers the first entry of a key, so an entry that is put before
others hides them for its own key and leaves the answers for all other keys. -/
theorem lookup_cons {κ ν : Type u} [BEq κ] [LawfulBEq κ] [DecidableEq κ] (key other : κ) (value : ν)
    (table : List (κ × ν)) : ((key, value) :: table).lookup other =
      if other = key then some value else table.lookup other := by
  rw [List.lookup_cons]
  by_cases same : other = key
  · rw [if_pos same, beq_iff_eq.2 same]
  · rw [if_neg same, beq_eq_false_iff_ne.2 same]

end InlineCil.Steps
