import InlineCil.Proofs.Expression.Soundness
import InlineCil.Proofs.Expression.Inheritance

/-!
# What every reading keeps to

A reading takes nothing but the lines right ahead, all in the block of the call,
and so it does when it fails. Where no modules are loaded it fails only for
reasons in the code. Both hold of a step that takes one line and of one that
looks something up, so every reader inherits them.

The promise speaks of failures as well as of successes. A failed reading has
taken lines too, and a rule that fails leaves a body that the caller reports on;
that nothing but lines before the call were touched is what makes the report
useful.

`Symbols.unloaded` is the promise of lookups without loaded modules. Its part on
failures is handed through unchanged, so the reasons a reading may fail for are
those of the lookups and the mismatches of the code it meets.
-/

namespace InlineCil

namespace Reader

/-- The nearest lines are taken, all in the block of the call, and failures are
for reasons in the code if nothing loads modules. -/
def restraint (site : Site) : Promise Failure Reading where
  reaches state left :=
    (∃ lines, Took site state lines left) ∧ Symbols.unloaded.reaches state.symbols left.symbols
  admits state failure := Symbols.unloaded.admits state.symbols failure
  refl state := ⟨⟨[], .nothing rfl rfl⟩, Symbols.unloaded.refl _⟩
  trans first second := by
    obtain ⟨⟨near, tookNear⟩, kept⟩ := first
    obtain ⟨⟨far, tookFar⟩, stillKept⟩ := second
    exact ⟨⟨far ++ near, tookNear.append tookFar⟩, Symbols.unloaded.trans kept stillKept⟩
  admits_of_reaches reached admitted := Symbols.unloaded.admits_of_reaches reached.2 admitted

variable {site : Site} {α : Type}

/-- One line is taken, if there is one and it is in the block of the call;
otherwise the step fails and takes nothing. -/
theorem restrained_take : (restraint site).KeptBy (take site) := by
  rintro ⟨ahead, taken, symbols⟩
  unfold Steps.Meets
  cases ahead with
  | nil => exact ⟨(restraint site).refl _, fun _ => rfl⟩
  | cons line rest =>
    cases together : site.blocks.sameBlock line.place site.call.place with
    | true =>
      rw [run_take line rest taken symbols together]
      exact ⟨⟨[line], rfl, rfl, by simpa using together⟩, Symbols.unloaded.refl _⟩
    | false =>
      unfold take
      rw [Steps.run_bind, Steps.run_get]
      simp only [together, Bool.false_eq_true, if_false]
      exact ⟨(restraint site).refl _, fun _ => rfl⟩

/-- A lookup takes nothing, and keeps what lookups promise. The lines ahead and
the places taken are those before it, also when it fails. -/
theorem restrained_resolving {step : Resolving α} (kept : Symbols.unloaded.KeptBy step) :
    (restraint site).KeptBy (resolving step) := by
  intro state
  have looked := kept state.symbols
  unfold Steps.Meets at looked ⊢
  rw [run_resolving]
  cases found : step.run state.symbols with
  | ok value symbols =>
    simp only [found] at looked ⊢
    exact ⟨⟨[], .nothing rfl rfl⟩, looked⟩
  | error failure symbols =>
    simp only [found] at looked ⊢
    exact ⟨⟨⟨[], .nothing rfl rfl⟩, looked.1⟩, looked.2⟩

/-- The promise is inherited by every reader, from the step that takes a line and
from the lookups. Giving a failure a place does not change whether it can be
recovered from. -/
theorem inherited_restraint :
    Inherited site (fun _ => Symbols.unloaded.KeptBy) fun _ => (restraint site).KeptBy where
  pure := Promise.keptBy_pure
  throw recoverable := Promise.keptBy_throw fun _ _ => recoverable
  bind kept keeps := kept.bind keeps
  lookups := Symbols.inherited_unloaded
  take := restrained_take
  located kept _ := kept.rethrow fun _ failure admitted none => by
    rw [Failure.isRecoverable_locatedAt]
    exact admitted none
  resolving := restrained_resolving
  peek _ keeps := Promise.keptBy_get keeps

end Reader

end InlineCil
