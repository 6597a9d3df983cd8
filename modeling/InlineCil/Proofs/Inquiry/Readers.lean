import InlineCil.Proofs.Expression.Completeness
import InlineCil.Proofs.Expression.Inheritance
import InlineCil.Proofs.Inquiry.Steps

/-!
# Readers as inquiries

Of all that readers do, only their lookups touch what was found: a reader looks
at the lines ahead, and at the symbols when a type or a member has to be
resolved.

To be an inquiry is a property that readers inherit from the steps they are put
together from. So it is enough to know it of the step that takes a line, which
does not look at the symbols at all, and of a lookup run by a reader, which is
the inquiry that the lookup is on its own.

Nothing may load modules here. A lookup that loads one changes what others find,
and which module it loads may depend on what it was asked before.
-/

namespace InlineCil

namespace Reader

variable {base : Symbols} {site : Site} {α : Type}

/-- Taking a line looks at the lines ahead only, so nothing is asked. -/
theorem inquires_take : Inquires base (take site) := by
  refine inquires_of_blind fun state symbols => ?_
  obtain ⟨ahead, taken, _⟩ := state
  cases ahead with
  | nil => rfl
  | cons line rest =>
    unfold take
    rw [Steps.run_bind, Steps.run_get, Steps.run_bind, Steps.run_get]
    dsimp only [HasSymbols.exchange]
    split <;> rfl

/-- What a lookup comes to, as what the reader comes to that runs it. -/
def looked (state : Reading) :
    EStateM.Result Failure Symbols α → EStateM.Result Failure Reading α
  | .ok value symbols => .ok value { state with symbols }
  | .error failure symbols => .error failure { state with symbols }

/-- A lookup of a reader is the inquiry that the lookup itself is; the lines
ahead stay as they are. -/
theorem inquires_resolving {step : Resolving α} (asks : Inquires base step) :
    Inquires base (resolving step) := by
  intro state
  obtain ⟨told, asks⟩ := asks base
  refine ⟨_, asks.change (looked state) (fun symbols => ?_) fun symbols result => ?_⟩
  · rw [run_resolving]
    rfl
  · cases result <;> rfl

/-- Every reader is an inquiry, as long as nothing loads modules. Asking is
inherited: the lookups of symbols are inquiries, and all other steps ask nothing. -/
theorem inherited_inquires (unloaded : base.loader = none) :
    Inherited site (fun _ => Inquires base) fun _ => Inquires base where
  pure := inquires_pure
  throw _ := inquires_throw _
  bind first later := first.bind later
  lookups := Symbols.inherited_inquires unloaded
  take := inquires_take
  located asks place := asks.rethrow (Failure.locatedAt place)
  resolving := inquires_resolving
  peek same := .get fun state finds =>
    (same state (base.keeping finds)).trans (same state base).symm

end Reader

end InlineCil
