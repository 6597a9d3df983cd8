import InlineCil.Proofs.Inquiry

/-!
# Steps as inquiries

The state of a step may hold more than symbols. A step is an inquiry if, whatever
was found when it starts, it does and leaves behind what the inquiry comes to.
This is handed on along the text of a step, beginning with the lookup of a type.

`HasSymbols` covers the three kinds of states that steps have: symbols alone, a
reading, and a pass. The lemmas on composed steps are stated for all of them, so
a lookup that is run by a reader inside a rule is one inquiry all the way up.

Only two things have to be shown of a primitive step. If it neither looks at the
symbols nor changes them, it is an inquiry without accesses. If it is the lookup
of a type, it asks whether the type was found and otherwise searches the
registered modules, which are the same for all; what the search finds is right by
definition and is kept.
-/

namespace InlineCil

/-- States that hold symbols, which may be exchanged. -/
class HasSymbols (σ : Type) where
  exchange : σ → Symbols → σ

open HasSymbols

instance : HasSymbols Symbols := ⟨fun _ symbols => symbols⟩

instance : HasSymbols Reading := ⟨fun state symbols => { state with symbols }⟩

instance : HasSymbols Rewriting := ⟨fun state symbols => { state with symbols }⟩

/-- Symbols with other finds. -/
def Symbols.keeping (s : Symbols) (finds : Finds) : Symbols := { s with types := finds }

/-- A step told as an inquiry comes to a result, the symbols of which do not
matter. -/
abbrev Told (σ α : Type) := Inquiry (EStateM.Result Failure σ α)

variable {σ α β : Type} [HasSymbols σ] {base : Symbols}

/-- A result with other symbols. -/
def exchanged (symbols : Symbols) : EStateM.Result Failure σ α → EStateM.Result Failure σ α
  | .ok value left => .ok value (exchange left symbols)
  | .error failure left => .error failure (exchange left symbols)

/-- From a state, a step does what an inquiry says, whatever was found; and the
inquiry comes to one result as long as that is right. -/
structure Asks (base : Symbols) (step : EStateM Failure σ α) (state : σ) (told : Told σ α) :
    Prop where
  runs : ∀ finds, step.run (exchange state (base.keeping finds)) =
    exchanged (base.keeping (told.run finds).2) (told.run finds).1
  settles : ∃ result, told.Settles base.modules result

/-- A step is an inquiry, from every state. -/
def Inquires (base : Symbols) (step : EStateM Failure σ α) : Prop :=
  ∀ state, ∃ told, Asks base step state told

/-- From a state, a step neither looks at the symbols nor changes them. -/
def BlindAt (step : EStateM Failure σ α) (state : σ) : Prop :=
  ∀ symbols, step.run (exchange state symbols) = exchanged symbols (step.run state)

/-- A step that does not look at the symbols is an inquiry without accesses. -/
theorem BlindAt.asks {step : EStateM Failure σ α} {state : σ} (blind : BlindAt step state) :
    Asks base step state (.done (step.run state)) :=
  ⟨fun finds => blind (base.keeping finds), _, .done _⟩

theorem inquires_of_blind {step : EStateM Failure σ α} (blind : ∀ state, BlindAt step state) :
    Inquires base step := fun state => ⟨_, (blind state).asks⟩

/-- Steps that run alike are the same inquiry, perhaps from other states. -/
theorem Asks.of_run {step other : EStateM Failure σ α} {state outside : σ} {told : Told σ α}
    (asks : Asks base other outside told)
    (runs : ∀ symbols, step.run (exchange state symbols) = other.run (exchange outside symbols)) :
    Asks base step state told :=
  ⟨fun finds => (runs _).trans (asks.runs finds), asks.settles⟩

theorem exists_asks_of_fails {step : EStateM Failure σ α} {state : σ} (failure : Failure)
    (fails : ∀ symbols, step.run (exchange state symbols) =
      .error failure (exchange state symbols)) : ∃ told, Asks base step state told :=
  have blind : BlindAt (throw failure : EStateM Failure σ α) state := fun _ => rfl
  ⟨_, blind.asks.of_run fails⟩

theorem inquires_pure (value : α) : Inquires base (pure value : EStateM Failure σ α) :=
  inquires_of_blind fun _ _ => rfl

theorem inquires_throw (failure : Failure) :
    Inquires base (throw failure : EStateM Failure σ α) := inquires_of_blind fun _ _ => rfl

theorem inquires_liftExcept (outcome : Except Failure α) :
    Inquires base (liftExcept outcome : EStateM Failure σ α) :=
  inquires_of_blind fun _ _ => by cases outcome <;> rfl

/-- What a step comes to is changed, and nothing else. The change may not look at
the symbols, which is what it has to commute with. -/
theorem Asks.change {τ : Type} [HasSymbols τ] {step : EStateM Failure σ α}
    {whole : EStateM Failure τ β} {state : σ} {outside : τ} {told : Told σ α}
    (asks : Asks base step state told)
    (change : EStateM.Result Failure σ α → EStateM.Result Failure τ β)
    (runs : ∀ symbols, whole.run (exchange outside symbols) =
      change (step.run (exchange state symbols)))
    (commutes : ∀ symbols result, change (exchanged symbols result) =
      exchanged symbols (change result)) :
    Asks base whole outside (told.bind fun result => .done (change result)) where
  runs finds := by
    rw [runs, asks.runs, commutes, Inquiry.run_bind]
    rfl
  settles :=
    have ⟨result, settles⟩ := asks.settles
    ⟨change result, settles.bind (.done _)⟩

namespace Inquires

variable {step : EStateM Failure σ α}

/-- Inquiries one after the other are an inquiry. If the first fails, nothing is
asked after it. What the second one asks may depend on the value and the state
that the first one leaves. -/
theorem bind {next : α → EStateM Failure σ β} (first : Inquires base step)
    (later : ∀ value, Inquires base (next value)) : Inquires base (step >>= next) := by
  intro state
  obtain ⟨told, asks⟩ := first state
  choose further asksNext using later
  refine ⟨told.bind fun
    | .ok value left => further value left
    | .error failure left => .done (.error failure left), fun finds => ?_, ?_⟩
  · rw [Steps.run_bind, asks.runs, Inquiry.run_bind]
    cases (told.run finds).1 with
    | ok value left => exact (asksNext value left).runs _
    | error failure left => rfl
  · obtain ⟨result, settles⟩ := asks.settles
    cases result with
    | ok value left =>
      obtain ⟨final, ends⟩ := (asksNext value left).settles
      exact ⟨final, settles.bind ends⟩
    | error failure left => exact ⟨_, settles.bind (.done _)⟩

/-- A failure may be handled by an inquiry. What was found before it failed is
still there, since a step that fails leaves its state behind. -/
theorem tryCatch {handle : Failure → EStateM Failure σ α} (first : Inquires base step)
    (handles : ∀ failure, Inquires base (handle failure)) :
    Inquires base (tryCatch step handle) := by
  intro state
  obtain ⟨told, asks⟩ := first state
  choose further asksNext using handles
  refine ⟨told.bind fun
    | .ok value left => .done (.ok value left)
    | .error failure left => further failure left, fun finds => ?_, ?_⟩
  · rw [Steps.run_tryCatch, asks.runs, Inquiry.run_bind]
    cases (told.run finds).1 with
    | ok value left => rfl
    | error failure left => exact (asksNext failure left).runs _
  · obtain ⟨result, settles⟩ := asks.settles
    cases result with
    | ok value left => exact ⟨_, settles.bind (.done _)⟩
    | error failure left =>
      obtain ⟨final, ends⟩ := (asksNext failure left).settles
      exact ⟨final, settles.bind ends⟩

/-- Failures may be told in another way, such as with a place. -/
theorem rethrow (asks : Inquires base step) (change : Failure → Failure) :
    Inquires base (MonadExcept.tryCatch step fun failure => throw (change failure)) :=
  asks.tryCatch fun failure => inquires_throw (change failure)

/-- A step that looks at the state, but not at what was found. What it goes on
with is the same however much has been found. -/
theorem get {next : σ → EStateM Failure σ α}
    (same : ∀ state finds, next (exchange state (base.keeping finds)) = next (exchange state base))
    (asks : ∀ state, Inquires base (next state)) : Inquires base (get >>= next) := by
  intro state
  obtain ⟨told, asks⟩ := asks (exchange state base) state
  refine ⟨told, fun finds => ?_, asks.settles⟩
  rw [Steps.run_bind, Steps.run_get]
  dsimp only
  rw [same, asks.runs]

theorem orGiveUp {hopeless : Prop} [Decidable hopeless] {failing : EStateM Failure σ PUnit}
    {next : PUnit → EStateM Failure σ α} (fails : Inquires base failing)
    (asks : ∀ going, Inquires base (next going)) :
    Inquires base (if hopeless then failing >>= next else next ⟨⟩) := by
  split
  · exact fails.bind asks
  · exact asks _

/-- A list of inquiries is an inquiry, by induction on the list. They are made in
order, and the first that fails ends them. -/
theorem mapM {step : β → EStateM Failure σ α} (asks : ∀ item, Inquires base (step item))
    (items : List β) : Inquires base (items.mapM step) := by
  induction items with
  | nil => exact inquires_pure []
  | cons item rest ih =>
    rw [List.mapM_cons]
    exact (asks item).bind fun value => ih.bind fun values => inquires_pure _

end Inquires

namespace Symbols

/-- What a search comes to is kept if it is a type. -/
def tellSearch (base : Symbols) (key : String × String) :
    Except Failure BoundType → Told Symbols BoundType
  | .ok found => .keep key found (.done (.ok found base))
  | .error failure => .done (.error failure base)

/-- A lookup recalls what was found, or else searches. -/
def tellLookup (base : Symbols) (assembly fullName : String) : Told Symbols BoundType :=
  .ask (key assembly fullName) fun
    | some found => .done (.ok found base)
    | none => tellSearch base (key assembly fullName)
        (searched base.modules (key assembly fullName).2 forwardingLimit assembly)

variable (unloaded : base.loader = none)

include unloaded

/-- The lookup of a type is an inquiry with one question, and keeps at most one
type. The question is the key, and its answer is what the search in the
registered modules comes to. -/
theorem inquires_lookup (assembly fullName : String) :
    Inquires base (lookup assembly fullName) := by
  refine fun _ => ⟨tellLookup base assembly fullName, fun finds => ?_, ?_⟩
  · change (lookup assembly fullName).run (base.keeping finds) = _
    rw [run_lookup (s := base.keeping finds) unloaded]
    change (match finds.lookup (key assembly fullName) with | some _ => _ | none => _ :
      EStateM.Result Failure Symbols BoundType) = _
    unfold tellLookup
    rw [Inquiry.run]
    cases finds.lookup (key assembly fullName) with
    | some found => rfl
    | none =>
      change (match searched base.modules _ _ _ with | .ok _ => _ | .error _ => _ :
        EStateM.Result Failure Symbols BoundType) = _
      dsimp only
      cases searched base.modules (key assembly fullName).2 forwardingLimit assembly <;> rfl
  · -- What is recalled is what the search would find.
    cases result : searched base.modules (key assembly fullName).2 forwardingLimit assembly with
    | ok found =>
      have right : Right base.modules (key assembly fullName) found := by
        rw [right_key_iff, result]
        rfl
      refine ⟨.ok found base, .ask fun told recalled => ?_⟩
      cases told with
      | some other =>
        have finds := right_key_iff.1 (recalled other rfl)
        rw [result] at finds
        obtain rfl : found = other := Option.some.inj finds
        exact .done _
      | none =>
        dsimp only
        rw [result]
        exact .keep right (.done _)
    | error failure =>
      refine ⟨.error failure base, .ask fun told recalled => ?_⟩
      cases told with
      | some other =>
        have finds := right_key_iff.1 (recalled other rfl)
        rw [result] at finds
        cases finds
      | none =>
        dsimp only
        rw [result]
        exact .done _

theorem inherited_inquires : Inherited fun _ => Inquires base where
  pure := inquires_pure
  throw _ := inquires_throw _
  bind first later := first.bind later
  lookup := inquires_lookup unloaded

theorem inquires_coreType (nameSpace name : String) : Inquires base (coreType nameSpace name) :=
  .get (fun _ _ => rfl) fun s => ((inherited_inquires unloaded).findType _ _).tryCatch fun _ =>
    inquires_pure (s.undefinedCoreType nameSpace name)

end Symbols

end InlineCil
