import InlineCil.Proofs.Framing.Whole
import InlineCil.Proofs.Inquiry.Rules

/-!
# Methods are independent

All methods of a pass share the symbols. Where nothing loads modules and none is
registered once types are looked up, what a method finds there is what it would
have found itself. So every method has the outcome that it has alone, whichever
methods are woven before it or at the same time.

Weaving a method is seen as an inquiry: it asks for types, and what it does next
depends on the answers alone. An inquiry settles on one product if all answers
are right, and symbols in use give right answers only, since each type they keep
is one that the search would find. From this the independence of methods woven
one after the other follows by induction on the methods.

The same argument covers methods that go on at once. Each of them is an inquiry
at some point of its questions, an access of one adds right finds for the others,
and a product once reached is the product that the method has alone.
-/

namespace InlineCil

namespace Woven

/-- What becomes of a method: its outcome or failure, and its body. -/
abbrev Product := Except Failure Outcome × Body

/-- What weaving leaves behind, but for the symbols. -/
def product (woven : Woven) : Product := (woven.result, woven.body)

end Woven

namespace Weave

/-- Weaving does what an inquiry says, whatever was found; and the inquiry comes
to one product as long as that is right. -/
structure Told (base : Symbols) (weave : Symbols → Woven) (asked : Inquiry Woven.Product) :
    Prop where
  weaves : ∀ finds, weave (base.keeping finds) =
    ⟨(asked.run finds).1.1, (asked.run finds).1.2, base.keeping (asked.run finds).2⟩
  settles : ∃ product, asked.Settles base.modules product

variable {base : Symbols}

/-- Weaving that does not look at what was found is an inquiry that asks nothing. -/
theorem Told.done (result : Except Failure Outcome) (b : Body) :
    Told base (fun symbols => ⟨result, b, symbols⟩) (.done (result, b)) :=
  ⟨fun _ => rfl, _, .done _⟩

/-- The inquiry comes to what becomes of the method where nothing was found yet,
since finding nothing is right. -/
theorem Told.settles_product {weave : Symbols → Woven} {asked : Inquiry Woven.Product}
    (told : Told base weave asked) (unused : base.types = []) :
    asked.Settles base.modules (weave base).product := by
  obtain ⟨product, settles⟩ := told.settles
  have comes : (asked.run []).1 = product := (settles.run sound_nil).1
  have weaves := told.weaves []
  rw [Symbols.keeping, ← unused] at weaves
  rwa [weaves, Woven.product, unused, comes]

/-- Weaving that goes on after a step that is an inquiry is one. The step may
leave more than its value, so both ways of ending are followed up. -/
theorem exists_told_after {σ α : Type} [HasSymbols σ] {step : EStateM Failure σ α}
    (asks : Inquires base step) (state : σ) {weave : Symbols → Woven}
    (goes : ∀ result, ∃ next asked, Told base next asked ∧ ∀ symbols left,
      step.run (HasSymbols.exchange state symbols) = exchanged left result →
        weave symbols = next left) :
    ∃ asked, Told base weave asked := by
  obtain ⟨told, asks⟩ := asks state
  choose next further tells goes using goes
  refine ⟨told.bind further, fun finds => ?_, ?_⟩
  · rw [goes _ _ _ (asks.runs finds), (tells _).weaves, Inquiry.run_bind]
  · obtain ⟨result, settles⟩ := asks.settles
    obtain ⟨product, ends⟩ := (tells result).settles
    exact ⟨product, settles.bind ends⟩

variable (unloaded : base.loader = none)

include unloaded

theorem inquires_stubConstructor : Inquires base stubConstructor :=
  (Symbols.inquires_coreType unloaded _ _).bind fun _ =>
    (Symbols.inquires_coreType unloaded _ _).bind fun _ =>
      (Symbols.inquires_coreType unloaded _ _).bind fun _ => inquires_pure _

/-- Giving a method up is an inquiry: it asks for the constructor of the stub and
for nothing else. Three core types are looked up for it, and each may be answered
by what others have found. -/
theorem exists_told_givenUp (name : String) (diagnostics : List Diagnostic) (b : Body) :
    ∃ asked, Told base (givenUp name diagnostics b) asked := by
  refine exists_told_after (inquires_stubConstructor unloaded) base fun result => ?_
  cases result with
  | ok constructor _ =>
    refine ⟨_, _, .done (.ok ⟨name, .stubbed, diagnostics⟩) (stub constructor b), ?_⟩
    intro symbols left ran
    have ran : stubConstructor.run symbols = .ok constructor left := ran
    rw [givenUp, ran]
  | error failure _ =>
    refine ⟨_, _, .done (.error (.inMethod name failure)) b, ?_⟩
    intro symbols left ran
    have ran : stubConstructor.run symbols = .error failure left := ran
    rw [givenUp, ran]

/-- Rewriting a method is an inquiry, that of its pass, and giving it up may come
after it. What is asked then depends on the answers so far, as it may in an
inquiry. -/
theorem exists_told_rewritten (settings : Settings) (j : Job) (optimized : Bool) :
    ∃ asked, Told base (rewritten settings j optimized) asked := by
  let frame : Frame :=
    { settings, method := j.method, blocks := Blocks.ofBody j.body,
      mapsPoints := settings.points.enabled optimized }
  let locator := SourceLocator.ofBody j.body
  have inquires : Inquires base (Rewrite.run frame) := Rewrite.inquires_run unloaded
  refine exists_told_after inquires { body := j.body, symbols := base } fun result => ?_
  cases result with
  | ok warnings final =>
    let diagnostics := diagnosed j.displayName
      (if settings.warningsAsErrors then .error else .warning) locator warnings
    have rewrites {symbols left : Symbols}
        (ran : (Rewrite.run frame).run { body := j.body, symbols } =
          .ok warnings { final with symbols := left }) :
        rewritten settings j optimized symbols =
          if settings.warningsAsErrors && !diagnostics.isEmpty then
            givenUp j.displayName diagnostics final.body left
          else ⟨.ok ⟨j.displayName, .rewritten, diagnostics⟩, final.body, left⟩ := by
      rw [rewritten, ran]
    by_cases refused : (settings.warningsAsErrors && !diagnostics.isEmpty) = true
    · obtain ⟨asked, told⟩ := exists_told_givenUp unloaded j.displayName diagnostics final.body
      refine ⟨_, asked, told, fun symbols left ran => ?_⟩
      rw [rewrites ran, if_pos refused]
    · refine ⟨_, _, .done (.ok ⟨j.displayName, .rewritten, diagnostics⟩) final.body, ?_⟩
      intro symbols left ran
      rw [rewrites ran, if_neg refused]
  | error failure final =>
    have fails {symbols left : Symbols}
        (ran : (Rewrite.run frame).run { body := j.body, symbols } =
          .error failure { final with symbols := left }) :
        rewritten settings j optimized symbols =
          if failure.isRecoverable then
            givenUp j.displayName [refusal j.displayName locator failure] final.body left
          else ⟨.error (.inMethod j.displayName failure), final.body, left⟩ := by
      rw [rewritten, ran]
    by_cases recoverable : failure.isRecoverable = true
    · obtain ⟨asked, told⟩ := exists_told_givenUp unloaded j.displayName
        [refusal j.displayName locator failure] final.body
      refine ⟨_, asked, told, fun symbols left ran => ?_⟩
      rw [fails ran, if_pos recoverable]
    · refine ⟨_, _, .done (.error (.inMethod j.displayName failure)) final.body, ?_⟩
      intro symbols left ran
      rw [fails ran, if_neg recoverable]

/-- Weaving a method is an inquiry, whether or not the method is looked at. A
method without markers asks nothing, and the current module is the same however
much has been found. -/
theorem exists_told_method (settings : Settings) (j : Job) :
    ∃ asked, Told base (method settings j) asked := by
  unfold method
  split
  · exact ⟨_, .done _ j.body⟩
  · cases current : base.currentModule with
    | error failure =>
      have same (finds : Finds) : (base.keeping finds).currentModule = .error failure := current
      have told : Told base (fun symbols => ⟨.error (.inMethod j.displayName failure), j.body,
          symbols⟩) (.done (.error (.inMethod j.displayName failure), j.body)) := .done _ _
      refine ⟨_, fun finds => ?_, told.settles⟩
      rw [same]
      exact told.weaves finds
    | ok module =>
      have same (finds : Finds) : (base.keeping finds).currentModule = .ok module := current
      obtain ⟨asked, weaves, settles⟩ :=
        exists_told_rewritten unloaded settings j module.optimized
      refine ⟨asked, fun finds => ?_, settles⟩
      rw [same]
      exact weaves finds

omit unloaded

/-- Symbols in use: types are looked up and methods are woven, but no module is
registered. -/
inductive InUse (fresh : Symbols) : Symbols → Prop where
  | fresh : InUse fresh fresh
  | called {symbols : Symbols} (used : InUse fresh symbols) (call : Symbols.Call)
      (looks : ∀ module, call ≠ .add module) : InUse fresh (call.after symbols)
  | woven {symbols : Symbols} (used : InUse fresh symbols) (settings : Settings) (job : Job) :
      InUse fresh (method settings job symbols).symbols

/-- A step that is an inquiry leaves the symbols with other finds that are right.
Modules and everything else in the symbols are the same as before. -/
theorem exists_leftBy {α : Type} {step : Resolving α} (asks : Inquires base step) {finds : Finds}
    (sound : Sound base.modules finds) :
    ∃ kept, Sound base.modules kept ∧
      Symbols.leftBy step (base.keeping finds) = base.keeping kept := by
  obtain ⟨told, runs, result, settles⟩ := asks base
  refine ⟨(told.run finds).2, (settles.run sound).2, ?_⟩
  have ran : step.run (base.keeping finds) =
    exchanged (base.keeping (told.run finds).2) (told.run finds).1 := runs finds
  rw [Symbols.leftBy, ran]
  cases (told.run finds).1 <;> rfl

/-- In use, symbols only gain finds that are right. By induction on the use.
Every call is an inquiry, so what it leaves is what it found with what was there;
registering modules is excluded. -/
theorem InUse.exists_finds {fresh symbols : Symbols} (unloaded : fresh.loader = none)
    (unused : fresh.types = []) (used : InUse fresh symbols) :
    ∃ finds, Sound fresh.modules finds ∧ symbols = fresh.keeping finds := by
  induction used with
  | fresh => exact ⟨[], sound_nil, by rw [Symbols.keeping, ← unused]⟩
  | called used call looks ih =>
    obtain ⟨finds, sound, rfl⟩ := ih
    have lookups := Symbols.inherited_inquires unloaded
    cases call with
    | add module => exact absurd rfl (looks module)
    | findType assembly fullName => exact exists_leftBy (lookups.findType _ _) sound
    | resolve name => exact exists_leftBy (lookups.resolve _) sound
    | coreType nameSpace name => exact exists_leftBy (Symbols.inquires_coreType unloaded _ _) sound
  | woven used settings job ih =>
    obtain ⟨finds, sound, rfl⟩ := ih
    obtain ⟨asked, weaves, product, settles⟩ := exists_told_method unloaded settings job
    exact ⟨(asked.run finds).2, (settles.run sound).2, by rw [weaves]⟩

/-- In use, symbols make no difference to a method: its inquiry settles on one
product. -/
theorem InUse.product_eq {fresh symbols : Symbols} (unloaded : fresh.loader = none)
    (unused : fresh.types = []) (used : InUse fresh symbols) (settings : Settings) (job : Job) :
    (method settings job symbols).product = (method settings job fresh).product := by
  obtain ⟨finds, sound, rfl⟩ := used.exists_finds unloaded unused
  obtain ⟨asked, told⟩ := exists_told_method unloaded settings job
  rw [told.weaves]
  exact ((told.settles_product unused).run sound).1

/-- Methods woven one after the other have the products that they have alone. By
induction on the methods; each leaves symbols that are in use. -/
theorem InUse.products_eq {fresh symbols : Symbols} (unloaded : fresh.loader = none)
    (unused : fresh.types = []) (used : InUse fresh symbols) (settings : Settings)
    (jobs : List Job) : (methods settings jobs symbols).map Woven.product =
      jobs.map fun job => (method settings job fresh).product := by
  induction jobs generalizing symbols with
  | nil => rfl
  | cons job rest ih =>
    rw [methods, List.map_cons, List.map_cons, ih (used.woven settings job),
      used.product_eq unloaded unused]

/-- The report tells the results that the methods have alone. So the order in
which methods are woven shows in the report as the order of its lines only. -/
theorem InUse.report_eq {fresh symbols : Symbols} (unloaded : fresh.loader = none)
    (unused : fresh.types = []) (used : InUse fresh symbols) (settings : Settings)
    (jobs : List Job) : report (methods settings jobs symbols) =
      Report.mk <$> jobs.mapM fun job => (method settings job fresh).result := by
  have results (woven : List Woven) :
      woven.mapM Woven.result = (woven.map Woven.product).mapM Prod.fst := by
    rw [List.mapM_map]
    rfl
  rw [report, results, used.products_eq unloaded unused, List.mapM_map, map_eq_pure_bind]
  rfl

/-- Jobs on symbols in use are independent: each has the product that it has
alone on fresh symbols. So a permutation of the jobs permutes the products with
them; the report gives the outcomes that the jobs have alone, or the failure of
the first job that fails alone. And it is the same if the jobs go on at once,
their accesses to what was found mixed in any order: a job that has come to its
end has the product that it has alone, and all jobs come to their ends. -/
structure Independent (settings : Settings) (fresh symbols : Symbols) (jobs : List Job) :
    Prop where
  products : (methods settings jobs symbols).map Woven.product =
    jobs.map fun job => (method settings job fresh).product
  permuted : ∀ others : List Job, others.Perm jobs →
    (others.zip ((methods settings others symbols).map Woven.product)).Perm
      (jobs.zip ((methods settings jobs symbols).map Woven.product))
  reported : ∀ outcomes, report (methods settings jobs symbols) = .ok ⟨outcomes⟩ ↔
    List.Forall₂ (fun job outcome => (method settings job fresh).result = .ok outcome) jobs outcomes
  failed : ∀ failure, report (methods settings jobs symbols) = .error failure ↔
    ∃ before job after, jobs = before ++ job :: after ∧
      (∀ earlier ∈ before, ∃ outcome, (method settings earlier fresh).result = .ok outcome) ∧
        (method settings job fresh).result = .error failure
  mixed : ∃ asked : Job → Inquiry Woven.Product,
    (∀ job, Told fresh (method settings job) (asked job)) ∧
      ∀ now, Inquiry.Reaches ⟨fun i : Fin jobs.length => asked jobs[i], symbols.types⟩ now →
        (∀ i product, now.inquiries i = .done product →
          product = (method settings jobs[i] fresh).product) ∧
        ∃ final, Inquiry.Reaches now final ∧
          ∀ i, final.inquiries i = .done (method settings jobs[i] fresh).product

/-- Where nothing loads modules and all of them were registered before the first
lookup, the methods of a pass are independent. -/
theorem methods_independent (settings : Settings) (fresh symbols : Symbols)
    (unloaded : fresh.loader = none) (unused : fresh.types = []) (used : InUse fresh symbols)
    (jobs : List Job) : Independent settings fresh symbols jobs where
  products := used.products_eq unloaded unused settings jobs
  permuted others permutes := by
    simp only [used.products_eq unloaded unused settings]
    rw [← List.map_prod_left_eq_zip, ← List.map_prod_left_eq_zip]
    exact permutes.map _
  reported outcomes := by
    rw [used.report_eq unloaded unused, ← Steps.mapM_eq_ok_iff]
    cases jobs.mapM fun job => (method settings job fresh).result <;> simp
  failed failure := by
    rw [used.report_eq unloaded unused, ← Steps.mapM_eq_error_iff]
    cases jobs.mapM fun job => (method settings job fresh).result <;> simp
  mixed := by
    obtain ⟨finds, sound, rfl⟩ := used.exists_finds unloaded unused
    choose asked told using exists_told_method unloaded settings
    refine ⟨asked, told, fun now reaches => ?_⟩
    have settle : now.Settle fresh.modules
        fun i : Fin jobs.length => (method settings jobs[i] fresh).product :=
      Inquiry.Going.Settle.reaches ⟨fun i => (told jobs[i]).settles_product unused, sound⟩ reaches
    refine ⟨fun i product done => settle.eq done, ?_⟩
    obtain ⟨final, further, all⟩ := Inquiry.exists_reaches_all_done now (List.finRange jobs.length)
    refine ⟨final, further, fun i => ?_⟩
    obtain ⟨product, done⟩ := all i (List.mem_finRange i)
    rw [done, (settle.reaches further).eq done]

/-- A method that is given up and one that is rewritten are independent on
symbols that have found a type before. -/
theorem methods_independent_returning_marking :
    let used := (Symbols.Call.findType "FACADE" "Lib.Moved").after Symbols.forwardingSymbols
    Symbols.forwardingSymbols.loader = none ∧ Symbols.forwardingSymbols.types = [] ∧
      InUse Symbols.forwardingSymbols used ∧ used.types ≠ [] ∧
      Independent {} Symbols.forwardingSymbols used [returningJob, markingJob] := by
  have used : InUse Symbols.forwardingSymbols
      ((Symbols.Call.findType "FACADE" "Lib.Moved").after Symbols.forwardingSymbols) :=
    .called .fresh _ fun module => by simp
  exact ⟨rfl, rfl, used, by decide, methods_independent {} _ _ rfl rfl used _⟩

end Weave

end InlineCil
