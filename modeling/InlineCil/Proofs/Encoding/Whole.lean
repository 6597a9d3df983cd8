import InlineCil.Proofs.Encoding.Closing
import InlineCil.Proofs.Encoding.Code
import InlineCil.Proofs.Encoding.Rules
import InlineCil.Proofs.Framing.Whole

/-!
# Weaving encoded code

A pass over encoded code goes from statement to statement and closes without
complaint, so that the woven method is what was described: an instruction for
each item, in order, and no other. All it takes is that the labels add up: each
one that is branched to is marked, and none is marked twice.

`Progress.statements` is the induction. It goes along the description, which has
one constructor for each sort of statement, and the invariant of progress is what
each step hands to the next. `run_of_described` adds the beginning and the
closing of a pass, and `method_of_encoded` the surroundings of a method.

The second half is about the conditions. Declared variables have to fit because a
method that does not satisfy this is never rewritten, which `fit_of_rewritten`
shows for every method that holds a program with a declaration.
`encoded_not_rewritten` has programs that satisfy all but one of the conditions
and are refused.
-/

namespace InlineCil

variable {frame : Frame} {original : Body} {added : List Local} {scope : Option Scope}
  {items more : List Item} {pending : List Line} {symbols final : Symbols} {state : Rewriting}

/-- Lines that hold a call with its arguments before it, and more, are split into
lines that hold each part. -/
theorem split_of_held {arguments others : List Instruction} {called : Instruction}
    (held : pending.map Line.instruction = (arguments ++ [called]) ++ others) :
    ∃ args call rest, pending = args ++ call :: rest ∧ args.map Line.instruction = arguments ∧
      call.instruction = called ∧ rest.map Line.instruction = others := by
  rw [List.append_assoc] at held
  obtain ⟨args, site, rfl, heldArgs, heldSite⟩ := List.map_eq_append_iff.1 held
  obtain ⟨call, rest, rfl, heldCall, heldRest⟩ := List.map_eq_cons_iff.1 heldSite
  exact ⟨args, call, rest, rfl, heldArgs, heldCall, heldRest⟩

namespace Progress

/-- A pass over statements describes their items one after the other, by
induction on the description. A label may be marked once only, so the names
marked so far and those still to come are all different. -/
theorem statements {statements : List (Statement (Rewrite.space frame))}
    (described : Statement.Describe frame.method scope statements symbols more final)
    (blocks : frame.blocks = Blocks.ofBody original) (nameless : Blocks.namedPlaces original = [])
    (progress : Progress original added scope items pending symbols state)
    (held : pending.map Line.instruction = statements.flatMap Statement.code)
    (named : ∀ item ∈ more, ∀ name ∈ item.uses ++ item.marks, name ≠ "")
    (once : ((items ++ more).flatMap Item.marks).Nodup)
    {visits : Nat} (enough : pending.length ≤ visits) :
    ∃ reached, (Rewrite.scan frame visits (pending.head?.map Line.place)).run state =
        .ok () reached ∧
      Progress original added scope (items ++ more) [] final reached := by
  induction described generalizing items pending state visits with
  | nothing symbols =>
    obtain rfl : pending = [] := by simpa using held
    refine ⟨state, ?_, by simpa using progress⟩
    cases visits <;> rfl
  | @plain i outside branchless rest symbols final more others ih =>
    obtain ⟨line, pending, rfl, rfl, heldRest⟩ := List.map_eq_cons_iff.1 held
    obtain ⟨done, split, -⟩ := progress.parts
    obtain ⟨visits, rfl⟩ := Nat.exists_eq_add_of_le' (Nat.le_trans (by simp) enough : 1 ≤ visits)
    obtain ⟨reached, run, after⟩ := ih (progress.plain) heldRest
      (fun item member => named item (List.mem_cons_of_mem _ member)) (by simpa using once)
      (by simpa using enough)
    refine ⟨reached, ?_, by simpa using after⟩
    have visited := @Rewrite.run_visit frame _ _ _ _ split
    rw [outside] at visited
    exact Steps.run_bind_ok.2 ⟨_, _, visited, run⟩
  | @emit opcode parameter argument call calls rest symbols found final value item more denotes
      emits others ih =>
    obtain ⟨args, site, pending, rfl, heldArgs, rfl, heldRest⟩ := split_of_held held
    obtain ⟨done, split, -⟩ := progress.parts
    obtain ⟨middle, ran, next⟩ := progress.emit blocks nameless heldArgs denotes emits
      fun name member => named item List.mem_cons_self name (List.mem_append_left _ member)
    have parts := (Marker.Reads.emitted opcode argument).argumental
    obtain ⟨left, room, steps⟩ :=
      Rewrite.run_scan_of_site split (heldArgs ▸ parts) calls enough
    obtain ⟨reached, run, after⟩ := ih next heldRest
      (fun other member => named other (List.mem_cons_of_mem _ member)) (by simpa using once) room
    exact ⟨reached, steps.trans (Steps.run_bind_ok.2 ⟨_, _, ran, run⟩), by simpa using after⟩
  | @mark name call calls rest symbols final more others ih =>
    have code : (Statement.mark name call calls).code = [⟨.ldstr, .string name⟩] ++ [call] := rfl
    rw [List.flatMap_cons, code] at held
    obtain ⟨args, site, pending, rfl, heldArgs, rfl, heldRest⟩ := split_of_held held
    obtain ⟨done, split, -⟩ := progress.parts
    have unmarked : name ∉ items.flatMap Item.marks := by
      rw [List.flatMap_append, List.flatMap_cons] at once
      intro earlier
      exact (List.nodup_append.1 once).2.2 name earlier name (by simp [Item.marks]) rfl
    obtain ⟨middle, ran, next⟩ := progress.markLabel blocks nameless heldArgs
      (named _ List.mem_cons_self name (by simp [Item.marks])) unmarked
    have parts : Argumental (Rewrite.space frame) [⟨.ldstr, .string name⟩] :=
      (Expression.text name).argumental
    obtain ⟨left, room, steps⟩ :=
      Rewrite.run_scan_of_site split (heldArgs ▸ parts) calls enough
    obtain ⟨reached, run, after⟩ := ih next heldRest
      (fun other member => named other (List.mem_cons_of_mem _ member)) (by simpa using once) room
    exact ⟨reached, steps.trans (Steps.run_bind_ok.2 ⟨_, _, ran, run⟩), by simpa using after⟩

/-- Before a pass everything is pending and no item has been described. The code
of a program branches nowhere and has no clauses. -/
theorem initial (branchless : ∀ line ∈ original.code.linked, line.instruction.targets = [])
    (clauses : original.clauses = []) (symbols : Symbols) :
    Progress original [] none [] original.code.linked symbols { body := original, symbols } where
  parts := ⟨[], rfl, .nil⟩
  untouched := ⟨[], rfl⟩
  targets line member target goes := by simp [branchless line member] at goes
  clauses := clauses
  locals := (List.append_nil _).symm
  scope := rfl
  symbols := rfl
  labelled := Labelled.initial original.code

/-- A pass over a program describes its items; if local variables are declared,
that is done first, and the scope of the statements is then that of the
declaration. -/
theorem program {p : Program (Rewrite.space frame)}
    (described : p.Describes frame.method original.locals.length symbols items added final)
    (blocks : frame.blocks = Blocks.ofBody original) (nameless : Blocks.namedPlaces original = [])
    (progress : Progress original [] none [] original.code.linked symbols state)
    (held : original.code.linked.map Line.instruction = p.code)
    (named : ∀ item ∈ items, ∀ name ∈ item.uses ++ item.marks, name ≠ "")
    (once : (items.flatMap Item.marks).Nodup) :
    ∃ reached scope, (Rewrite.scan frame original.code.linked.length original.code.first?).run
        state = .ok () reached ∧ Progress original added scope items [] final reached := by
  unfold Code.first?
  generalize original.code.linked = pending at progress held
  cases described with
  | undeclared described =>
    obtain ⟨reached, run, after⟩ := progress.statements described blocks nameless held named once
      (Nat.le_refl _)
    exact ⟨reached, none, run, after⟩
  | @declared d statements _ found _ declared init _ _ denotes fit adds described =>
    obtain ⟨args, site, rest, rfl, heldArgs, same, heldRest⟩ := split_of_held held
    obtain ⟨done, split, -⟩ := progress.parts
    obtain ⟨middle, ran, next⟩ :=
      progress.declareLocals blocks nameless heldArgs denotes fit adds
    have parts := (Marker.Reads.declarations d.arguments).argumental
    have calls := d.calls
    rw [← same] at calls
    obtain ⟨left, enough, steps⟩ :=
      Rewrite.run_scan_of_site split (heldArgs ▸ parts) calls (Nat.le_refl _)
    obtain ⟨reached, run, after⟩ := next.statements described blocks nameless heldRest named once
      enough
    exact ⟨reached, _, steps.trans (Steps.run_bind_ok.2 ⟨_, _, ran, run⟩), after⟩

end Progress

/-- A body is an encoded program, each operand of the kind that its opcode takes. -/
structure Body.Encodes {space : String} (b : Body) (p : Program space) : Prop where
  code : b.code.linked.map Line.instruction = p.code
  wellTyped : ∀ i ∈ p.code, i.isWellTyped = true
  clauses : b.clauses = []

/-- A body consists of items: one line for each, in order, and branches go to the
lines of their labels. -/
def Body.Consists (b : Body) (items : List Item) : Prop :=
  ∃ place?, List.Forall₂ (Item.Stands place?) items b.code.linked

/-- The labels of items add up: they have names, no two items mark the same one,
and those that are branched to are marked. -/
structure Item.LabelsAddUp (items : List Item) : Prop where
  named : ∀ item ∈ items, ∀ name ∈ item.uses ++ item.marks, name ≠ ""
  once : (items.flatMap marks).Nodup
  marked : ∀ name ∈ items.flatMap uses, name ∈ items.flatMap marks

namespace Body.Encodes

variable {space : String} {p : Program space}

theorem branchless (encodes : original.Encodes p) :
    ∀ line ∈ original.code.linked, line.instruction.targets = [] := fun _ member =>
  p.branchless encodes.wellTyped _ (encodes.code ▸ List.mem_map_of_mem member)

/-- Nothing in encoded code is named: no line branches, and there are no clauses. -/
theorem nameless (encodes : original.Encodes p) : Blocks.namedPlaces original = [] := by
  simpa [Blocks.namedPlaces, encodes.clauses] using encodes.branchless

/-- A pass over a body that holds a program begins with everything pending. -/
theorem progress (encodes : original.Encodes p) (symbols : Symbols) :
    Progress original [] none [] original.code.linked symbols { body := original, symbols } :=
  .initial encodes.branchless encodes.clauses symbols

/-- A method that holds a program with markers is looked at, because some
instruction of it mentions the namespace. -/
theorem usesMarkers {j : Job} (encodes : j.body.Encodes p) (uses : p.usesMarkers = true) :
    j.usesMarkers space = true := by
  obtain ⟨i, among, mentions⟩ := Program.references uses
  obtain ⟨line, member, same⟩ := List.mem_map.1 (encodes.code ▸ among)
  cases used : j.usesMarkers space with
  | true => rfl
  | false =>
    have clean := (Job.usesMarkers_eq_false.1 used).1.operands line member
    simp [same, mentions] at clean

end Body.Encodes

namespace Rewrite

/-- A pass over encoded code comes to its end, and what is left is what was
described: the items as lines, and the added variables after those of the body. -/
theorem run_of_described {p : Program (space frame)} (encodes : original.Encodes p)
    (blocks : frame.blocks = Blocks.ofBody original)
    (described : p.Describes frame.method original.locals.length symbols items added final)
    (labels : Item.LabelsAddUp items)
    (outside : ∀ item ∈ items, item.references (space frame) = false)
    (types : ∀ found ∈ original.locals ++ added, found.type.references (space frame) = false) :
    ∃ warnings reached, (run frame).run { body := original, symbols } = .ok warnings reached ∧
      reached.body.Consists items ∧ reached.body.locals = original.locals ++ added := by
  obtain ⟨reached, scope, scanned, progress⟩ := (encodes.progress symbols).program described
    blocks encodes.nameless encodes.code labels.named labels.once
  obtain ⟨warnings, closed⟩ := progress.finish labels.marked described.still outside types
  obtain ⟨done, split, stands⟩ := progress.parts
  refine ⟨warnings, { reached with body := PointMap.finish reached.body },
    Steps.run_bind_ok.2 ⟨_, _, run_body _, ?_⟩, ?_, progress.locals⟩
  · exact Steps.run_bind_ok.2 ⟨(), _, scanned, closed⟩
  · rw [List.append_nil] at split
    exact ⟨_, split ▸ stands⟩

/-- A pass that came to its end had room for the declared variables, and they
have different names. The declaring call is the first one that a pass meets, so
the scan begins with its rule. -/
theorem fit_of_run {inside : String} (same : space frame = inside) {d : Declaration inside}
    {statements : List (Statement inside)} {declared : List LocalDeclaration} {init : Bool}
    {warnings : List (Warning × Place)} {reached : Rewriting} {found : Symbols}
    (encodes : original.Encodes ⟨some d, statements⟩)
    (blocks : frame.blocks = Blocks.ofBody original)
    (denotes : d.arguments.denote.run symbols = .ok (declared, init) found)
    (ran : (run frame).run { body := original, symbols } = .ok warnings reached) :
    LocalDeclaration.Fit original.locals.length declared := by
  subst same
  obtain ⟨args, site, rest, whole, heldArgs, called, heldRest⟩ := split_of_held encodes.code
  obtain ⟨_, _, scanned, -⟩ := Steps.run_bind_ok.1 (body_bind_eq_ok.1 ran)
  have progress := encodes.progress symbols
  unfold Code.first? at scanned
  rw [whole] at progress scanned
  have calls := d.calls
  rw [← called] at calls
  have parts := (Marker.Reads.declarations d.arguments).argumental
  have split : ({ body := original, symbols } : Rewriting).body.code.linked =
      [] ++ (args ++ site :: rest) := whole
  obtain ⟨left, -, steps⟩ := run_scan_of_site split (heldArgs ▸ parts) calls (Nat.le_refl _)
  obtain ⟨_, _, declares, -⟩ := Steps.run_bind_ok.1 (steps.symm.trans scanned)
  exact progress.fit_of_declareLocals blocks encodes.nameless heldArgs denotes declares

end Rewrite

namespace Weave

/-- A pass that comes to its end leaves a rewritten method, unless warnings count as
errors. -/
theorem rewritten_of_run {settings : Settings} {j : Job} {optimized : Bool} {symbols : Symbols}
    {warnings : List (Warning × Place)} {reached : Rewriting}
    (tolerant : settings.warningsAsErrors = false)
    (passed : (Rewrite.run
      { settings, method := j.method, blocks := Blocks.ofBody j.body,
        mapsPoints := settings.points.enabled optimized }).run { body := j.body, symbols } =
          .ok warnings reached) :
    ∃ diagnostics, rewritten settings j optimized symbols =
      ⟨.ok ⟨j.displayName, .rewritten, diagnostics⟩, reached.body, reached.symbols⟩ := by
  unfold rewritten
  dsimp only
  rw [passed, tolerant]
  exact ⟨_, rfl⟩

/-- A method is rewritten only if the local variables that it declares find room
and have different names. So no program can do without the condition that its
variables fit. -/
theorem fit_of_rewritten {settings : Settings} {j : Job} {symbols found : Symbols}
    {d : Declaration settings.markerNamespace}
    {statements : List (Statement settings.markerNamespace)}
    {declared : List LocalDeclaration} {init : Bool} {outcome : Outcome}
    (encodes : j.body.Encodes ⟨some d, statements⟩)
    (denotes : d.arguments.denote.run symbols = .ok (declared, init) found)
    (gave : (method settings j symbols).result = .ok outcome)
    (status : outcome.status = .rewritten) :
    LocalDeclaration.Fit j.body.locals.length declared := by
  obtain ⟨frame, warnings, reached, space, blocks, passed, -⟩ := run_of_rewritten gave status
  exact Rewrite.fit_of_run space encodes blocks denotes passed

/-- A type of the core library. -/
def coreType (name : String) : TypeSig := emptyProgram.undefinedCoreType "System" name

/-- A type of the vocabulary. -/
def vocabularyType (enclosing : List String) (name : String) : TypeSig :=
  .named { scope := "InlineIL", nameSpace := "InlineIL", enclosing, name, isValueType := false }

/-- A call of a method that gives nothing back. -/
def plainCall (opcode : Opcode) (declaringType : TypeSig) (name : String)
    (parameters : List TypeSig) : Instruction :=
  ⟨opcode, .method { declaringType, name, parameters, returnType := coreType "Void" }⟩

/-- A method that holds a program and has some local variables of its own. -/
def holdingJob (p : Program "InlineIL") (own : Nat) : Job where
  declaringType := { nameSpace := "Program", name := "Main" }
  method := { name := "Run", returnType := coreType "Void" }
  body := { ({} : Body).pushAll p.code with
    locals := List.replicate own { type := coreType "Int32" } }

/-- Every well-typed program is held by a method: its instructions are the body,
and it has no clauses. -/
theorem encodes_holdingJob (p : Program "InlineIL") (own : Nat)
    (wellTyped : ∀ i ∈ p.code, i.isWellTyped = true) : (holdingJob p own).body.Encodes p where
  code := Body.instructions_pushAll {} p.code
  wellTyped := wellTyped
  clauses := by
    obtain ⟨code, same⟩ := Body.pushAll_eq {} p.code
    exact congrArg Body.clauses same

/-- The statement that marks a label. -/
def markStatement (name : String) : Statement "InlineIL" :=
  .mark name (plainCall .call (vocabularyType [] "IL") "MarkLabel" [coreType "String"]) rfl

/-- A program that skips an instruction. -/
def skippingProgram : Program "InlineIL" where
  declaration := none
  statements :=
    [.emit (EmitArgument.given .string .string rfl (.text "exit"))
        (plainCall .call (vocabularyType ["IL"] "Emit") "Br" [coreType "String"])
        (show _ = Except.ok (some (Marker.emit .br .string)) from rfl),
      .plain ⟨.nop, .none⟩ rfl rfl, markStatement "exit", .plain ⟨.ret, .none⟩ rfl rfl]

/-- Weaving undoes encoding: a method that holds a program is rewritten to the
items that the program describes, one line for each and no other, and declared
variables come after its own.

All operands have to be found, labels have to add up, and what is left may not
mention the vocabulary. These are conditions on the program and not on the pass,
whose steps are derived to succeed. -/
theorem method_of_encoded (settings : Settings) (j : Job) (symbols final : Symbols)
    (p : Program settings.markerNamespace) (items : List Item) (added : List Local)
    (tolerant : settings.warningsAsErrors = false)
    (known : ∃ current, symbols.currentModule = .ok current)
    (encodes : j.body.Encodes p) (uses : p.usesMarkers = true)
    (described : p.Describes j.method j.body.locals.length symbols items added final)
    (labels : Item.LabelsAddUp items)
    (outside : ∀ item ∈ items, item.references settings.markerNamespace = false)
    (types : ∀ found ∈ j.body.locals ++ added,
      found.type.references settings.markerNamespace = false) :
    (∃ outcome, (method settings j symbols).result = .ok outcome ∧
        outcome.status = .rewritten) ∧
      (method settings j symbols).body.Consists items ∧
      (method settings j symbols).body.locals = j.body.locals ++ added := by
  obtain ⟨current, known⟩ := known
  have run := @Rewrite.run_of_described
    { settings, method := j.method, blocks := Blocks.ofBody j.body,
      mapsPoints := settings.points.enabled current.optimized } j.body added items symbols final p
    encodes rfl described labels outside types
  obtain ⟨warnings, reached, passed, consists, locals⟩ := run
  have weaves : method settings j symbols = rewritten settings j current.optimized symbols := by
    unfold method
    rw [encodes.usesMarkers uses, known]
    rfl
  obtain ⟨diagnostics, rewrites⟩ := rewritten_of_run tolerant passed
  rw [weaves, rewrites]
  exact ⟨⟨_, rfl, rfl⟩, consists, locals⟩

/-- The program that branches over one instruction is woven into the branch, the
instruction, the line of the label and the return. -/
theorem method_of_encoded_skippingProgram :
    (∃ outcome, (method {} (holdingJob skippingProgram 0) emptyProgram).result = .ok outcome ∧
        outcome.status = .rewritten) ∧
      (method {} (holdingJob skippingProgram 0) emptyProgram).body.Consists
        [.branch .br "exit", .operation .nop .none, .label "exit", .operation .ret .none] ∧
      (method {} (holdingJob skippingProgram 0) emptyProgram).body.locals = [] :=
  method_of_encoded {} (holdingJob skippingProgram 0) emptyProgram emptyProgram skippingProgram _ []
    rfl ⟨_, rfl⟩ (encodes_holdingJob _ _ (by decide)) rfl
    (.undeclared (.emit rfl (.branch rfl) (.plain (.mark (.plain (.nothing _))))))
    ⟨by decide, by decide, by decide⟩ (by decide) (by decide)

/-- A program that marks a label twice and never goes there, and what it
describes. -/
def repeatingProgram : Program "InlineIL" where
  declaration := none
  statements := [markStatement "exit", markStatement "exit", .plain ⟨.ret, .none⟩ rfl rfl]

def repeatingItems : List Item := [.label "exit", .label "exit", .operation .ret .none]

/-- The declaration of a named variable. -/
def variableNamed (name : String) : Expression "InlineIL" .localVariable :=
  .localVariable (.present (.text name))
    (.typeToken (coreType "Int32")
      (plainCall .call (coreType "Type") "GetTypeFromHandle" [coreType "RuntimeTypeHandle"]) rfl)
    (plainCall .newobj (vocabularyType [] "LocalVar") ".ctor" [coreType "String", coreType "Type"])
    rfl

/-- The declarations of two named variables. -/
def variablesNamed (first second : String) : Expression "InlineIL" (.array .localVariable) :=
  .filledArray (.whole (.literal ⟨.ldcI42, .none⟩ (.int32 2) rfl))
    (.nextElement
      (.firstElement ⟨.newarr, .type (vocabularyType [] "LocalVar")⟩ ⟨.dup, .none⟩ rfl
        (.refl Opcode.dup) (Rewrite.zero "InlineIL") (variableNamed first))
      ⟨.stelem, .type (vocabularyType [] "LocalVar")⟩ ⟨.dup, .none⟩ rfl (.refl Opcode.dup)
      (Rewrite.one "InlineIL") (variableNamed second))
    ⟨.stelem, .type (vocabularyType [] "LocalVar")⟩ rfl

/-- The declarations of no variables. -/
def noVariables : Expression "InlineIL" (.array .localVariable) :=
  .emptyArray ⟨.call, .method
    { declaringType := coreType "Array"
      name := "Empty"
      genericArguments := [vocabularyType [] "LocalVar"]
      returnType := .array (.genericParameter .method 0) 1 }⟩ rfl

/-- The call that declares variables. -/
def declaring (declared : Expression "InlineIL" (.array .localVariable)) :
    Declaration "InlineIL" where
  hasInitFlag := false
  arguments := ⟨.absent, declared⟩
  call := plainCall .call (vocabularyType [] "IL") "DeclareLocals"
    [.array (vocabularyType [] "LocalVar") 1]
  calls := rfl

/-- A program that declares variables and does nothing else. -/
def declaringProgram (declared : Expression "InlineIL" (.array .localVariable)) :
    Program "InlineIL" := ⟨some (declaring declared), [.plain ⟨.ret, .none⟩ rfl rfl]⟩

/-- If the program is rewritten, then its variables fit after those of the
method. -/
theorem fit_of_declaringProgram {declared : Expression "InlineIL" (.array .localVariable)}
    {own : Nat} {values : List LocalDeclaration} {outcome : Outcome}
    (wellTyped : ∀ i ∈ (declaringProgram declared).code, i.isWellTyped = true)
    (denotes : (declaring declared).arguments.denote.run emptyProgram =
      .ok (values, true) emptyProgram)
    (gave : (method {} (holdingJob (declaringProgram declared) own) emptyProgram).result =
      .ok outcome)
    (status : outcome.status = .rewritten) :
    LocalDeclaration.Fit own values := by
  have held : (holdingJob (declaringProgram declared) own).body.locals.length = own :=
    List.length_replicate
  have fit := fit_of_rewritten (encodes_holdingJob _ own wellTyped) denotes gave status
  rwa [held] at fit

/-- It is not enough that what is branched to is marked once and that all
operands are found.

A label that nothing goes to may not be marked twice either, two declared
variables may not have one name, and there has to be an index for each of them
and for one more than the body has. -/
theorem encoded_not_rewritten :
    ((holdingJob repeatingProgram 0).body.Encodes repeatingProgram ∧
      repeatingProgram.usesMarkers = true ∧
      repeatingProgram.Describes (holdingJob repeatingProgram 0).method 0 emptyProgram
        repeatingItems [] emptyProgram ∧
      (∀ item ∈ repeatingItems, ∀ name ∈ item.uses ++ item.marks, name ≠ "") ∧
      (∀ name ∈ repeatingItems.flatMap Item.uses,
        (repeatingItems.flatMap Item.marks).count name = 1) ∧
      (∀ item ∈ repeatingItems, item.references "InlineIL" = false) ∧
      (method {} (holdingJob repeatingProgram 0) emptyProgram).result.toOption.map
        Outcome.status = some .stubbed) ∧
    ∀ tried ∈ [(variablesNamed "x" "x", 0), (variablesNamed "x" "y", 65535), (noVariables, 65536)],
      (holdingJob (declaringProgram tried.1) tried.2).body.Encodes (declaringProgram tried.1) ∧
      (∃ declared, (declaring tried.1).arguments.denote.run emptyProgram =
        .ok (declared, true) emptyProgram) ∧
      ∀ outcome, (method {} (holdingJob (declaringProgram tried.1) tried.2) emptyProgram).result =
        .ok outcome → outcome.status ≠ .rewritten := by
  have described : repeatingProgram.Describes (holdingJob repeatingProgram 0).method 0
      emptyProgram repeatingItems [] emptyProgram :=
    .undeclared (.mark (.mark (.plain (.nothing _))))
  refine ⟨⟨encodes_holdingJob _ _ (by decide), rfl, described, by decide, by decide, by decide,
    by decide +kernel⟩, ?_⟩
  rw [List.forall_mem_cons, List.forall_mem_cons, List.forall_mem_singleton]
  refine ⟨⟨encodes_holdingJob _ _ (by decide), ⟨_, rfl⟩, fun outcome gave status => ?_⟩,
    ⟨encodes_holdingJob _ _ (by decide), ⟨_, rfl⟩, fun outcome gave status => ?_⟩,
    ⟨encodes_holdingJob _ _ (by decide), ⟨_, rfl⟩, fun outcome gave status => ?_⟩⟩
  · exact absurd (fit_of_declaringProgram (by decide) rfl gave status).distinct (by decide)
  · exact absurd (fit_of_declaringProgram (by decide) rfl gave status).room (by decide)
  · exact absurd (fit_of_declaringProgram (by decide) rfl gave status).free (by decide)

end Weave

end InlineCil
