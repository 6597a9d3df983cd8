import InlineCil.Rewrite

/-!
# Weaving methods and modules

A method whose code, local variables or signature mention the marker vocabulary
is rewritten. If its code is refused, or if warnings count as errors and there
are some, the body becomes a stub that throws, and the report says why. Any other
failure ends the pass with the name of the method.

The stub is built in the body that is given up: its instructions are detached,
its clauses, variables and debug points dropped, and three new instructions
pushed. Places are not used again, so nothing that still names a place of the old
code can be mistaken for a reference into the stub.

Methods of a module are woven one after the other, over the symbols that those
before have resolved. Every method is woven whatever became of the others; only
then the report is put together, or the first failure passed on.
-/

namespace InlineCil

/-- A method body to be woven, with the definitions it belongs to. -/
structure Job where
  declaringType : TypeDef
  method : MethodDef
  body : Body

/-- What weaving a method leaves behind. -/
structure Woven where
  result : Except Failure Outcome
  body : Body
  symbols : Symbols

namespace Job

/-- The name under which a method is reported: return type, declaring type, name and
    parameter types. -/
def displayName (j : Job) : String :=
  j.method.returnType.text ++ " " ++ j.declaringType.fullName ++ "::" ++ j.method.name ++
    "(" ++ TypeSig.listText j.method.parameterTypes ++ ")"

/-- The method mentions the marker vocabulary: in an operand, in the type of a local
    variable or in its own signature. -/
def usesMarkers (space : String) (j : Job) : Bool :=
  j.body.code.linked.any (·.instruction.operand.references space) ||
    j.body.locals.any (·.type.references space) ||
    j.method.returnType.references space ||
    TypeSig.anyReferences space j.method.parameterTypes

end Job

namespace Weave

/-- The message of the exception that a stub throws. -/
def stubMessage : String :=
  "This method could not be rewritten by cilweave and must not be called."

/-- The constructor of the exception that a stub throws. -/
def stubConstructor : Resolving MethodRef := do
  let declaringType ← Symbols.coreType "System" "InvalidProgramException"
  let returnType ← Symbols.coreType "System" "Void"
  let message ← Symbols.coreType "System" "String"
  return { declaringType, name := ".ctor", hasThis := true, returnType, parameters := [message] }

/-- The instructions of a stub. -/
def stubCode (constructor : MethodRef) : List Instruction :=
  [⟨.ldstr, .string stubMessage⟩, ⟨.newobj, .method constructor⟩, ⟨.throw, .none⟩]

/-- A body that was given up becomes a stub; its places are not used again. -/
def stub (constructor : MethodRef) (b : Body) : Body :=
  { b.clear with locals := [], initLocals := true }.pushAll (stubCode constructor)

/-- The warnings of a pass as diagnostics of a severity. -/
def diagnosed (name : String) (severity : Severity) (locator : SourceLocator)
    (warnings : List (Warning × Place)) : List Diagnostic :=
  warnings.map fun (warning, place) =>
    { severity, message := name ++ ": " ++ warning.message, location := locator.locate place }

/-- The error that a refused method is reported with. -/
def refusal (name : String) (locator : SourceLocator) (failure : Failure) : Diagnostic where
  severity := .error
  message := name ++ ": " ++ failure.message
  location := failure.place?.bind locator.locate
  kind := failure.kind?

/-- A body is given up: it becomes a stub, and the diagnostics say why. -/
def givenUp (name : String) (diagnostics : List Diagnostic) (b : Body) (symbols : Symbols) :
    Woven :=
  match stubConstructor.run symbols with
  | .ok constructor symbols =>
      ⟨.ok ⟨name, .stubbed, diagnostics⟩, stub constructor b, symbols⟩
  | .error failure symbols => ⟨.error (.inMethod name failure), b, symbols⟩

/-- Rewrite a method that mentions markers. -/
def rewritten (settings : Settings) (j : Job) (optimized : Bool) (symbols : Symbols) : Woven :=
  let name := j.displayName
  let locator := SourceLocator.ofBody j.body
  let frame : Frame :=
    { settings, method := j.method, blocks := Blocks.ofBody j.body,
      mapsPoints := settings.points.enabled optimized }
  match (Rewrite.run frame).run { body := j.body, symbols } with
  | .ok warnings state =>
      let severity := if settings.warningsAsErrors then Severity.error else .warning
      let diagnostics := diagnosed name severity locator warnings
      if settings.warningsAsErrors && !diagnostics.isEmpty then
        givenUp name diagnostics state.body state.symbols
      else ⟨.ok ⟨name, .rewritten, diagnostics⟩, state.body, state.symbols⟩
  | .error failure state =>
      if failure.isRecoverable then
        givenUp name [refusal name locator failure] state.body state.symbols
      else ⟨.error (.inMethod name failure), state.body, state.symbols⟩

/-- Weave one method. -/
def method (settings : Settings) (j : Job) (symbols : Symbols) : Woven :=
  if !j.usesMarkers settings.markerNamespace then
    ⟨.ok ⟨j.displayName, .unchanged, []⟩, j.body, symbols⟩
  else match symbols.currentModule with
    | .error failure => ⟨.error (.inMethod j.displayName failure), j.body, symbols⟩
    | .ok current => rewritten settings j current.optimized symbols

/-- Weave methods one after the other; each finds the symbols that those before
it have resolved. -/
def methods (settings : Settings) : List Job → Symbols → List Woven
  | [], _ => []
  | job :: rest, symbols =>
      let woven := method settings job symbols
      woven :: methods settings rest woven.symbols

/-- The report on woven methods, or the first failure among them. All methods are
woven in any case. -/
def report (woven : List Woven) : Except Failure Report :=
  return ⟨← woven.mapM Woven.result⟩

end Weave

end InlineCil
