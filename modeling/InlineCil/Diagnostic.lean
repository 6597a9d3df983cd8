import InlineCil.DebugPoint
import InlineCil.Cause

/-!
# Diagnostics and reports

What is told about each method: what became of it, and the warnings or the error
raised for it, with their source locations. A report collects the outcomes of a
module in the order of its methods.

A method that was left alone has nothing to tell. One that was rewritten may have
warnings, and one that was stubbed has the error that explains why, or all of its
warnings, raised to errors, when warnings count as such. A diagnostic has a kind
when a refusal of the code is behind it; warnings have none.

The texts are for people: a diagnostic has its location in front if there is one,
and the summary of a report counts methods by status and diagnostics by severity
before it lists them.
-/

namespace InlineCil

/-- How grave a diagnostic is. -/
inductive Severity where
  | warning | error
  deriving DecidableEq, Repr

/-- The word for a severity. -/
def Severity.text : Severity → String
  | .warning => "warning"
  | .error => "error"

/-- A range of a source document. -/
structure SourceLocation where
  document : String
  start : SourcePosition
  stop : SourcePosition
  deriving DecidableEq, Repr

namespace SourceLocation

/-- The range of a debug point. -/
def ofPoint (p : DebugPoint) : SourceLocation := ⟨p.document, p.start, p.stop⟩

/-- The document with the start of the range in brackets. -/
def text (l : SourceLocation) : String :=
  l.document ++ "(" ++ toString l.start.line ++ "," ++ toString l.start.column ++ ")"

end SourceLocation

/-- One message about a method. -/
structure Diagnostic where
  severity : Severity
  message : String
  location : Option SourceLocation := none
  kind : Option Kind := none
  deriving DecidableEq, Repr

namespace Diagnostic

/-- The message tells of an error. -/
def isError (d : Diagnostic) : Bool := d.severity = .error

/-- Location, severity and message. -/
def text (d : Diagnostic) : String :=
  (match d.location with
    | some location => location.text ++ ": "
    | none => "") ++ d.severity.text ++ ": " ++ d.message

end Diagnostic

/-- What became of a method: it was left alone, every marker in it was rewritten,
or its body was replaced by a stub. -/
inductive Status where
  | unchanged | rewritten | stubbed
  deriving DecidableEq, Repr

namespace Status

/-- The name of a status in reports. -/
def name : Status → String
  | .unchanged => "Unchanged"
  | .rewritten => "Rewritten"
  | .stubbed => "Stubbed"

/-- The status of a name. -/
def ofName? (text : String) : Option Status :=
  [unchanged, rewritten, stubbed].find? (·.name = text)

end Status

/-- The outcome for one method, under its display name. -/
structure Outcome where
  method : String
  status : Status
  diagnostics : List Diagnostic := []
  deriving DecidableEq, Repr

/-- Some diagnostic is an error. -/
def Outcome.hasErrors (o : Outcome) : Bool := o.diagnostics.any (·.isError)

/-- The outcomes for the methods of a module, in order. -/
structure Report where
  outcomes : List Outcome := []
  deriving DecidableEq, Repr

namespace Report

/-- All diagnostics in the order of the methods. -/
def diagnostics (r : Report) : List Diagnostic := r.outcomes.flatMap (·.diagnostics)

/-- The errors. -/
def errors (r : Report) : List Diagnostic := r.diagnostics.filter (·.isError)

/-- The warnings. -/
def warnings (r : Report) : List Diagnostic := r.diagnostics.filter (!·.isError)

/-- Some method has an error. -/
def hasErrors (r : Report) : Bool := r.outcomes.any (·.hasErrors)

/-- How many methods came out so. -/
def count (r : Report) (status : Status) : Nat := r.outcomes.countP (·.status = status)

/-- One line of numbers, and an indented line for each diagnostic. -/
def summary (r : Report) : String :=
  "Weaving: " ++ toString (r.count .rewritten) ++ " rewritten, " ++
    toString (r.count .stubbed) ++ " stubbed, " ++ toString (r.count .unchanged) ++
    " unchanged; " ++ toString r.errors.length ++ " error(s), " ++
    toString r.warnings.length ++ " warning(s)\n" ++
    String.join (r.diagnostics.map fun d => "  " ++ d.text ++ "\n")

end Report

end InlineCil
