import InlineCil.Failure
import InlineCil.Settings.Element
import InlineCil.Text.Blank

/-!
# Settings

What a pass over a module is told: the namespace of the marker vocabulary, when
debug points are maintained, and how warnings are treated. Settings are read from
the attributes of an XML element; those it does not mention keep their defaults.

The name of the element does not matter, and unknown attributes change nothing,
so that the element may carry settings of others. An attribute that is known is
checked when it is reached: attributes are applied in the order in which they are
written, and the first wrong one ends the reading. Blanks around a value are not
part of it, and capitals count in keys but not in truth values and modes.

`parallel` is read and kept although no function here depends on it; methods are
woven in order either way.
-/

namespace InlineCil

/-- When debug points are maintained for rewritten sites: in modules compiled
without optimisation, in those compiled with it, always, or never. -/
inductive PointMode where
  | debug | release | always | never
  deriving DecidableEq, Repr

namespace PointMode

/-- Debug points are maintained in a module compiled so. -/
def enabled (optimized : Bool) : PointMode → Bool
  | .debug => !optimized
  | .release => optimized
  | .always => true
  | .never => false

/-- The written form of a mode. -/
def text : PointMode → String
  | .debug => "Debug"
  | .release => "Release"
  | .always => "True"
  | .never => "False"

/-- Read a mode; capitals do not count. -/
def ofText (text : String) : Except Failure PointMode :=
  match Text.lowered text with
  | "debug" => .ok .debug
  | "release" => .ok .release
  | "true" => .ok .always
  | "false" => .ok .never
  | _ => .error (.settings (.mode text))

end PointMode

/-- The settings of a pass. -/
structure Settings where
  markerNamespace : String := "InlineIL"
  points : PointMode := .debug
  warningsAsErrors : Bool := false
  parallel : Bool := false
  validatePush : Bool := true
  deriving DecidableEq, Repr

namespace Settings

/-- Read a truth value; capitals do not count. -/
def flag (key text : String) : Except Failure Bool :=
  match Text.lowered text with
  | "true" | "1" => .ok true
  | "false" | "0" => .ok false
  | _ => .error (.settings (.flag key text))

/-- Apply one attribute. Unknown ones change nothing. -/
def apply (s : Settings) (key value : String) : Except Failure Settings :=
  match key with
  | "SequencePoints" => return { s with points := ← PointMode.ofText value }
  | "WarningsAsErrors" => return { s with warningsAsErrors := ← flag key value }
  | "Parallel" => return { s with parallel := ← flag key value }
  | "ValidatePush" => return { s with validatePush := ← flag key value }
  | "MarkerNamespace" =>
      if value.isEmpty then .error (.settings .emptyNamespace)
      else return { s with markerNamespace := value }
  | _ => return s

/-- A malformed text as a failure. -/
def malformed (m : Element.Malformed) : Failure := .settings (.malformed m.message)

/-- Apply an attribute as it is written: references are replaced, then blanks at
both ends are cut off. -/
def applyWritten (s : Settings) (written : Except Element.Malformed (List Char × List Char)) :
    Except Failure Settings := do
  let (key, value) ← written.mapError malformed
  let value ← (Element.unescaped value).mapError malformed
  s.apply (String.ofList key) (Text.trimmed value)

/-- Read settings from the first element of an XML text. -/
def ofXml (text : String) : Except Failure Settings := do
  match ← (Element.firstTag text.length text.toList).mapError malformed with
  | none => throw (.settings .noElement)
  | some tag => (Element.attributes tag).foldlM applyWritten {}

end Settings

end InlineCil
