import InlineCil.Cause
import InlineCil.Fault

/-!
# Failures

A failure either concerns the code being rewritten, with a cause and the place
closest to it, or it is fatal: a fault of the library, an environment that cannot
be read, settings that make no sense. Only the first kind leaves the other
methods of a module alone.

A cause is often raised by a function that does not know the place, such as a
lookup of a member. Its failure then has no place, and the first caller that
knows one adds it; a place that is there already stays, so that the innermost
caller decides.

The same type serves the loading of modules and the reading of settings, whose
problems are listed separately. The name of a method is put around a failure that
stops a whole pass, since by then no diagnostic will name it.
-/

namespace InlineCil

/-- Why settings or the request to load a module are refused. -/
inductive SettingsProblem where
  | mode (value : String)
  | flag (key value : String)
  | emptyNamespace
  | noElement
  | malformed (detail : String)
  | noReader
  | reported (message : String)
  deriving DecidableEq, Repr

/-- What a problem with settings says. -/
def SettingsProblem.message : SettingsProblem → String
  | .mode value =>
      "Invalid SequencePoints value: " ++ value ++ " (expected Debug, Release, True or False)"
  | .flag key value => "Invalid " ++ key ++ " value: " ++ value ++ " (expected true or false)"
  | .emptyNamespace => "MarkerNamespace cannot be empty"
  | .noElement => "no configuration element found"
  | .malformed detail => detail
  | .noReader => "no module reader configured for loading modules by path"
  | .reported message => message

/-- The line of a file at which a fault was noticed. -/
structure Origin where
  file : String
  line : Nat
  deriving DecidableEq, Repr

/-- A failure. -/
inductive Failure where
  | weaving (cause : Cause) (place : Option Place)
  | internal (fault : Fault) (origin : Option Origin)
  | inMethod (method : String) (failure : Failure)
  | moduleLoad (path message : String)
  | settings (problem : SettingsProblem)
  | file (message : String)
  deriving Repr

namespace Failure

/-- A cause at no known place. -/
def ofCause (cause : Cause) : Failure := .weaving cause none

/-- A cause at a place. -/
def causedAt (cause : Cause) (place : Place) : Failure := .weaving cause (some place)

/-- A fault noticed at no known line. -/
def ofFault (fault : Fault) : Failure := .internal fault none

/-- The failure concerns only the code that raised it. -/
def isRecoverable : Failure → Bool
  | .weaving .. => true
  | _ => false

/-- The kind of a failure of the code. -/
def kind? : Failure → Option Kind
  | .weaving cause _ => some cause.kind
  | _ => none

/-- The place closest to a failure of the code. -/
def place? : Failure → Option Place
  | .weaving _ place => place
  | _ => none

/-- Give a failure of the code a place, unless it has one. -/
def locatedAt (place : Place) : Failure → Failure
  | .weaving cause none => .weaving cause (some place)
  | failure => failure

/-- What a failure says. -/
def message : Failure → String
  | .weaving cause _ => cause.message
  | .internal fault (some origin) =>
      "Internal error - " ++ origin.file ++ ":" ++ toString origin.line ++ ": " ++ fault.message
  | .internal fault none => "Internal error - " ++ fault.message
  | .inMethod name failure =>
      "Unexpected error while processing method " ++ name ++ ": " ++ failure.message
  | .moduleLoad path message => "Could not read module " ++ path ++ ": " ++ message
  | .settings problem => "Invalid configuration: " ++ problem.message
  | .file message => message

end Failure

/-- An instruction whose operand fits its opcode, or the refusal. -/
def Instruction.checked (opcode : Opcode) (operand : Operand) : Except Failure Instruction :=
  match Instruction.checked? opcode operand with
  | some instruction => .ok instruction
  | none => .error (.ofCause (.operandKind opcode))

end InlineCil
