import InlineCil.Instruction

/-!
# Faults

What may go wrong inside the library when a body is taken apart: a place that is
not linked where one is needed, or a reference that would be left without a
target. Faults are kept apart from failures of the code being rewritten, which
are reported to its author.

A fault names the place at which a rule about bodies is broken. It says nothing
of who broke it: the same fault answers a caller that hands in a stale place and
would be raised by an error in the library itself. Some faults are about limits
of the format, the number of local variables and of parameters that an index can
name, and one about a module that should have been registered.

Within a pass every fault ends the pass for the whole module, so it matters that
only a few can be raised there.
-/

namespace InlineCil

/-- A broken rule about bodies, tables or registered modules. -/
inductive Fault where
  | dangling (place : Place)
  | alreadyLinked (place : Place)
  | lastReferenced (place : Place)
  | danglingTarget (place : Place) (instruction : Instruction) (target : Place)
  | danglingBorder (place : Place)
  | tooManyLocals (count : Nat)
  | parameterOverflow (name : String)
  | unregistered (assembly : String)
  | reported (message : String)
  deriving Repr

/-- What a fault says. -/
def Fault.message : Fault → String
  | .dangling place => "Dangling instruction reference " ++ place.text
  | .alreadyLinked place => "Instruction " ++ place.text ++ " is already linked"
  | .lastReferenced place =>
      "Cannot remove " ++ place.text ++ ": it is referenced and the body would be empty"
  | .danglingTarget place instruction target =>
      "Instruction " ++ place.text ++ " (" ++ instruction.text ++ ") branches to dangling " ++
        target.text
  | .danglingBorder place => "Exception handler refers to dangling " ++ place.text
  | .tooManyLocals count => "Too many locals: " ++ toString count
  | .parameterOverflow name => "Parameter index of " ++ name ++ " overflows"
  | .unregistered assembly => "Current module " ++ assembly ++ " is not registered"
  | .reported message => message

end InlineCil
