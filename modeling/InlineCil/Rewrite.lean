import InlineCil.LocalTable
import InlineCil.PointMap
import InlineCil.Settings
import InlineCil.StackSafety

/-!
# Rewriting a body

One pass over the instructions, front to back. Every call of a marker is handed
to the rule for it, which reads the arguments before the call and puts the
instructions that the call stands for in its place; the pass goes on right after
the site. In the end no label may be left undefined and nothing may still refer
to the marker vocabulary.

A rule works in three steps: it reads the arguments and takes their instructions
out of the body, makes the instruction that the call stands for from the value,
and puts it where the call was, or removes the call. It then says where the debug
points of the site go and from which place the pass goes on.

A pass fails with the first thing that is wrong. What was changed until then
stays changed, which does no harm: the body of a refused method is given up, and
the symbols it has resolved remain valid. A fault, in contrast to a refusal,
would end the work on the whole module.
-/

namespace InlineCil

/-- What a pass is told and does not change: the settings, the method, the blocks
of the body as it was, and whether debug points are maintained. -/
structure Frame where
  settings : Settings
  method : MethodDef
  blocks : Blocks
  mapsPoints : Bool

/-- What a pass changes. -/
structure Rewriting where
  body : Body
  labels : LabelTable := {}
  locals : Option LocalTable := none
  symbols : Symbols

/-- A step of a pass. What it changed stays changed when it fails. -/
abbrev Pass := EStateM Failure Rewriting

namespace Rewrite

/-- The marker namespace. -/
def space (frame : Frame) : String := frame.settings.markerNamespace

/-- The body as it is now. -/
def body : Pass Body := return (← get).body

/-- Replace the body. -/
def setBody (b : Body) : Pass Unit := modify fun state => { state with body := b }

/-- Take over a result that may be a fault. -/
def faultless (result : Except Fault α) : Pass α :=
  match result with
  | .ok value => return value
  | .error fault => throw (.ofFault fault)

/-- Failures of a step that have no place are at the given one. -/
def located (place : Place) (step : Pass α) : Pass α :=
  tryCatch step fun failure => throw (failure.locatedAt place)

/-- A result whose refusal has no place yet. -/
def refusable (result : Except Cause α) : Pass α :=
  match result with
  | .ok value => return value
  | .error cause => throw (.ofCause cause)

/-- Remove an instruction. -/
def remove (place : Place) : Pass Unit := do
  let (_, b) ← faultless ((← body).remove place)
  setBody b

/-- Overwrite an instruction. -/
def replace (place : Place) (instruction : Instruction) : Pass Unit := do
  let (_, b) ← faultless ((← body).replace place instruction)
  setBody b

/-- Collapse the debug points of a site, if they are maintained. -/
def mapPoints (frame : Frame) (site : List Place) (target : Option Place) : Pass Unit := do
  if frame.mapsPoints then setBody (PointMap.collapse (← body) site target)

/-- Take instructions out of a body one after the other. -/
def takeOut (b : Body) (places : List Place) : Body :=
  places.foldl (fun b place =>
    match b.remove place with
    | .ok (_, b) => b
    | .error _ => b) b

/-- Read arguments before a call and take them out of the body, also when reading
fails. Gives the value with the places taken. -/
def reading (frame : Frame) (call : Place) (reader : Site → (bound : Nat) → Reader α) :
    Pass (α × List Place) := do
  let state ← get
  let instruction ← faultless (state.body.instruction call)
  let site : Site := ⟨space frame, ⟨call, instruction⟩, frame.blocks⟩
  let ahead := (state.body.code.linesBefore call).reverse
  let keep := fun rest : Reading =>
    set { state with body := takeOut state.body rest.taken, symbols := rest.symbols }
  match (reader site ahead.length).run { ahead, symbols := state.symbols } with
  | .ok value rest =>
      keep rest
      return (value, rest.taken)
  | .error failure rest =>
      keep rest
      throw (failure.locatedAt call)

/-- The place of a label, handed out at its first mention. -/
def labelPlace (name : String) : Pass Place := do
  if name.isEmpty then throw (.ofCause .labelEmpty)
  let state ← get
  match state.labels.find? name with
  | some label => return label.place
  | none =>
      let (place, b) := state.body.create ⟨.nop, .none⟩
      set { state with body := b, labels := state.labels.add name place }
      return place

/-- The place that a branch to a label goes to. -/
def useLabel (name : String) (branch : Place) : Pass Place := do
  let place ← labelPlace name
  modify fun state => { state with labels := state.labels.use name branch }
  return place

/-- Mark a label: its instruction takes the place of the call. -/
def defineLabel (name : String) (call : Place) : Pass Place := do
  let place ← labelPlace name
  let defined := ((← get).labels.find? name).bind (·.definedAt)
  if defined.isSome then throw (.causedAt (.labelRepeated name) call)
  modify fun state => { state with labels := state.labels.define name call }
  let (_, b) ← faultless ((← body).replaceWith call place)
  setBody b
  return place

/-- The slot of a local variable, which is thereby accessed. -/
def localSlot (find : Option LocalTable → Except Cause (UInt16 × Option LocalTable)) :
    Pass UInt16 := do
  let (index, table) ← refusable (find (← get).locals)
  modify fun state => { state with locals := table }
  return index

/-- The index of the argument of a named parameter. -/
def parameterIndex (m : MethodDef) (name : String) : Except Failure UInt16 :=
  match m.parameters.findIdx? (·.name = name) with
  | none => .error (.ofCause (.parameterMissing name))
  | some position =>
      let index := position + m.hasThis.toNat
      if index < 65536 then .ok (UInt16.ofNat index)
      else .error (.ofFault (.parameterOverflow name))

/-- A whole number that lies within bounds. -/
def ranged (opcode : Opcode) (least bound value : Int) (operand : Int → Operand) :
    Pass Operand :=
  if least ≤ value && value < bound then return operand value
  else throw (.ofCause (.valueRange value opcode))

/-- An access to a local variable; a short form gives way to the full one when
the slot does not fit. -/
def localAccess (opcode : Opcode) (index : UInt16) : Except Failure Instruction :=
  let opcode :=
    match opcode.generalLocalForm with
    | some general => if 255 < index then general else opcode
    | none => opcode
  Instruction.checked opcode (.localSlot index)

/-- The operand of an opcode from the argument that was read. Operands that name
local variables are not among these. -/
def operand (frame : Frame) (call : Place) (opcode : Opcode) (value : Argument) :
    Pass Operand :=
  match opcode.kind, value with
  | .none, .none => return .none
  | .int8, .integer v => ranged opcode (-0x80) 0x80 v (.int8 <| Int8.ofInt ·)
  | .uint8, .integer v => ranged opcode 0 0x100 v (.uint8 <| UInt8.ofNat ·.toNat)
  | .int32, .integer v => ranged opcode (-0x80000000) 0x100000000 v (.int32 <| Int32.ofInt ·)
  | .int64, .integer v => return .int64 (Int64.ofInt v)
  | .float32, .float v => return .float32 v.toBinary32
  | .float64, .float v => return .float64 v
  | .string, .string v => return .string v
  | .type, .type v | .token, .type v => return .type v
  | .method, .method v | .token, .method v => return .method v
  | .field, .field v | .token, .field v => return .field v
  | .signature, .signature v => return .signature v
  | .shortTarget, .string label | .target, .string label =>
      return .target (← useLabel label call)
  | .switch, .labels labels => return .switch (← labels.mapM (useLabel · call))
  | .shortArgument, .string name | .argument, .string name =>
      return .argument (← liftExcept (parameterIndex frame.method name))
  | .shortArgument, .integer v | .argument, .integer v =>
      ranged opcode 0 0x10000 v (.argument <| UInt16.ofNat ·.toNat)
  | _, _ => throw (.causedAt (.argumentKind opcode value) call)

/-- The instruction that an emitting call stands for. An opcode that itself names
a local variable takes the slot of the declaration, if there is one, and else
stays as it is. -/
def instruction (frame : Frame) (call : Place) (opcode : Opcode) (value : Argument) :
    Pass Instruction := do
  match opcode.implicitLocal, opcode.generalLocalForm with
  | some index, some general =>
      if (← get).locals.isNone then return ⟨opcode, .none⟩
      let slot ← localSlot (LocalTable.byIndex · index.toNat)
      liftExcept (Instruction.checked general (.localSlot slot))
  | _, _ =>
      match opcode.kind.isLocalSlot, value with
      | true, .string name =>
          liftExcept (localAccess opcode (← localSlot (LocalTable.byName · name)))
      | true, .integer index =>
          liftExcept (localAccess opcode (← localSlot (LocalTable.byIndex · index)))
      | _, _ => liftExcept (Instruction.checked opcode (← operand frame call opcode value))

/-- Remove a call; the debug points of the site go to what follows. Gives the
place to go on from, as every rule does. -/
def removeCall (frame : Frame) (call : Place) (taken : List Place) : Pass (Option Place) := do
  let next := (← body).code.after? call
  remove call
  mapPoints frame (taken ++ [call]) next
  return next

/-- The instruction refers to the pushing marker. -/
def isPush (space : String) (i : Instruction) : Bool :=
  match i.method?.map (Marker.classify space) with
  | some (.ok (some (.primitive .push))) => true
  | _ => false

/-- Push: the argument is on the stack already. -/
def push (frame : Frame) (call : Place) : Pass (Option Place) := do
  if frame.settings.validatePush then
    let flagged := StackSafety.unsafePushes (← body) frame.method.returnsValue
      (isPush (space frame))
    if flagged.contains call then throw (.causedAt .unsafePush call)
  removeCall frame call []

/-- The store that takes the place of loading an address. -/
def storeFor? : Opcode → Option Opcode
  | .ldloca => some .stloc
  | .ldlocaS => some .stlocS
  | .ldarga => some .starg
  | .ldargaS => some .stargS
  | .ldsflda => some .stsfld
  | _ => none

/-- Pop: loading the address before the call becomes a store. -/
def pop (frame : Frame) (call : Place) : Pass (Option Place) := do
  match (← body).code.before? call with
  | none => throw (.causedAt .popWithoutAddress call)
  | some address =>
      if !frame.blocks.sameBlock address call then
        throw (.causedAt .argumentElsewhere address)
      let loading ← faultless ((← body).instruction address)
      match storeFor? loading.opcode with
      | none => throw (.causedAt (.popOfOther loading) address)
      | some store =>
          replace address (← liftExcept (Instruction.checked store loading.operand))
          let next := (← body).code.after? call
          remove call
          mapPoints frame [address, call] (some address)
          return next

/-- Code that is never reached: the call and the throw after it go. -/
def unreachable (frame : Frame) (call : Place) : Pass (Option Place) := do
  match (← body).code.following? call with
  | none => throw (.causedAt .unreachableWithoutThrow call)
  | some thrown =>
      if thrown.instruction.opcode ≠ .throw then
        throw (.causedAt .unreachableWithoutThrow call)
      let next := (← body).code.after? thrown.place
      remove call
      remove thrown.place
      mapPoints frame [call, thrown.place] next
      return next

/-- Code that returns what is on the stack: a return, or the storing and loading
of one local variable with a return after it, and perhaps a branch to the next
instruction in between. -/
def returnsAtOnce : List Line → Bool
  | first :: rest =>
      let opcode := first.instruction.opcode
      if opcode = .ret then true
      else if opcode.localAccess ≠ some .stloc then false
      else
        let loads := fun lines : List Line =>
          match lines with
          | load :: last :: _ =>
              load.instruction.opcode.localAccess = some .ldloc &&
                load.instruction.localIndex? = first.instruction.localIndex? &&
                last.instruction.opcode = .ret
          | _ => false
        match rest with
        | branch :: target :: after =>
            if branch.instruction.opcode = .br || branch.instruction.opcode = .brS then
              branch.instruction.targets = [target.place] && loads (target :: after)
            else loads rest
        | _ => loads rest
  | [] => false

/-- Return: what follows the call returns the value on the stack. -/
def returnValue (frame : Frame) (call : Place) : Pass (Option Place) := do
  if !returnsAtOnce ((← body).code.linesAfter call) then
    throw (.causedAt .returnWithoutReturn call)
  removeCall frame call []

/-- Mark a label: the call becomes the instruction that branches go to. -/
def markLabel (frame : Frame) (call : Place) : Pass (Option Place) := do
  let (name, taken) ← reading frame call fun site _ => Reader.string site
  let place ← located call (defineLabel name call)
  mapPoints frame (taken ++ [call]) (some place)
  return (← body).code.after? place

/-- The declarations of a call, and whether local variables start at zero. -/
def declarations (hasInitFlag : Bool) (site : Site) (bound : Nat) :
    Reader (List LocalDeclaration × Bool) := do
  let declared ← Reader.array site (Reader.localVariable site bound) bound
  let init ← if hasInitFlag then (· != 0) <$> Reader.integer site bound else pure true
  return (declared, init)

/-- Declare local variables after those that the body has, which is done once.
Nothing changes unless all of them can be declared. -/
def declare (declared : List LocalDeclaration) (init : Bool) (call : Place) : Pass Unit := do
  let state ← get
  if state.locals.isSome then throw (.causedAt .localsRepeated call)
  let base := state.body.locals.length
  if LocalTable.capacity ≤ base then throw (.ofFault (.tooManyLocals base))
  let table ← located call (refusable (LocalTable.declare base declared call))
  let added := declared.map LocalTable.variableOf
  set
    { state with
      locals := some table
      body := { state.body with locals := state.body.locals ++ added, initLocals := init } }

/-- Declare the local variables that are listed before a call. -/
def declareLocals (frame : Frame) (call : Place) (hasInitFlag : Bool) :
    Pass (Option Place) := do
  let ((declared, init), taken) ← reading frame call (declarations hasInitFlag)
  declare declared init call
  removeCall frame call taken

/-- Emit: the call is overwritten with the instruction. -/
def emit (frame : Frame) (call : Place) (opcode : Opcode) (parameter : EmitParameter) :
    Pass (Option Place) := do
  let (value, taken) ← reading frame call fun site bound =>
    Reader.argument site bound parameter
  let emitted ← located call (instruction frame call opcode value)
  replace call emitted
  mapPoints frame (taken ++ [call]) (some call)
  return (← body).code.after? call

/-- The rule for a marker. A builder that stands alone is left for the check in
the end. -/
def rewriteCall (frame : Frame) (call : Place) : Marker → Pass (Option Place)
  | .primitive .push | .primitive .pushInRef | .primitive .pushOutRef => push frame call
  | .primitive .pop => pop frame call
  | .primitive .unreachable => unreachable frame call
  | .primitive .returnValue | .primitive .returnRef | .primitive .returnPointer =>
      returnValue frame call
  | .primitive .markLabel => markLabel frame call
  | .primitive (.declareLocals hasInitFlag) => declareLocals frame call hasInitFlag
  | .emit opcode parameter => emit frame call opcode parameter
  | .builder _ => return (← body).code.after? call

/-- Rewrite the instruction at a place, if it calls a marker. Gives the place to
go on from. -/
def visit (frame : Frame) (place : Place) : Pass (Option Place) := do
  let found ← faultless ((← body).instruction place)
  match found.marker? (space frame) with
  | .error failure => throw (failure.locatedAt place)
  | .ok none => return (← body).code.after? place
  | .ok (some marker) => rewriteCall frame place marker

/-- Visit place after place. Every visit goes on nearer to the end of the code,
so there are no more visits than linked instructions. -/
def scan (frame : Frame) : (visits : Nat) → Option Place → Pass Unit
  | _, none => return
  | 0, some _ => return
  | visits + 1, some place => do scan frame visits (← visit frame place)

/-- Nothing refers to the marker vocabulary any more; if something does, the first
    instruction or else the first local variable. -/
def checkLeftovers (space : String) (b : Body) : Except Failure Unit :=
  match b.code.linked.find? (·.instruction.operand.references space),
      b.locals.find? (·.type.references space) with
  | some line, _ => .error (.causedAt (.leftover space line.instruction) line.place)
  | none, some found => .error (.ofCause (.leftoverLocal space found.type))
  | none, none => .ok ()

/-- Close a pass: labels, leftovers, debug points, references. Gives the
warnings. -/
def finish (frame : Frame) : Pass (List (Warning × Place)) := do
  let state ← get
  let unusedLabels ← liftExcept state.labels.finish
  let unusedLocals := (state.locals.map LocalTable.unused).getD []
  liftExcept (checkLeftovers (space frame) state.body)
  setBody (PointMap.finish state.body)
  faultless ((← body).validate)
  return unusedLabels ++ unusedLocals

/-- The whole pass. -/
def run (frame : Frame) : Pass (List (Warning × Place)) := do
  let code := (← body).code
  scan frame code.linked.length code.first?
  finish frame

end Rewrite

end InlineCil
