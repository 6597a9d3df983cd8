import InlineCil.Proofs.Arguments
import InlineCil.Proofs.Declaring

/-!
# Code as authors write it and as it is encoded

An author writes code line by line: operations, branches that go to labels by
name, and labels. What a compiler makes of that are marker calls with their
arguments before them. A program is the encoded form, statement by statement;
what it describes is a list of items, one for each instruction that the author
asked for.

A description finds values in the order in which the statements stand, since
symbols found on the way are remembered. An emitting statement describes an item
if its value is an operand for its opcode: numbers are in range, local variables
and parameters exist. Labels are taken by name; where they are is not part of a
description.

Items are compared with the lines of a body by `Item.Stands`, given the places of
labels. A body consists of items if its lines stand for them in order under some
choice of places; so two bodies that consist of the same items differ in nothing
but the places of their lines.

Nothing in this module refers to a pass. The conditions on operands, parameters,
local variables and their declarations are spelled out from what an author may
write, and the modules below derive from them that each step of the pass
succeeds.
-/

namespace InlineCil

/-- One line of written code. -/
inductive Item where
  | operation (opcode : Opcode) (operand : Operand)
  | branch (opcode : Opcode) (label : String)
  | switch (opcode : Opcode) (labels : List String)
  | label (name : String)

namespace Item

/-- The labels that an item branches to. -/
def uses : Item → List String
  | .branch _ target => [target]
  | .switch _ targets => targets
  | _ => []

/-- The labels that are at an item. -/
def marks : Item → List String
  | .label name => [name]
  | _ => []

/-- Some symbol in an item lives in the namespace. -/
def references (space : String) : Item → Bool
  | .operation _ operand => operand.references space
  | _ => false

/-- Only branches go anywhere: the operand of an operation names no place. -/
def Still : Item → Prop
  | .operation _ operand => operand.targets = []
  | _ => True

/-- A line of a body is what an item says, when labels are at certain places:
branches go to the places of their labels, and the line of a label is at its
place. -/
def Stands (place? : String → Option Place) : Item → Line → Prop
  | .operation opcode operand, line => line.instruction = ⟨opcode, operand⟩
  | .branch opcode target, line =>
      ∃ place, place? target = some place ∧ line.instruction = ⟨opcode, .target place⟩
  | .switch opcode targets, line =>
      ∃ places, List.Forall₂ (fun target place => place? target = some place) targets places ∧
        line.instruction = ⟨opcode, .switch places⟩
  | .label name, line => place? name = some line.place ∧ line.instruction = ⟨.nop, .none⟩

end Item

/-- The declared local variables: how many variables are before them, and their
names. Authors refer to declared variables by name or by their index among the
declarations. -/
structure Scope where
  base : Nat
  names : List (Option String)

/-- The slot of a declared variable. -/
def Scope.slot (s : Scope) (index : Nat) : UInt16 := UInt16.ofNat (s.base + index)

/-- The form in which an opcode accesses a slot: the full one if the short one
does not reach. -/
def Opcode.reaching (opcode : Opcode) (slot : UInt16) : Opcode :=
  if 255 < slot then opcode.generalLocalForm.getD opcode else opcode

/-- A value stands for an operand. Numbers have to be in the range of the
operand, a text stands for itself or for a parameter of that name, and members
and types stand for themselves.

The index of a parameter is its position, one further on if the method has an
implicit first argument. -/
inductive Argument.Gives (m : MethodDef) : Argument → Operand → Prop where
  | none : Gives m .none .none
  | int8 {v : Int} (low : -0x80 ≤ v) (high : v < 0x80) : Gives m (.integer v) (.int8 (.ofInt v))
  | uint8 {v : Int} (low : 0 ≤ v) (high : v < 0x100) :
      Gives m (.integer v) (.uint8 (.ofNat v.toNat))
  | int32 {v : Int} (low : -0x80000000 ≤ v) (high : v < 0x100000000) :
      Gives m (.integer v) (.int32 (.ofInt v))
  | int64 (v : Int) : Gives m (.integer v) (.int64 (.ofInt v))
  | float32 (v : Binary64) : Gives m (.float v) (.float32 v.toBinary32)
  | float64 (v : Binary64) : Gives m (.float v) (.float64 v)
  | string (v : String) : Gives m (.string v) (.string v)
  | type (v : TypeSig) : Gives m (.type v) (.type v)
  | method (v : MethodRef) : Gives m (.method v) (.method v)
  | field (v : FieldRef) : Gives m (.field v) (.field v)
  | signature (v : CallSite) : Gives m (.signature v) (.signature v)
  -- Arguments are counted from the implicit one on, if the method has it.
  | parameter {name : String} {position index : Nat}
      (found : m.parameters.findIdx? (·.name = name) = some position)
      (shifted : index = if m.isStatic then position else position + 1)
      (within : index < 0x10000) : Gives m (.string name) (.argument (.ofNat index))
  | parameterIndex {v : Int} (low : 0 ≤ v) (high : v < 0x10000) :
      Gives m (.integer v) (.argument (.ofNat v.toNat))

/-- An opcode with a value for its operand is an item of a method in which
certain local variables are declared. -/
inductive Opcode.Emits (m : MethodDef) (opcode : Opcode) : Option Scope → Argument → Item → Prop
  where
  | operation {scope : Option Scope} {value : Argument} {operand : Operand}
      (gives : value.Gives m operand) (fits : operand.fits opcode.kind = true)
      (explicit : scope = none ∨ opcode.implicitLocal = none) :
      Emits m opcode scope value (.operation opcode operand)
  | branch {scope : Option Scope} {label : String} (takes : opcode.kind.isTarget = true) :
      Emits m opcode scope (.string label) (.branch opcode label)
  | switch {scope : Option Scope} {labels : List String} (takes : opcode.kind = .switch) :
      Emits m opcode scope (.labels labels) (.switch opcode labels)
  -- Local variables: by name or index if they are declared, else as they are numbered.
  | namedLocal {scope : Scope} {name : String} {index : Nat}
      (takes : opcode.kind.isLocalSlot = true)
      (found : scope.names.findIdx? (· = some name) = some index) :
      Emits m opcode (some scope) (.string name)
        (.operation (opcode.reaching (scope.slot index)) (.localSlot (scope.slot index)))
  | indexedLocal {scope : Scope} {index : Nat} (takes : opcode.kind.isLocalSlot = true)
      (within : index < scope.names.length) :
      Emits m opcode (some scope) (.integer index)
        (.operation (opcode.reaching (scope.slot index)) (.localSlot (scope.slot index)))
  | numberedLocal {index : Nat} (takes : opcode.kind.isLocalSlot = true)
      (within : index < LocalTable.capacity) :
      Emits m opcode none (.integer index)
        (.operation (opcode.reaching (.ofNat index)) (.localSlot (.ofNat index)))
  | implicitLocal {scope : Scope} {index : UInt16} {general : Opcode}
      (implicit : opcode.implicitLocal = some index)
      (full : opcode.generalLocalForm = some general)
      (within : index.toNat < scope.names.length) :
      Emits m opcode (some scope) .none
        (.operation general (.localSlot (scope.slot index.toNat)))

/-- A statement of encoded code: an instruction that has nothing to do with the
vocabulary, an emitting call with its argument, or a call that marks a label with
the name of the label. -/
inductive Statement (space : String) where
  | plain (i : Instruction) (outside : i.marker? space = .ok none) (branchless : i.targets = [])
  | emit {opcode : Opcode} {parameter : EmitParameter} (argument : EmitArgument space parameter)
      (call : Instruction) (calls : call.marker? space = .ok (some (.emit opcode parameter)))
  | mark (name : String) (call : Instruction)
      (calls : call.marker? space = .ok (some (.primitive .markLabel)))

/-- The call that declares local variables, with its arguments. -/
structure Declaration (space : String) where
  hasInitFlag : Bool
  arguments : DeclarationArguments space hasInitFlag
  call : Instruction
  calls : call.marker? space = .ok (some (.primitive (.declareLocals hasInitFlag)))

/-- Encoded code: perhaps local variables are declared, then one statement
follows the other. -/
structure Program (space : String) where
  declaration : Option (Declaration space)
  statements : List (Statement space)

variable {space : String}

/-- The instructions of a statement: arguments come before their call. -/
def Statement.code : Statement space → List Instruction
  | .plain i _ _ => [i]
  | .emit argument call _ => argument.code ++ [call]
  | .mark name call _ => [⟨.ldstr, .string name⟩, call]

/-- The statement calls a marker. -/
def Statement.isMarker : Statement space → Bool
  | .plain .. => false
  | _ => true

/-- The instructions of a declaration. -/
def Declaration.code (d : Declaration space) : List Instruction := d.arguments.code ++ [d.call]

namespace Program

/-- The instructions of a program. -/
def code (p : Program space) : List Instruction :=
  (p.declaration.map Declaration.code).getD [] ++ p.statements.flatMap Statement.code

/-- The program calls some marker. -/
def usesMarkers (p : Program space) : Bool :=
  p.declaration.isSome || p.statements.any Statement.isMarker

end Program

/-- Statements describe items, each statement one. Values are found from left to
right, and each finds the symbols that those before it have left. -/
inductive Statement.Describe (m : MethodDef) (scope : Option Scope) :
    List (Statement space) → Symbols → List Item → Symbols → Prop where
  | nothing (symbols : Symbols) : Describe m scope [] symbols [] symbols
  | plain {i : Instruction} {outside : i.marker? space = .ok none} {branchless : i.targets = []}
      {rest : List (Statement space)} {symbols final : Symbols} {items : List Item}
      (others : Describe m scope rest symbols items final) :
      Describe m scope (.plain i outside branchless :: rest) symbols
        (.operation i.opcode i.operand :: items) final
  | emit {opcode : Opcode} {parameter : EmitParameter} {argument : EmitArgument space parameter}
      {call : Instruction} {calls : call.marker? space = .ok (some (.emit opcode parameter))}
      {rest : List (Statement space)} {symbols found final : Symbols} {value : Argument}
      {item : Item} {items : List Item}
      (denotes : argument.denote.run symbols = .ok value found)
      (emits : opcode.Emits m scope value item)
      (others : Describe m scope rest found items final) :
      Describe m scope (.emit argument call calls :: rest) symbols (item :: items) final
  | mark {name : String} {call : Instruction}
      {calls : call.marker? space = .ok (some (.primitive .markLabel))}
      {rest : List (Statement space)} {symbols final : Symbols} {items : List Item}
      (others : Describe m scope rest symbols items final) :
      Describe m scope (.mark name call calls :: rest) symbols (.label name :: items) final

/-- A program in a body with a number of local variables describes the items of
its statements and the local variables that it adds. Declared variables fit after
those of the body, and each of them is added as it is declared. -/
inductive Program.Describes (m : MethodDef) (base : Nat) :
    Program space → Symbols → List Item → List Local → Symbols → Prop where
  | undeclared {statements : List (Statement space)} {symbols final : Symbols} {items : List Item}
      (described : Statement.Describe m none statements symbols items final) :
      Describes m base ⟨none, statements⟩ symbols items [] final
  | declared {d : Declaration space} {statements : List (Statement space)}
      {symbols found final : Symbols} {declared : List LocalDeclaration} {init : Bool}
      {items : List Item} {added : List Local}
      (denotes : d.arguments.denote.run symbols = .ok (declared, init) found)
      (fit : LocalDeclaration.Fit base declared)
      (adds : List.Forall₂ LocalDeclaration.Adds declared added)
      (described : Statement.Describe m (some ⟨base, declared.map LocalDeclaration.name⟩)
        statements found items final) :
      Describes m base ⟨some d, statements⟩ symbols items added final

end InlineCil
