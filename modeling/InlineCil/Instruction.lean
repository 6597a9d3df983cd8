import InlineCil.Decimal.Layout
import InlineCil.Member
import InlineCil.Opcode
import InlineCil.Text.Quoted

/-!
# Instructions

An instruction is an opcode with an operand. Instructions refer to one another by
place: a place keeps its number while the code around it changes, so a branch
names the place it goes to and not a position.

The kind of operand that an opcode takes is a column of the opcode table, and
`Operand.fits` relates the two. An instruction need not fit, since code is read
as it is found; the instructions that markers stand for are built by
`Instruction.checked?` and do fit. A short index form fits only an index of one
byte, while a short branch fits any place, as the distance is not known here.

What an instruction does to the stack, how many bytes it takes and which local
variable or argument it names are functions of both parts, since many opcodes
carry an operand in their name.
-/

namespace InlineCil

/-- The identity of an instruction within one body. -/
structure Place where
  index : Nat
  deriving DecidableEq, Repr

/-- The written form of a place. -/
def Place.text (p : Place) : String := "#" ++ toString p.index

/-- The operand of an instruction. -/
inductive Operand where
  | none
  | int8 (value : Int8)
  | uint8 (value : UInt8)
  | int32 (value : Int32)
  | int64 (value : Int64)
  | float32 (value : Binary32)
  | float64 (value : Binary64)
  | string (value : String)
  | type (sig : TypeSig)
  | method (method : MethodRef)
  | field (field : FieldRef)
  | signature (site : CallSite)
  | target (place : Place)
  | switch (places : List Place)
  | localSlot (index : UInt16)
  | argument (index : UInt16)
  deriving Repr

namespace Operand

/-- An operand fits a kind. The short index kinds hold one byte only, both target
kinds hold any place, and a token is any of the three kinds of symbols. -/
def fits : Operand → OperandKind → Bool
  | .none, .none => true
  | .int8 _, .int8 => true
  | .uint8 _, .uint8 => true
  | .int32 _, .int32 => true
  | .int64 _, .int64 => true
  | .float32 _, .float32 => true
  | .float64 _, .float64 => true
  | .string _, .string => true
  | .type _, kind => kind = .type || kind = .token
  | .method _, kind => kind = .method || kind = .token
  | .field _, kind => kind = .field || kind = .token
  | .signature _, .signature => true
  | .target _, kind => kind.isTarget
  | .switch _, .switch => true
  | .localSlot index, kind => kind = .localSlot || (kind = .shortLocalSlot && index ≤ 255)
  | .argument index, kind => kind = .argument || (kind = .shortArgument && index ≤ 255)
  | _, _ => false

/-- Some symbol in the operand lives in the namespace. -/
def references (space : String) : Operand → Bool
  | .type sig => sig.references space
  | .method m => m.references space
  | .field f => f.references space
  | .signature s => s.references space
  | _ => false

/-- The places a branch may go to. -/
def targets : Operand → List Place
  | .target place => [place]
  | .switch places => places
  | _ => []

/-- Send every branch to `old` to `new` instead. -/
def retarget (old new : Place) : Operand → Operand
  | .target place => .target (if place = old then new else place)
  | .switch places => .switch (places.map fun place => if place = old then new else place)
  | operand => operand

/-- What follows the mnemonic; a branch shows its targets in the given way. -/
def textWith (showPlace : Place → String) : Operand → String
  | .none => ""
  | .int8 value => " " ++ toString value.toInt
  | .uint8 value => " " ++ toString value.toNat
  | .int32 value => " " ++ toString value.toInt
  | .int64 value => " " ++ toString value.toInt
  | .float32 value => " " ++ value.text
  | .float64 value => " " ++ value.text
  | .string value => " " ++ Text.quoted value
  | .type sig => " " ++ sig.text
  | .method m => " " ++ m.text
  | .field f => " " ++ f.text
  | .signature s => " " ++ s.text
  | .target place => " " ++ showPlace place
  | .switch places => " (" ++ String.intercalate ", " (places.map showPlace) ++ ")"
  | .localSlot index => " V_" ++ toString index.toNat
  | .argument index => " A_" ++ toString index.toNat

end Operand

/-- An opcode with its operand. Nothing forces the operand to fit;
`Instruction.checked?` builds those that do. -/
structure Instruction where
  opcode : Opcode
  operand : Operand := .none
  deriving Repr

/-- What an instruction does to the evaluation stack. -/
structure StackEffect where
  pops : Nat
  pushes : Nat
  clears : Bool
  deriving DecidableEq, Repr

namespace Instruction

/-- The operand is of the kind that the opcode takes. -/
def isWellTyped (i : Instruction) : Bool := i.operand.fits i.opcode.kind

/-- An instruction whose operand fits its opcode. -/
def checked? (opcode : Opcode) (operand : Operand) : Option Instruction :=
  if operand.fits opcode.kind then some ⟨opcode, operand⟩ else none

/-- The places the instruction may branch to. -/
def targets (i : Instruction) : List Place := i.operand.targets

/-- Send every branch of the instruction to `old` to `new` instead. -/
def retarget (old new : Place) (i : Instruction) : Instruction :=
  { i with operand := i.operand.retarget old new }

/-- The method operand. -/
def method? (i : Instruction) : Option MethodRef :=
  match i.operand with
  | .method method => some method
  | _ => none

/-- The method operand of an instruction that calls it. -/
def calledMethod? (i : Instruction) : Option MethodRef :=
  if i.opcode.isCall then i.method? else none

/-- The local variable accessed, named by the operand or by the opcode. -/
def localIndex? (i : Instruction) : Option UInt16 :=
  match i.operand with
  | .localSlot index => some index
  | _ => i.opcode.implicitLocal

/-- The argument accessed, named by the operand or by the opcode. -/
def argumentIndex? (i : Instruction) : Option UInt16 :=
  match i.operand with
  | .argument index => some index
  | _ => i.opcode.implicitArgument

/-- The 32-bit constant that the instruction loads. -/
def constant32? (i : Instruction) : Option Int32 :=
  match i.opcode, i.operand with
  | .ldcI4S, .int8 value => some value.toInt32
  | .ldcI4, .int32 value => some value
  | opcode, _ => opcode.implicitConstant

/-- The encoded bytes of the instruction. -/
def size (i : Instruction) : Nat :=
  let targets := match i.operand with
    | .switch places => places.length
    | _ => 0
  i.opcode.size + i.opcode.kind.size targets

/-- The greatest number of slots that an effect counts. -/
def greatestPops : Nat := 0xFFFF

/-- The stack effect. Calls take theirs from the signature of their operand and
count for nothing without one; a return pops what the method returns. -/
def stackEffect (returnsValue : Bool) (i : Instruction) : StackEffect :=
  let counts : Nat × Nat :=
    match i.opcode, i.operand with
    | .call, .method m | .callvirt, .method m => (m.callPops, m.returnsValue.toNat)
    | .newobj, .method m => (m.newobjPops, 1)
    | .calli, .signature s => (s.callPops, s.returnsValue.toNat)
    | .ret, _ => (returnsValue.toNat, 0)
    | opcode, _ => (opcode.row.pops.getD 0, opcode.row.pushes.getD 0)
  ⟨min counts.1 greatestPops, counts.2, i.opcode.clearsStack⟩

/-- The instruction in assembler notation. -/
def text (i : Instruction) : String := i.opcode.mnemonic ++ i.operand.textWith Place.text

end Instruction

end InlineCil
