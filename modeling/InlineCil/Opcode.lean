import InlineCil.Text.Segments

/-!
# Opcodes

The instruction set of the Common Intermediate Language: for every opcode its
mnemonic, its encoded value, the kind of operand it takes, how control leaves it
and how many stack slots it pops and pushes. A count that depends on a signature
is absent from the table.

The table is one function with a row for each opcode, and almost everything else
is read off a row. What is not in the table is how families of opcodes hang
together: the short forms of an access to a local variable or an argument, the
forms with an index in their name, and the constants that are part of the opcode.
Those are small functions at the end, partial where a family has no member.

Opcodes are found by mnemonic or by the name of the method that emits them, in
which capitals do not count and an underscore stands for a point.
-/

namespace InlineCil

/-- The kinds of inline operands. A token is a type, a method or a field. -/
inductive OperandKind where
  | none | int8 | uint8 | int32 | int64 | float32 | float64 | string | type | method | field
  | token | signature | shortTarget | target | switch | shortLocalSlot | localSlot
  | shortArgument | argument
  deriving DecidableEq, Repr

namespace OperandKind

/-- The name of a kind in messages. -/
def name : OperandKind → String
  | .none => "None"
  | .int8 => "Int8"
  | .uint8 => "UInt8"
  | .int32 => "Int32"
  | .int64 => "Int64"
  | .float32 => "Float32"
  | .float64 => "Float64"
  | .string => "String"
  | .type => "Type"
  | .method => "Method"
  | .field => "Field"
  | .token => "Token"
  | .signature => "Signature"
  | .shortTarget => "ShortBranchTarget"
  | .target => "BranchTarget"
  | .switch => "Switch"
  | .shortLocalSlot => "ShortLocal"
  | .localSlot => "Local"
  | .shortArgument => "ShortArgument"
  | .argument => "Argument"

/-- The encoded bytes of an operand; a switch has a count and one word per
target. -/
def size (targets : Nat) : OperandKind → Nat
  | .none => 0
  | .int8 | .uint8 | .shortTarget | .shortLocalSlot | .shortArgument => 1
  | .localSlot | .argument => 2
  | .int32 | .float32 | .string | .type | .method | .field | .token | .signature | .target => 4
  | .int64 | .float64 => 8
  | .switch => 4 + 4 * targets

/-- The operand is one branch target. -/
def isTarget (k : OperandKind) : Bool := k = .shortTarget || k = .target

/-- The operand is the index of a local variable. -/
def isLocalSlot (k : OperandKind) : Bool := k = .shortLocalSlot || k = .localSlot

/-- The operand is the index of an argument. -/
def isArgument (k : OperandKind) : Bool := k = .shortArgument || k = .argument

end OperandKind

/-- How control leaves an instruction. -/
inductive Flow where
  | sequential | conditional | unconditional | call | ret | switch | throw | endHandler | leave
  deriving DecidableEq, Repr

namespace Flow

/-- The name of a flow. -/
def name : Flow → String
  | .sequential => "Sequential"
  | .conditional => "ConditionalBranch"
  | .unconditional => "UnconditionalBranch"
  | .call => "Call"
  | .ret => "Return"
  | .switch => "Switch"
  | .throw => "Throw"
  | .endHandler => "EndFinally"
  | .leave => "Leave"

/-- Control may go to a branch target. -/
def isBranch (f : Flow) : Bool := f = .conditional || f = .unconditional || f = .switch

/-- The instruction is the last one of its basic block. -/
def endsBlock (f : Flow) : Bool := f != .sequential && f != .call

/-- Control never goes on to the next instruction. -/
def endsFlow (f : Flow) : Bool :=
  f = .unconditional || f = .ret || f = .throw || f = .endHandler || f = .leave

end Flow

/-- The opcodes, named after their mnemonics. -/
inductive Opcode where
  | nop | breakpoint | ldarg0 | ldarg1 | ldarg2 | ldarg3 | ldloc0 | ldloc1 | ldloc2 | ldloc3
  | stloc0 | stloc1 | stloc2 | stloc3 | ldargS | ldargaS | stargS | ldlocS | ldlocaS | stlocS
  | ldnull | ldcI4M1 | ldcI40 | ldcI41 | ldcI42 | ldcI43 | ldcI44 | ldcI45 | ldcI46 | ldcI47
  | ldcI48 | ldcI4S | ldcI4 | ldcI8 | ldcR4 | ldcR8 | dup | pop | jmp | call | calli | ret | brS
  | brfalseS | brtrueS | beqS | bgeS | bgtS | bleS | bltS | bneUnS | bgeUnS | bgtUnS | bleUnS
  | bltUnS | br | brfalse | brtrue | beq | bge | bgt | ble | blt | bneUn | bgeUn | bgtUn | bleUn
  | bltUn | switch | ldindI1 | ldindU1 | ldindI2 | ldindU2 | ldindI4 | ldindU4 | ldindI8 | ldindI
  | ldindR4 | ldindR8 | ldindRef | stindRef | stindI1 | stindI2 | stindI4 | stindI8 | stindR4
  | stindR8 | add | sub | mul | div | divUn | rem | remUn | and | or | xor | shl | shr | shrUn
  | neg | not | convI1 | convI2 | convI4 | convI8 | convR4 | convR8 | convU4 | convU8 | callvirt
  | cpobj | ldobj | ldstr | newobj | castclass | isinst | convRUn | unbox | throw | ldfld
  | ldflda | stfld | ldsfld | ldsflda | stsfld | stobj | convOvfI1Un | convOvfI2Un | convOvfI4Un
  | convOvfI8Un | convOvfU1Un | convOvfU2Un | convOvfU4Un | convOvfU8Un | convOvfIUn | convOvfUUn
  | box | newarr | ldlen | ldelema | ldelemI1 | ldelemU1 | ldelemI2 | ldelemU2 | ldelemI4
  | ldelemU4 | ldelemI8 | ldelemI | ldelemR4 | ldelemR8 | ldelemRef | stelemI | stelemI1
  | stelemI2 | stelemI4 | stelemI8 | stelemR4 | stelemR8 | stelemRef | ldelem | stelem | unboxAny
  | convOvfI1 | convOvfU1 | convOvfI2 | convOvfU2 | convOvfI4 | convOvfU4 | convOvfI8 | convOvfU8
  | refanyval | ckfinite | mkrefany | ldtoken | convU2 | convU1 | convI | convOvfI | convOvfU
  | addOvf | addOvfUn | mulOvf | mulOvfUn | subOvf | subOvfUn | endfinally | leave | leaveS
  | stindI | convU | arglist | ceq | cgt | cgtUn | clt | cltUn | ldftn | ldvirtftn | ldarg
  | ldarga | starg | ldloc | ldloca | stloc | localloc | endfilter | unaligned | volatile | tail
  | initobj | constrained | cpblk | initblk | no | rethrow | sizeof | refanytype | readonly
  deriving DecidableEq, Repr

/-- One row of the opcode table. -/
structure Opcode.Row where
  mnemonic : String
  value : Nat
  kind : OperandKind
  flow : Flow
  pops : Option Nat
  pushes : Option Nat
  deriving Repr

namespace Opcode

/-- The opcode table. -/
def row : Opcode → Row
  | .nop => ⟨"nop", 0x00, .none, .sequential, some 0, some 0⟩
  | .breakpoint => ⟨"break", 0x01, .none, .sequential, some 0, some 0⟩
  | .ldarg0 => ⟨"ldarg.0", 0x02, .none, .sequential, some 0, some 1⟩
  | .ldarg1 => ⟨"ldarg.1", 0x03, .none, .sequential, some 0, some 1⟩
  | .ldarg2 => ⟨"ldarg.2", 0x04, .none, .sequential, some 0, some 1⟩
  | .ldarg3 => ⟨"ldarg.3", 0x05, .none, .sequential, some 0, some 1⟩
  | .ldloc0 => ⟨"ldloc.0", 0x06, .none, .sequential, some 0, some 1⟩
  | .ldloc1 => ⟨"ldloc.1", 0x07, .none, .sequential, some 0, some 1⟩
  | .ldloc2 => ⟨"ldloc.2", 0x08, .none, .sequential, some 0, some 1⟩
  | .ldloc3 => ⟨"ldloc.3", 0x09, .none, .sequential, some 0, some 1⟩
  | .stloc0 => ⟨"stloc.0", 0x0A, .none, .sequential, some 1, some 0⟩
  | .stloc1 => ⟨"stloc.1", 0x0B, .none, .sequential, some 1, some 0⟩
  | .stloc2 => ⟨"stloc.2", 0x0C, .none, .sequential, some 1, some 0⟩
  | .stloc3 => ⟨"stloc.3", 0x0D, .none, .sequential, some 1, some 0⟩
  | .ldargS => ⟨"ldarg.s", 0x0E, .shortArgument, .sequential, some 0, some 1⟩
  | .ldargaS => ⟨"ldarga.s", 0x0F, .shortArgument, .sequential, some 0, some 1⟩
  | .stargS => ⟨"starg.s", 0x10, .shortArgument, .sequential, some 1, some 0⟩
  | .ldlocS => ⟨"ldloc.s", 0x11, .shortLocalSlot, .sequential, some 0, some 1⟩
  | .ldlocaS => ⟨"ldloca.s", 0x12, .shortLocalSlot, .sequential, some 0, some 1⟩
  | .stlocS => ⟨"stloc.s", 0x13, .shortLocalSlot, .sequential, some 1, some 0⟩
  | .ldnull => ⟨"ldnull", 0x14, .none, .sequential, some 0, some 1⟩
  | .ldcI4M1 => ⟨"ldc.i4.m1", 0x15, .none, .sequential, some 0, some 1⟩
  | .ldcI40 => ⟨"ldc.i4.0", 0x16, .none, .sequential, some 0, some 1⟩
  | .ldcI41 => ⟨"ldc.i4.1", 0x17, .none, .sequential, some 0, some 1⟩
  | .ldcI42 => ⟨"ldc.i4.2", 0x18, .none, .sequential, some 0, some 1⟩
  | .ldcI43 => ⟨"ldc.i4.3", 0x19, .none, .sequential, some 0, some 1⟩
  | .ldcI44 => ⟨"ldc.i4.4", 0x1A, .none, .sequential, some 0, some 1⟩
  | .ldcI45 => ⟨"ldc.i4.5", 0x1B, .none, .sequential, some 0, some 1⟩
  | .ldcI46 => ⟨"ldc.i4.6", 0x1C, .none, .sequential, some 0, some 1⟩
  | .ldcI47 => ⟨"ldc.i4.7", 0x1D, .none, .sequential, some 0, some 1⟩
  | .ldcI48 => ⟨"ldc.i4.8", 0x1E, .none, .sequential, some 0, some 1⟩
  | .ldcI4S => ⟨"ldc.i4.s", 0x1F, .int8, .sequential, some 0, some 1⟩
  | .ldcI4 => ⟨"ldc.i4", 0x20, .int32, .sequential, some 0, some 1⟩
  | .ldcI8 => ⟨"ldc.i8", 0x21, .int64, .sequential, some 0, some 1⟩
  | .ldcR4 => ⟨"ldc.r4", 0x22, .float32, .sequential, some 0, some 1⟩
  | .ldcR8 => ⟨"ldc.r8", 0x23, .float64, .sequential, some 0, some 1⟩
  | .dup => ⟨"dup", 0x25, .none, .sequential, some 1, some 2⟩
  | .pop => ⟨"pop", 0x26, .none, .sequential, some 1, some 0⟩
  | .jmp => ⟨"jmp", 0x27, .method, .ret, some 0, some 0⟩
  | .call => ⟨"call", 0x28, .method, .call, none, none⟩
  | .calli => ⟨"calli", 0x29, .signature, .call, none, none⟩
  | .ret => ⟨"ret", 0x2A, .none, .ret, none, some 0⟩
  | .brS => ⟨"br.s", 0x2B, .shortTarget, .unconditional, some 0, some 0⟩
  | .brfalseS => ⟨"brfalse.s", 0x2C, .shortTarget, .conditional, some 1, some 0⟩
  | .brtrueS => ⟨"brtrue.s", 0x2D, .shortTarget, .conditional, some 1, some 0⟩
  | .beqS => ⟨"beq.s", 0x2E, .shortTarget, .conditional, some 2, some 0⟩
  | .bgeS => ⟨"bge.s", 0x2F, .shortTarget, .conditional, some 2, some 0⟩
  | .bgtS => ⟨"bgt.s", 0x30, .shortTarget, .conditional, some 2, some 0⟩
  | .bleS => ⟨"ble.s", 0x31, .shortTarget, .conditional, some 2, some 0⟩
  | .bltS => ⟨"blt.s", 0x32, .shortTarget, .conditional, some 2, some 0⟩
  | .bneUnS => ⟨"bne.un.s", 0x33, .shortTarget, .conditional, some 2, some 0⟩
  | .bgeUnS => ⟨"bge.un.s", 0x34, .shortTarget, .conditional, some 2, some 0⟩
  | .bgtUnS => ⟨"bgt.un.s", 0x35, .shortTarget, .conditional, some 2, some 0⟩
  | .bleUnS => ⟨"ble.un.s", 0x36, .shortTarget, .conditional, some 2, some 0⟩
  | .bltUnS => ⟨"blt.un.s", 0x37, .shortTarget, .conditional, some 2, some 0⟩
  | .br => ⟨"br", 0x38, .target, .unconditional, some 0, some 0⟩
  | .brfalse => ⟨"brfalse", 0x39, .target, .conditional, some 1, some 0⟩
  | .brtrue => ⟨"brtrue", 0x3A, .target, .conditional, some 1, some 0⟩
  | .beq => ⟨"beq", 0x3B, .target, .conditional, some 2, some 0⟩
  | .bge => ⟨"bge", 0x3C, .target, .conditional, some 2, some 0⟩
  | .bgt => ⟨"bgt", 0x3D, .target, .conditional, some 2, some 0⟩
  | .ble => ⟨"ble", 0x3E, .target, .conditional, some 2, some 0⟩
  | .blt => ⟨"blt", 0x3F, .target, .conditional, some 2, some 0⟩
  | .bneUn => ⟨"bne.un", 0x40, .target, .conditional, some 2, some 0⟩
  | .bgeUn => ⟨"bge.un", 0x41, .target, .conditional, some 2, some 0⟩
  | .bgtUn => ⟨"bgt.un", 0x42, .target, .conditional, some 2, some 0⟩
  | .bleUn => ⟨"ble.un", 0x43, .target, .conditional, some 2, some 0⟩
  | .bltUn => ⟨"blt.un", 0x44, .target, .conditional, some 2, some 0⟩
  | .switch => ⟨"switch", 0x45, .switch, .switch, some 1, some 0⟩
  | .ldindI1 => ⟨"ldind.i1", 0x46, .none, .sequential, some 1, some 1⟩
  | .ldindU1 => ⟨"ldind.u1", 0x47, .none, .sequential, some 1, some 1⟩
  | .ldindI2 => ⟨"ldind.i2", 0x48, .none, .sequential, some 1, some 1⟩
  | .ldindU2 => ⟨"ldind.u2", 0x49, .none, .sequential, some 1, some 1⟩
  | .ldindI4 => ⟨"ldind.i4", 0x4A, .none, .sequential, some 1, some 1⟩
  | .ldindU4 => ⟨"ldind.u4", 0x4B, .none, .sequential, some 1, some 1⟩
  | .ldindI8 => ⟨"ldind.i8", 0x4C, .none, .sequential, some 1, some 1⟩
  | .ldindI => ⟨"ldind.i", 0x4D, .none, .sequential, some 1, some 1⟩
  | .ldindR4 => ⟨"ldind.r4", 0x4E, .none, .sequential, some 1, some 1⟩
  | .ldindR8 => ⟨"ldind.r8", 0x4F, .none, .sequential, some 1, some 1⟩
  | .ldindRef => ⟨"ldind.ref", 0x50, .none, .sequential, some 1, some 1⟩
  | .stindRef => ⟨"stind.ref", 0x51, .none, .sequential, some 2, some 0⟩
  | .stindI1 => ⟨"stind.i1", 0x52, .none, .sequential, some 2, some 0⟩
  | .stindI2 => ⟨"stind.i2", 0x53, .none, .sequential, some 2, some 0⟩
  | .stindI4 => ⟨"stind.i4", 0x54, .none, .sequential, some 2, some 0⟩
  | .stindI8 => ⟨"stind.i8", 0x55, .none, .sequential, some 2, some 0⟩
  | .stindR4 => ⟨"stind.r4", 0x56, .none, .sequential, some 2, some 0⟩
  | .stindR8 => ⟨"stind.r8", 0x57, .none, .sequential, some 2, some 0⟩
  | .add => ⟨"add", 0x58, .none, .sequential, some 2, some 1⟩
  | .sub => ⟨"sub", 0x59, .none, .sequential, some 2, some 1⟩
  | .mul => ⟨"mul", 0x5A, .none, .sequential, some 2, some 1⟩
  | .div => ⟨"div", 0x5B, .none, .sequential, some 2, some 1⟩
  | .divUn => ⟨"div.un", 0x5C, .none, .sequential, some 2, some 1⟩
  | .rem => ⟨"rem", 0x5D, .none, .sequential, some 2, some 1⟩
  | .remUn => ⟨"rem.un", 0x5E, .none, .sequential, some 2, some 1⟩
  | .and => ⟨"and", 0x5F, .none, .sequential, some 2, some 1⟩
  | .or => ⟨"or", 0x60, .none, .sequential, some 2, some 1⟩
  | .xor => ⟨"xor", 0x61, .none, .sequential, some 2, some 1⟩
  | .shl => ⟨"shl", 0x62, .none, .sequential, some 2, some 1⟩
  | .shr => ⟨"shr", 0x63, .none, .sequential, some 2, some 1⟩
  | .shrUn => ⟨"shr.un", 0x64, .none, .sequential, some 2, some 1⟩
  | .neg => ⟨"neg", 0x65, .none, .sequential, some 1, some 1⟩
  | .not => ⟨"not", 0x66, .none, .sequential, some 1, some 1⟩
  | .convI1 => ⟨"conv.i1", 0x67, .none, .sequential, some 1, some 1⟩
  | .convI2 => ⟨"conv.i2", 0x68, .none, .sequential, some 1, some 1⟩
  | .convI4 => ⟨"conv.i4", 0x69, .none, .sequential, some 1, some 1⟩
  | .convI8 => ⟨"conv.i8", 0x6A, .none, .sequential, some 1, some 1⟩
  | .convR4 => ⟨"conv.r4", 0x6B, .none, .sequential, some 1, some 1⟩
  | .convR8 => ⟨"conv.r8", 0x6C, .none, .sequential, some 1, some 1⟩
  | .convU4 => ⟨"conv.u4", 0x6D, .none, .sequential, some 1, some 1⟩
  | .convU8 => ⟨"conv.u8", 0x6E, .none, .sequential, some 1, some 1⟩
  | .callvirt => ⟨"callvirt", 0x6F, .method, .call, none, none⟩
  | .cpobj => ⟨"cpobj", 0x70, .type, .sequential, some 2, some 0⟩
  | .ldobj => ⟨"ldobj", 0x71, .type, .sequential, some 1, some 1⟩
  | .ldstr => ⟨"ldstr", 0x72, .string, .sequential, some 0, some 1⟩
  | .newobj => ⟨"newobj", 0x73, .method, .call, none, some 1⟩
  | .castclass => ⟨"castclass", 0x74, .type, .sequential, some 1, some 1⟩
  | .isinst => ⟨"isinst", 0x75, .type, .sequential, some 1, some 1⟩
  | .convRUn => ⟨"conv.r.un", 0x76, .none, .sequential, some 1, some 1⟩
  | .unbox => ⟨"unbox", 0x79, .type, .sequential, some 1, some 1⟩
  | .throw => ⟨"throw", 0x7A, .none, .throw, some 1, some 0⟩
  | .ldfld => ⟨"ldfld", 0x7B, .field, .sequential, some 1, some 1⟩
  | .ldflda => ⟨"ldflda", 0x7C, .field, .sequential, some 1, some 1⟩
  | .stfld => ⟨"stfld", 0x7D, .field, .sequential, some 2, some 0⟩
  | .ldsfld => ⟨"ldsfld", 0x7E, .field, .sequential, some 0, some 1⟩
  | .ldsflda => ⟨"ldsflda", 0x7F, .field, .sequential, some 0, some 1⟩
  | .stsfld => ⟨"stsfld", 0x80, .field, .sequential, some 1, some 0⟩
  | .stobj => ⟨"stobj", 0x81, .type, .sequential, some 2, some 0⟩
  | .convOvfI1Un => ⟨"conv.ovf.i1.un", 0x82, .none, .sequential, some 1, some 1⟩
  | .convOvfI2Un => ⟨"conv.ovf.i2.un", 0x83, .none, .sequential, some 1, some 1⟩
  | .convOvfI4Un => ⟨"conv.ovf.i4.un", 0x84, .none, .sequential, some 1, some 1⟩
  | .convOvfI8Un => ⟨"conv.ovf.i8.un", 0x85, .none, .sequential, some 1, some 1⟩
  | .convOvfU1Un => ⟨"conv.ovf.u1.un", 0x86, .none, .sequential, some 1, some 1⟩
  | .convOvfU2Un => ⟨"conv.ovf.u2.un", 0x87, .none, .sequential, some 1, some 1⟩
  | .convOvfU4Un => ⟨"conv.ovf.u4.un", 0x88, .none, .sequential, some 1, some 1⟩
  | .convOvfU8Un => ⟨"conv.ovf.u8.un", 0x89, .none, .sequential, some 1, some 1⟩
  | .convOvfIUn => ⟨"conv.ovf.i.un", 0x8A, .none, .sequential, some 1, some 1⟩
  | .convOvfUUn => ⟨"conv.ovf.u.un", 0x8B, .none, .sequential, some 1, some 1⟩
  | .box => ⟨"box", 0x8C, .type, .sequential, some 1, some 1⟩
  | .newarr => ⟨"newarr", 0x8D, .type, .sequential, some 1, some 1⟩
  | .ldlen => ⟨"ldlen", 0x8E, .none, .sequential, some 1, some 1⟩
  | .ldelema => ⟨"ldelema", 0x8F, .type, .sequential, some 2, some 1⟩
  | .ldelemI1 => ⟨"ldelem.i1", 0x90, .none, .sequential, some 2, some 1⟩
  | .ldelemU1 => ⟨"ldelem.u1", 0x91, .none, .sequential, some 2, some 1⟩
  | .ldelemI2 => ⟨"ldelem.i2", 0x92, .none, .sequential, some 2, some 1⟩
  | .ldelemU2 => ⟨"ldelem.u2", 0x93, .none, .sequential, some 2, some 1⟩
  | .ldelemI4 => ⟨"ldelem.i4", 0x94, .none, .sequential, some 2, some 1⟩
  | .ldelemU4 => ⟨"ldelem.u4", 0x95, .none, .sequential, some 2, some 1⟩
  | .ldelemI8 => ⟨"ldelem.i8", 0x96, .none, .sequential, some 2, some 1⟩
  | .ldelemI => ⟨"ldelem.i", 0x97, .none, .sequential, some 2, some 1⟩
  | .ldelemR4 => ⟨"ldelem.r4", 0x98, .none, .sequential, some 2, some 1⟩
  | .ldelemR8 => ⟨"ldelem.r8", 0x99, .none, .sequential, some 2, some 1⟩
  | .ldelemRef => ⟨"ldelem.ref", 0x9A, .none, .sequential, some 2, some 1⟩
  | .stelemI => ⟨"stelem.i", 0x9B, .none, .sequential, some 3, some 0⟩
  | .stelemI1 => ⟨"stelem.i1", 0x9C, .none, .sequential, some 3, some 0⟩
  | .stelemI2 => ⟨"stelem.i2", 0x9D, .none, .sequential, some 3, some 0⟩
  | .stelemI4 => ⟨"stelem.i4", 0x9E, .none, .sequential, some 3, some 0⟩
  | .stelemI8 => ⟨"stelem.i8", 0x9F, .none, .sequential, some 3, some 0⟩
  | .stelemR4 => ⟨"stelem.r4", 0xA0, .none, .sequential, some 3, some 0⟩
  | .stelemR8 => ⟨"stelem.r8", 0xA1, .none, .sequential, some 3, some 0⟩
  | .stelemRef => ⟨"stelem.ref", 0xA2, .none, .sequential, some 3, some 0⟩
  | .ldelem => ⟨"ldelem", 0xA3, .type, .sequential, some 2, some 1⟩
  | .stelem => ⟨"stelem", 0xA4, .type, .sequential, some 3, some 0⟩
  | .unboxAny => ⟨"unbox.any", 0xA5, .type, .sequential, some 1, some 1⟩
  | .convOvfI1 => ⟨"conv.ovf.i1", 0xB3, .none, .sequential, some 1, some 1⟩
  | .convOvfU1 => ⟨"conv.ovf.u1", 0xB4, .none, .sequential, some 1, some 1⟩
  | .convOvfI2 => ⟨"conv.ovf.i2", 0xB5, .none, .sequential, some 1, some 1⟩
  | .convOvfU2 => ⟨"conv.ovf.u2", 0xB6, .none, .sequential, some 1, some 1⟩
  | .convOvfI4 => ⟨"conv.ovf.i4", 0xB7, .none, .sequential, some 1, some 1⟩
  | .convOvfU4 => ⟨"conv.ovf.u4", 0xB8, .none, .sequential, some 1, some 1⟩
  | .convOvfI8 => ⟨"conv.ovf.i8", 0xB9, .none, .sequential, some 1, some 1⟩
  | .convOvfU8 => ⟨"conv.ovf.u8", 0xBA, .none, .sequential, some 1, some 1⟩
  | .refanyval => ⟨"refanyval", 0xC2, .type, .sequential, some 1, some 1⟩
  | .ckfinite => ⟨"ckfinite", 0xC3, .none, .sequential, some 1, some 1⟩
  | .mkrefany => ⟨"mkrefany", 0xC6, .type, .sequential, some 1, some 1⟩
  | .ldtoken => ⟨"ldtoken", 0xD0, .token, .sequential, some 0, some 1⟩
  | .convU2 => ⟨"conv.u2", 0xD1, .none, .sequential, some 1, some 1⟩
  | .convU1 => ⟨"conv.u1", 0xD2, .none, .sequential, some 1, some 1⟩
  | .convI => ⟨"conv.i", 0xD3, .none, .sequential, some 1, some 1⟩
  | .convOvfI => ⟨"conv.ovf.i", 0xD4, .none, .sequential, some 1, some 1⟩
  | .convOvfU => ⟨"conv.ovf.u", 0xD5, .none, .sequential, some 1, some 1⟩
  | .addOvf => ⟨"add.ovf", 0xD6, .none, .sequential, some 2, some 1⟩
  | .addOvfUn => ⟨"add.ovf.un", 0xD7, .none, .sequential, some 2, some 1⟩
  | .mulOvf => ⟨"mul.ovf", 0xD8, .none, .sequential, some 2, some 1⟩
  | .mulOvfUn => ⟨"mul.ovf.un", 0xD9, .none, .sequential, some 2, some 1⟩
  | .subOvf => ⟨"sub.ovf", 0xDA, .none, .sequential, some 2, some 1⟩
  | .subOvfUn => ⟨"sub.ovf.un", 0xDB, .none, .sequential, some 2, some 1⟩
  | .endfinally => ⟨"endfinally", 0xDC, .none, .endHandler, some 0, some 0⟩
  | .leave => ⟨"leave", 0xDD, .target, .leave, some 0, some 0⟩
  | .leaveS => ⟨"leave.s", 0xDE, .shortTarget, .leave, some 0, some 0⟩
  | .stindI => ⟨"stind.i", 0xDF, .none, .sequential, some 2, some 0⟩
  | .convU => ⟨"conv.u", 0xE0, .none, .sequential, some 1, some 1⟩
  | .arglist => ⟨"arglist", 0xFE00, .none, .sequential, some 0, some 1⟩
  | .ceq => ⟨"ceq", 0xFE01, .none, .sequential, some 2, some 1⟩
  | .cgt => ⟨"cgt", 0xFE02, .none, .sequential, some 2, some 1⟩
  | .cgtUn => ⟨"cgt.un", 0xFE03, .none, .sequential, some 2, some 1⟩
  | .clt => ⟨"clt", 0xFE04, .none, .sequential, some 2, some 1⟩
  | .cltUn => ⟨"clt.un", 0xFE05, .none, .sequential, some 2, some 1⟩
  | .ldftn => ⟨"ldftn", 0xFE06, .method, .sequential, some 0, some 1⟩
  | .ldvirtftn => ⟨"ldvirtftn", 0xFE07, .method, .sequential, some 1, some 1⟩
  | .ldarg => ⟨"ldarg", 0xFE09, .argument, .sequential, some 0, some 1⟩
  | .ldarga => ⟨"ldarga", 0xFE0A, .argument, .sequential, some 0, some 1⟩
  | .starg => ⟨"starg", 0xFE0B, .argument, .sequential, some 1, some 0⟩
  | .ldloc => ⟨"ldloc", 0xFE0C, .localSlot, .sequential, some 0, some 1⟩
  | .ldloca => ⟨"ldloca", 0xFE0D, .localSlot, .sequential, some 0, some 1⟩
  | .stloc => ⟨"stloc", 0xFE0E, .localSlot, .sequential, some 1, some 0⟩
  | .localloc => ⟨"localloc", 0xFE0F, .none, .sequential, some 1, some 1⟩
  | .endfilter => ⟨"endfilter", 0xFE11, .none, .endHandler, some 1, some 0⟩
  | .unaligned => ⟨"unaligned.", 0xFE12, .uint8, .sequential, some 0, some 0⟩
  | .volatile => ⟨"volatile.", 0xFE13, .none, .sequential, some 0, some 0⟩
  | .tail => ⟨"tail.", 0xFE14, .none, .sequential, some 0, some 0⟩
  | .initobj => ⟨"initobj", 0xFE15, .type, .sequential, some 1, some 0⟩
  | .constrained => ⟨"constrained.", 0xFE16, .type, .sequential, some 0, some 0⟩
  | .cpblk => ⟨"cpblk", 0xFE17, .none, .sequential, some 3, some 0⟩
  | .initblk => ⟨"initblk", 0xFE18, .none, .sequential, some 3, some 0⟩
  | .no => ⟨"no.", 0xFE19, .uint8, .sequential, some 0, some 0⟩
  | .rethrow => ⟨"rethrow", 0xFE1A, .none, .throw, some 0, some 0⟩
  | .sizeof => ⟨"sizeof", 0xFE1C, .type, .sequential, some 0, some 1⟩
  | .refanytype => ⟨"refanytype", 0xFE1D, .none, .sequential, some 1, some 1⟩
  | .readonly => ⟨"readonly.", 0xFE1E, .none, .sequential, some 0, some 0⟩

/-- Every opcode, in the order of encoded values. -/
def all : List Opcode :=
  [.nop, .breakpoint, .ldarg0, .ldarg1, .ldarg2, .ldarg3, .ldloc0, .ldloc1, .ldloc2, .ldloc3,
   .stloc0, .stloc1, .stloc2, .stloc3, .ldargS, .ldargaS, .stargS, .ldlocS, .ldlocaS, .stlocS,
   .ldnull, .ldcI4M1, .ldcI40, .ldcI41, .ldcI42, .ldcI43, .ldcI44, .ldcI45, .ldcI46, .ldcI47,
   .ldcI48, .ldcI4S, .ldcI4, .ldcI8, .ldcR4, .ldcR8, .dup, .pop, .jmp, .call, .calli, .ret, .brS,
   .brfalseS, .brtrueS, .beqS, .bgeS, .bgtS, .bleS, .bltS, .bneUnS, .bgeUnS, .bgtUnS, .bleUnS,
   .bltUnS, .br, .brfalse, .brtrue, .beq, .bge, .bgt, .ble, .blt, .bneUn, .bgeUn, .bgtUn, .bleUn,
   .bltUn, .switch, .ldindI1, .ldindU1, .ldindI2, .ldindU2, .ldindI4, .ldindU4, .ldindI8,
   .ldindI, .ldindR4, .ldindR8, .ldindRef, .stindRef, .stindI1, .stindI2, .stindI4, .stindI8,
   .stindR4, .stindR8, .add, .sub, .mul, .div, .divUn, .rem, .remUn, .and, .or, .xor, .shl, .shr,
   .shrUn, .neg, .not, .convI1, .convI2, .convI4, .convI8, .convR4, .convR8, .convU4, .convU8,
   .callvirt, .cpobj, .ldobj, .ldstr, .newobj, .castclass, .isinst, .convRUn, .unbox, .throw,
   .ldfld, .ldflda, .stfld, .ldsfld, .ldsflda, .stsfld, .stobj, .convOvfI1Un, .convOvfI2Un,
   .convOvfI4Un, .convOvfI8Un, .convOvfU1Un, .convOvfU2Un, .convOvfU4Un, .convOvfU8Un,
   .convOvfIUn, .convOvfUUn, .box, .newarr, .ldlen, .ldelema, .ldelemI1, .ldelemU1, .ldelemI2,
   .ldelemU2, .ldelemI4, .ldelemU4, .ldelemI8, .ldelemI, .ldelemR4, .ldelemR8, .ldelemRef,
   .stelemI, .stelemI1, .stelemI2, .stelemI4, .stelemI8, .stelemR4, .stelemR8, .stelemRef,
   .ldelem, .stelem, .unboxAny, .convOvfI1, .convOvfU1, .convOvfI2, .convOvfU2, .convOvfI4,
   .convOvfU4, .convOvfI8, .convOvfU8, .refanyval, .ckfinite, .mkrefany, .ldtoken, .convU2,
   .convU1, .convI, .convOvfI, .convOvfU, .addOvf, .addOvfUn, .mulOvf, .mulOvfUn, .subOvf,
   .subOvfUn, .endfinally, .leave, .leaveS, .stindI, .convU, .arglist, .ceq, .cgt, .cgtUn, .clt,
   .cltUn, .ldftn, .ldvirtftn, .ldarg, .ldarga, .starg, .ldloc, .ldloca, .stloc, .localloc,
   .endfilter, .unaligned, .volatile, .tail, .initobj, .constrained, .cpblk, .initblk, .no,
   .rethrow, .sizeof, .refanytype, .readonly]

/-- The written name of an opcode. -/
def mnemonic (op : Opcode) : String := op.row.mnemonic

/-- The encoded value; opcodes of two bytes have the first byte 0xFE. -/
def value (op : Opcode) : Nat := op.row.value

/-- The kind of operand the opcode takes. -/
def kind (op : Opcode) : OperandKind := op.row.kind

/-- How control leaves the opcode. -/
def flow (op : Opcode) : Flow := op.row.flow

/-- The encoded bytes of the opcode alone. -/
def size (op : Opcode) : Nat := if op.value > 0xFF then 2 else 1

/-- The opcode with a mnemonic. -/
def ofMnemonic? (text : String) : Option Opcode := all.find? (·.mnemonic == text)

/-- The opcode that a method name spells: capitals do not count, an underscore
stands for a point, and the point that ends the mnemonic of some opcodes may be
missing. -/
def ofMethodName? (name : String) : Option Opcode :=
  let text := Text.exchanged '_' '.' (Text.lowered name)
  (ofMnemonic? text).or (ofMnemonic? (text ++ "."))

/-- Opcodes that modify the instruction after them. -/
def modifiesNext : Opcode → Bool
  | .unaligned | .volatile | .tail | .constrained | .no | .readonly => true
  | _ => false

/-- The local variable that the opcode itself names. -/
def implicitLocal : Opcode → Option UInt16
  | .ldloc0 | .stloc0 => some 0
  | .ldloc1 | .stloc1 => some 1
  | .ldloc2 | .stloc2 => some 2
  | .ldloc3 | .stloc3 => some 3
  | _ => none

/-- Whether the opcode itself names its local variable. -/
def namesLocal (op : Opcode) : Bool := op.implicitLocal.isSome

/-- The argument that the opcode itself names. -/
def implicitArgument : Opcode → Option UInt16
  | .ldarg0 => some 0
  | .ldarg1 => some 1
  | .ldarg2 => some 2
  | .ldarg3 => some 3
  | _ => none

/-- The constant that the opcode itself names. -/
def implicitConstant : Opcode → Option Int32
  | .ldcI4M1 => some (-1)
  | .ldcI40 => some 0
  | .ldcI41 => some 1
  | .ldcI42 => some 2
  | .ldcI43 => some 3
  | .ldcI44 => some 4
  | .ldcI45 => some 5
  | .ldcI46 => some 6
  | .ldcI47 => some 7
  | .ldcI48 => some 8
  | _ => none

/-- The form with a full index operand of a short access to a local variable. -/
def generalLocalForm : Opcode → Option Opcode
  | .ldloc0 | .ldloc1 | .ldloc2 | .ldloc3 | .ldlocS => some .ldloc
  | .stloc0 | .stloc1 | .stloc2 | .stloc3 | .stlocS => some .stloc
  | .ldlocaS => some .ldloca
  | _ => none

/-- The full form of any access to a local variable, short or not. -/
def localAccess : Opcode → Option Opcode
  | .ldloc => some .ldloc
  | .stloc => some .stloc
  | .ldloca => some .ldloca
  | op => op.generalLocalForm

/-- The three opcodes whose method operand is called. -/
def isCall : Opcode → Bool
  | .call | .callvirt | .newobj => true
  | _ => false

/-- Opcodes that leave the evaluation stack empty. -/
def clearsStack : Opcode → Bool
  | .leave | .leaveS | .endfinally | .endfilter | .throw | .rethrow | .ret | .jmp => true
  | _ => false

/-- Opcodes that store into an array element. -/
def isElementStore : Opcode → Bool
  | .stelemRef | .stelem | .stelemI | .stelemI1 | .stelemI2 | .stelemI4 | .stelemI8
  | .stelemR4 | .stelemR8 => true
  | _ => false

end Opcode

end InlineCil
