import InlineCil.Proofs.Expression.Completeness
import InlineCil.Proofs.Outcome
import Mathlib.Algebra.Ring.Int.Defs
import Mathlib.Data.List.Induction

/-!
# Conversions of integer constants

The runtime has integers of 32 and of 64 bits on its stack, which are neither
signed nor unsigned: every conversion reads its input in one of the two ways,
keeps the low bits and extends them again. A literal with any number of
conversions behind it is read as the constant that the runtime would come to, and
refused if one of the conversions checks for overflow and overflows.

The specification is written on words of bits. `Word.read` gives the number that
bits are read as, `Word.keep` the low bits of a number, extended to the stack
again, and `Word.convert` is one conversion. The program calculates on whole
numbers instead and cuts them to a range by division with remainder, so the two
have to be compared for each width and sign.

Which conversion an opcode stands for is part of what can be wrong.
`Opcode.TellsConversion` reads it off the mnemonic and says it of every opcode,
those included that convert nothing.
-/

namespace InlineCil

namespace Conversion

/-- What mnemonics call an integer type. Native integers have 64 bits. -/
def typeNames : (bits : Nat) → (signed : Bool) → List String
  | 8, true => ["i1"]
  | 8, false => ["u1"]
  | 16, true => ["i2"]
  | 16, false => ["u2"]
  | 32, true => ["i4"]
  | 32, false => ["u4"]
  | 64, true => ["i8", "i"]
  | 64, false => ["u8", "u"]
  | _, _ => []

/-- The mnemonics that a conversion may have. -/
def mnemonics : Conversion → List String
  | ⟨.integer bits signed, checked, unsignedForm⟩ => (typeNames bits signed).map fun name =>
      "conv." ++ (if checked then "ovf." else "") ++ name ++ (if unsignedForm then ".un" else "")
  | ⟨.float32, _, _⟩ => ["conv.r4"]
  | ⟨.float64, _, unsignedForm⟩ => [if unsignedForm then "conv.r.un" else "conv.r8"]

end Conversion

/-- The mnemonic of an opcode says whether it converts, and which conversion that
is: to what it converts, whether it checks for overflow, and whether it is a form
that reads its input as unsigned. -/
def Opcode.TellsConversion (opcode : Opcode) : Prop :=
  (∀ c ∈ opcode.conversion?, opcode.mnemonic ∈ c.mnemonics) ∧
    (opcode.conversion? = none → ¬ "conv.".toList <+: opcode.mnemonic.toList)

/-- Every opcode is classified as its mnemonic says, by going through all of
them. -/
theorem Opcode.tellsConversion (opcode : Opcode) : opcode.TellsConversion := by
  unfold TellsConversion
  cases opcode <;> decide +kernel

/-- An integer on the evaluation stack. -/
inductive Word where
  | narrow (bits : BitVec 32)
  | wide (bits : BitVec 64)

/-- A whole number is in the range of an integer type. -/
def Fits (bits : Nat) (signed : Bool) (value : Int) : Prop :=
  if signed then -2 ^ (bits - 1) ≤ value ∧ value < 2 ^ (bits - 1) else 0 ≤ value ∧ value < 2 ^ bits

instance (bits : Nat) (signed : Bool) (value : Int) : Decidable (Fits bits signed value) :=
  inferInstanceAs (Decidable (if signed then _ else _))

/-- An instruction that converts to an integer type. -/
structure Converting where
  instruction : Instruction
  bits : Nat
  signed : Bool
  checked : Bool
  unsignedForm : Bool
  converts : instruction.opcode.conversion? = some ⟨.integer bits signed, checked, unsignedForm⟩

/-- The input is read as unsigned by the unsigned forms, and by conversions to an
unsigned type that do not check for overflow. -/
def Converting.readsUnsigned (c : Converting) : Bool := c.unsignedForm || (!c.checked && !c.signed)

namespace Word

/-- The constant that an integer is. -/
def constant : Word → Constant
  | narrow bits => .int32 (.ofBitVec bits)
  | wide bits => .int64 (.ofBitVec bits)

/-- The whole number that the bits are read as. -/
def read (unsigned : Bool) : Word → Int
  | narrow bits => if unsigned then bits.toNat else bits.toInt
  | wide bits => if unsigned then bits.toNat else bits.toInt

/-- The low bits of a whole number, extended to an integer of the stack by sign
or by zeros. -/
def keep (bits : Nat) (signed : Bool) (value : Int) : Word :=
  let low := BitVec.ofInt bits value
  if bits ≤ 32 then narrow (if signed then low.signExtend 32 else low.setWidth 32)
  else wide (if signed then low.signExtend 64 else low.setWidth 64)

/-- A conversion that checks for overflow does not have the number in its range. -/
def Overflows (word : Word) (c : Converting) : Prop :=
  c.checked = true ∧ ¬ Fits c.bits c.signed (word.read c.readsUnsigned)

instance (word : Word) (c : Converting) : Decidable (word.Overflows c) :=
  inferInstanceAs (Decidable (_ ∧ ¬ Fits ..))

/-- One conversion. -/
def convert (word : Word) (c : Converting) : Option Word :=
  if word.Overflows c then none else some (keep c.bits c.signed (word.read c.readsUnsigned))

/-- Conversions one after the other. -/
def convertAll (word : Word) (conversions : List Converting) : Option Word :=
  conversions.foldlM convert word

end Word

/-- The literals of integers: those of 32 bits in their short, byte-sized and
full forms, and that of 64 bits. -/
inductive Loads : Instruction → Word → Prop where
  | implicit {opcode : Opcode} {value : Int32} (loads : opcode.implicitConstant = some value) :
      Loads ⟨opcode, .none⟩ (.narrow value.toBitVec)
  | byte (value : Int8) : Loads ⟨.ldcI4S, .int8 value⟩ (.narrow (value.toBitVec.signExtend 32))
  | full (value : Int32) : Loads ⟨.ldcI4, .int32 value⟩ (.narrow value.toBitVec)
  | wide (value : Int64) : Loads ⟨.ldcI8, .int64 value⟩ (.wide value.toBitVec)

variable {word : Word} {c : Converting} {value : Int}

/-- The range that a checked conversion admits is that of the integer type. -/
theorem Conversion.inRange_eq (bits : Nat) (signed : Bool) (value : Int) :
    inRange bits signed value = decide (Fits bits signed value) := by
  unfold inRange Fits valueCount
  cases signed <;> simp [Nat.shiftLeft_eq]

/-- Keeping the low bits and extending them by sign or by zeros is what cutting a
whole number to a range comes to. -/
theorem Conversion.narrowed_eq (bits : Nat) (signed : Bool) (value : Int) :
    narrowed bits signed value = (Word.keep bits signed value).constant := by
  have low : (if signed then value.bmod (valueCount bits) else value.emod (valueCount bits)) =
      if signed then (BitVec.ofInt bits value).toInt else (BitVec.ofInt bits value).toNat := by
    rw [valueCount, Nat.one_shiftLeft, BitVec.toInt_ofInt, BitVec.toNat_ofInt,
      Int.toNat_of_nonneg
        (Int.emod_nonneg _ (Int.ofNat_ne_zero.2 (Nat.ne_of_gt (Nat.two_pow_pos bits))))]
    rfl
  have extended (width : Nat) : BitVec.ofInt width
      (if signed then (BitVec.ofInt bits value).toInt else (BitVec.ofInt bits value).toNat) =
        if signed then (BitVec.ofInt bits value).signExtend width
        else (BitVec.ofInt bits value).setWidth width := by
    cases signed with
    | true => rfl
    | false =>
      simp only [Bool.false_eq_true, if_false]
      rw [BitVec.ofInt_natCast, BitVec.ofNat_toNat]
  unfold narrowed Word.keep
  dsimp only
  rw [low]
  split
  · exact congrArg (fun bits => Constant.int32 (.ofBitVec bits)) (extended 32)
  · exact congrArg (fun bits => Constant.int64 (.ofBitVec bits)) (extended 64)

/-- The stack value is read as it was pushed, or as if it had been unsigned.
Which of the two is told by the form of the conversion. -/
theorem Word.apply_eq_ofWhole (word : Word) (c : Converting) :
    Conversion.apply ⟨.integer c.bits c.signed, c.checked, c.unsignedForm⟩ word.constant =
      Conversion.ofWhole ⟨.integer c.bits c.signed, c.checked, c.unsignedForm⟩ c.bits c.signed
        (word.read c.readsUnsigned) := by
  cases word with
  | narrow bits =>
    change Conversion.ofWhole _ _ _ (if c.readsUnsigned then _ else _) = _
    rw [Int32.toInt_ofBitVec]
    rfl
  | wide bits =>
    change Conversion.ofWhole _ _ _ (if c.readsUnsigned then _ else _) = _
    rw [Int64.toInt_ofBitVec]
    rfl

/-- One conversion of a constant is one conversion of the word, and both are refused
together. -/
theorem Word.apply_conversion (word : Word) (c : Converting) :
    Conversion.apply ⟨.integer c.bits c.signed, c.checked, c.unsignedForm⟩ word.constant =
      (word.convert c).map constant := by
  rw [word.apply_eq_ofWhole c]
  unfold Conversion.ofWhole convert Overflows
  rw [Conversion.inRange_eq, Conversion.narrowed_eq]
  by_cases fits : Fits c.bits c.signed (word.read c.readsUnsigned)
  · simp [fits]
  · by_cases checks : c.checked = true <;> simp [fits, checks]

namespace Word

/-- A conversion is refused exactly if it checks for overflow and the number is
out of its range. -/
theorem convert_eq_none : word.convert c = none ↔ word.Overflows c := by simp [convert]

theorem convertAll_cons (word : Word) (c : Converting) (rest : List Converting) :
    word.convertAll (c :: rest) = (word.convert c).bind fun next => next.convertAll rest := by
  rw [convertAll, List.foldlM_cons]
  rfl

/-- Conversions fail exactly if one of them overflows at what those before it
come to. By induction on the conversions. -/
theorem convertAll_eq_none {conversions : List Converting} :
    word.convertAll conversions = none ↔ ∃ before c after inner,
      conversions = before ++ c :: after ∧ word.convertAll before = some inner ∧
        inner.Overflows c := by
  induction conversions generalizing word with
  | nil => simp [convertAll]
  | cons first rest ih =>
    rw [convertAll_cons]
    constructor
    · intro failed
      cases converted : word.convert first with
      | none => exact ⟨[], first, rest, word, rfl, rfl, convert_eq_none.1 converted⟩
      | some next =>
        rw [converted] at failed
        obtain ⟨before, c, after, inner, rfl, reached, overflows⟩ := ih.1 failed
        refine ⟨first :: before, c, after, inner, rfl, ?_, overflows⟩
        rw [convertAll_cons, converted]
        exact reached
    · rintro ⟨before, c, after, inner, split, reached, overflows⟩
      cases before with
      | nil =>
        obtain ⟨rfl, rfl⟩ := List.cons.inj split
        obtain rfl : word = inner := Option.some.inj reached
        rw [convert_eq_none.2 overflows]
        rfl
      | cons head before =>
        obtain ⟨rfl, rfl⟩ := List.cons.inj split
        rw [convertAll_cons] at reached
        cases converted : word.convert first with
        | none => rfl
        | some next =>
          rw [converted] at reached
          exact ih.2 ⟨before, c, after, inner, rfl, reached, overflows⟩

end Word

namespace Reader

variable {site : Site} {bound : Nat}

/-- The literals of integers are read as the constants they load, in every form:
named by the opcode, in one byte, or in a full word. -/
theorem literal?_of_loads {load : Instruction} (loads : Loads load word) :
    literal? load = some word.constant := by
  cases loads with
  | implicit named =>
    rw [Instruction.literal?_of_operand _ (by rintro _ ⟨⟩) (by rintro _ ⟨⟩) (by rintro _ ⟨⟩),
      Instruction.constant32?_of_operand _ (by rintro _ ⟨⟩) (by rintro _ ⟨⟩), named]
    rfl
  | byte value => rfl
  | full value => rfl
  | wide value => rfl

/-- The conversions of a constant one after the other, up to the first one that
is refused. -/
def converted (constant : Constant) (conversions : List Converting) : Except Failure Constant :=
  conversions.foldlM (fun value c => Expression.convert c.instruction.opcode
    ⟨.integer c.bits c.signed, c.checked, c.unsignedForm⟩ value) constant

/-- A conversion in an expression succeeds as that of the word does, and reports the
constant it was given if not. -/
theorem convert_eq (word : Word) (c : Converting) :
    Expression.convert c.instruction.opcode ⟨.integer c.bits c.signed, c.checked, c.unsignedForm⟩
        word.constant =
      match word.convert c with
      | some next => .ok next.constant
      | none => .error (.ofCause (.overflow word.constant c.instruction.opcode)) := by
  unfold Expression.convert
  rw [word.apply_conversion c]
  cases word.convert c <;> rfl

/-- Conversions go on with the word that the first of them comes to. -/
theorem converted_cons (word : Word) (c : Converting) (rest : List Converting) :
    converted word.constant (c :: rest) =
      match word.convert c with
      | some next => converted next.constant rest
      | none => .error (.ofCause (.overflow word.constant c.instruction.opcode)) := by
  rw [converted, List.foldlM_cons, convert_eq]
  cases word.convert c <;> rfl

/-- Conversions that none refuses come to the constant of the last word. By
induction on the conversions; each step is the conversion of one word. -/
theorem converted_of_some {conversions : List Converting} {final : Word}
    (converts : word.convertAll conversions = some final) :
    converted word.constant conversions = .ok final.constant := by
  induction conversions generalizing word with
  | nil =>
    obtain rfl : word = final := Option.some.inj converts
    rfl
  | cons c rest ih =>
    rw [Word.convertAll_cons] at converts
    rw [converted_cons]
    cases next : word.convert c with
    | none => simp [next] at converts
    | some other => exact ih (by simpa [next] using converts)

/-- Conversions fail at the first one that overflows, whatever comes after it.
The message names the constant that had been reached by then and the opcode that
refuses it. -/
theorem converted_of_overflows {before after : List Converting} {inner : Word}
    (reached : word.convertAll before = some inner) (overflows : inner.Overflows c) :
    converted word.constant (before ++ c :: after) =
      .error (.ofCause (.overflow inner.constant c.instruction.opcode)) := by
  induction before generalizing word with
  | nil =>
    obtain rfl : word = inner := Option.some.inj reached
    rw [List.nil_append, converted_cons, Word.convert_eq_none.2 overflows]
  | cons first before ih =>
    rw [Word.convertAll_cons] at reached
    rw [List.cons_append, converted_cons]
    cases next : word.convert first with
    | none => simp [next] at reached
    | some other => exact ih (by simpa [next] using reached)

/-- The reader of constants follows a literal with its conversions, the last one
being nearest to the call and the first one being made first. -/
theorem follows_converted_all {load : Instruction} (loads : Loads load word)
    (conversions : List Converting) (enough : conversions.length < bound) :
    Follows site (constant site bound) (load :: conversions.map Converting.instruction)
      (liftExcept (converted word.constant conversions)) := by
  induction conversions using List.reverseRecOn generalizing bound with
  | nil =>
    obtain ⟨bound, rfl⟩ := Nat.exists_eq_add_of_lt enough
    exact follows_literal _ (literal?_of_loads loads)
  | append_singleton conversions last ih =>
    rw [List.length_append, List.length_singleton] at enough
    obtain ⟨bound, rfl⟩ := Nat.exists_eq_add_of_le' (Nat.le_trans (Nat.le_add_left 1 _)
      (Nat.le_of_lt enough))
    have read := follows_converted last.converts (ih (Nat.lt_of_succ_lt_succ enough))
    have meaning : (liftExcept (converted word.constant (conversions ++ [last])) :
          Resolving Constant) =
        liftExcept (converted word.constant conversions) >>= fun value =>
          liftExcept (Expression.convert last.instruction.opcode
            ⟨.integer last.bits last.signed, last.checked, last.unsignedForm⟩ value) := by
      rw [converted, List.foldlM_append, ← converted]
      cases converted word.constant conversions with
      | error failure => rfl
      | ok value =>
        simp only [List.foldlM_cons, List.foldlM_nil, bind_pure]
        rfl
    rw [meaning, List.map_append]
    exact read

/-- A constant is read as the runtime would compute it. It comes to the word that
all conversions come to, made from the literal on; reading it fails exactly if
one of them checks for overflow and has not the number that it is given in its
range, and then for that reason. -/
structure Folds (word : Word) (conversions : List Converting)
    (result : EStateM.Result Failure Reading Constant) : Prop where
  value : ∀ final, word.convertAll conversions = some final →
    ∃ left, result = .ok final.constant left
  fails : (∃ told left, result = .error told left) ↔ ∃ before c after inner,
    conversions = before ++ c :: after ∧ word.convertAll before = some inner ∧ inner.Overflows c
  cause : ∀ told left, result = .error told left → ∃ before c after inner,
    conversions = before ++ c :: after ∧ word.convertAll before = some inner ∧
      told.unplaced = .ofCause (.overflow inner.constant c.instruction.opcode)

/-- A literal with conversions behind it, right before a call and in its block,
is read as the runtime would compute it, or refused for the conversion that
overflows. -/
theorem constant_folds (site : Site) (bound : Nat) (load : Instruction) (word : Word)
    (conversions : List Converting) (lines rest : List Line) (taken : List Place)
    (symbols : Symbols) (loads : Loads load word) (enough : lines.length ≤ bound)
    (held : lines.map Line.instruction = load :: conversions.map Converting.instruction)
    (together : ∀ line ∈ lines, site.blocks.sameBlock line.place site.call.place = true) :
    (∀ opcode : Opcode, opcode.TellsConversion) ∧
      Folds word conversions
        ((constant site bound).run ⟨lines.reverse ++ rest, taken, symbols⟩) := by
  refine ⟨Opcode.tellsConversion, ?_⟩
  have few : conversions.length < bound := by
    have length := congrArg List.length held
    simp only [List.length_map, List.length_cons] at length
    omega
  have read := follows_converted_all loads conversions few lines rest taken symbols held together
  cases converts : word.convertAll conversions with
  | some final =>
    rw [converted_of_some converts, Steps.run_liftExcept_ok] at read
    have fine {told : Failure} {left : Reading} : (constant site bound).run
        ⟨lines.reverse ++ rest, taken, symbols⟩ ≠ .error told left := by
      rw [read]
      rintro ⟨⟩
    refine ⟨fun other same => ?_, ⟨fun ⟨_, _, failed⟩ => absurd failed fine, fun split => ?_⟩,
      fun _ _ failed => absurd failed fine⟩
    · obtain rfl : final = other := Option.some.inj (converts.symm.trans same)
      exact ⟨_, read⟩
    · rw [Word.convertAll_eq_none.2 split] at converts
      cases converts
  | none =>
    obtain ⟨before, c, after, inner, rfl, reached, overflows⟩ := Word.convertAll_eq_none.1 converts
    rw [converted_of_overflows reached overflows, Steps.run_liftExcept_error] at read
    obtain ⟨told, left, failed, same, -⟩ := read
    refine ⟨fun other none => ?_, ⟨fun _ => ⟨before, c, after, inner, rfl, reached, overflows⟩,
      fun _ => ⟨told, left, failed⟩⟩, fun other _ again => ?_⟩
    · rw [converts] at none
      cases none
    · rw [failed] at again
      obtain ⟨rfl, -⟩ := EStateM.Result.error.inj again
      exact ⟨before, c, after, inner, rfl, reached, same⟩

/-- A body that widens -1 as an unsigned number and cuts it to a byte, which does
not fit a signed one. -/
def cuttingBody : Body :=
  ({} : Body).pushAll
    [⟨.ldcI4M1, .none⟩, ⟨.convU8, .none⟩, ⟨.convU1, .none⟩, ⟨.convOvfI1, .none⟩, ⟨.nop, .none⟩]

def cuttingSite : Site := ⟨"InlineIL", ⟨⟨4⟩, ⟨.nop, .none⟩⟩, .ofBody cuttingBody⟩

/-- The first two conversions come to 255, and the last one overflows. -/
theorem constant_folds_cutting :
    (Word.narrow (-1#32)).convertAll
        [⟨⟨.convU8, .none⟩, 64, false, false, false, rfl⟩,
          ⟨⟨.convU1, .none⟩, 8, false, false, false, rfl⟩] = some (.narrow 255#32) ∧
      (∃ left, (constant cuttingSite 4).run
        ⟨(cuttingBody.code.linked.take 4).reverse ++ [], [], Weave.emptyProgram⟩ =
          .error (.causedAt (.overflow (.int32 255) .convOvfI1) ⟨3⟩) left) ∧
      Folds (.narrow (-1#32))
        [⟨⟨.convU8, .none⟩, 64, false, false, false, rfl⟩,
          ⟨⟨.convU1, .none⟩, 8, false, false, false, rfl⟩,
          ⟨⟨.convOvfI1, .none⟩, 8, true, true, false, rfl⟩]
        ((constant cuttingSite 4).run
          ⟨(cuttingBody.code.linked.take 4).reverse ++ [], [], Weave.emptyProgram⟩) :=
  ⟨rfl, ⟨_, rfl⟩, (constant_folds cuttingSite 4 ⟨.ldcI4M1, .none⟩ (.narrow (-1#32)) _
    (cuttingBody.code.linked.take 4) [] [] Weave.emptyProgram (@Loads.implicit .ldcI4M1 (-1) rfl)
    (by decide) rfl (by decide)).2⟩

end Reader

end InlineCil
