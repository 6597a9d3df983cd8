import InlineCil.Proofs.Expression

/-!
# Reading the code of an expression

A reader that meets the code of an expression right before the call gives what
the expression denotes, and takes exactly that code. If some conversion,
composition or lookup fails, the reader fails for the same reason; only the place
of the failure is its own.

The relation `Follows` says so for any reader, piece of code and meaning. It is
closed under the ways in which readers are put together, so each constructor of
the grammar asks only that its reader is put together from the right parts in the
right order.

Most builders are calls with one to four arguments. For these `follows_afterOne`
to `follows_afterFour` go through the arguments from the call backward, and a
constructor only says which readers come in which order and how the value is
composed. Constants, arrays and their groups end in other instructions than calls
and have lemmas of their own.

A reader calls itself under a smaller bound. That the bound lasts is told by the
length of the code: a nested reader runs after an instruction of the enclosing
expression was taken.
-/

namespace InlineCil

/-- A failure without its place. -/
def Failure.unplaced : Failure → Failure
  | .weaving cause _ => .weaving cause none
  | failure => failure

@[simp] theorem Failure.unplaced_locatedAt (place : Place) (failure : Failure) :
    (failure.locatedAt place).unplaced = failure.unplaced := by
  unfold Failure.locatedAt
  split <;> rfl

@[simp] theorem Failure.unplaced_causedAt (cause : Cause) (place : Place) :
    (Failure.causedAt cause place).unplaced = .ofCause cause := rfl

@[simp] theorem Failure.unplaced_ofCause (cause : Cause) :
    (Failure.ofCause cause).unplaced = .ofCause cause := rfl

namespace Instruction

variable (i : Instruction) (old new : Place)

@[simp] theorem opcode_retarget : (i.retarget old new).opcode = i.opcode := rfl

@[simp] theorem method?_retarget : (i.retarget old new).method? = i.method? := by
  obtain ⟨opcode, operand⟩ := i
  cases operand <;> rfl

@[simp] theorem marker?_retarget (space : String) :
    (i.retarget old new).marker? space = i.marker? space := by
  simp [Instruction.marker?, calledMethod?]

/-- Without an integer operand the opcode alone names a constant. Integer
operands are not moved, so a moved instruction loads the same constant. -/
theorem constant32?_of_operand (short : ∀ value, i.operand ≠ .int8 value)
    (full : ∀ value, i.operand ≠ .int32 value) :
    i.constant32? = i.opcode.implicitConstant := by
  unfold constant32?
  split
  · next held => exact absurd held (short _)
  · next held => exact absurd held (full _)
  · rfl

@[simp] theorem constant32?_retarget : (i.retarget old new).constant32? = i.constant32? := by
  obtain ⟨opcode, operand⟩ := i
  cases operand with
  | target place =>
    rw [constant32?_of_operand _ (by rintro _ ⟨⟩) (by rintro _ ⟨⟩),
      constant32?_of_operand _ (by rintro _ ⟨⟩) (by rintro _ ⟨⟩), opcode_retarget]
  | switch places =>
    rw [constant32?_of_operand _ (by rintro _ ⟨⟩) (by rintro _ ⟨⟩),
      constant32?_of_operand _ (by rintro _ ⟨⟩) (by rintro _ ⟨⟩), opcode_retarget]
  | _ => rfl

/-- Without a wide operand only a 32-bit constant can be loaded. The three wide
operands are those that the reader of literals looks at itself. -/
theorem literal?_of_operand (whole : ∀ value, i.operand ≠ .int64 value)
    (single : ∀ value, i.operand ≠ .float32 value)
    (double : ∀ value, i.operand ≠ .float64 value) :
    Reader.literal? i = i.constant32?.map .int32 := by
  unfold Reader.literal?
  split
  · next held => exact absurd held (whole _)
  · next held => exact absurd held (single _)
  · next held => exact absurd held (double _)
  · rfl

/-- What an instruction loads does not change when branches are moved. Only
operands that are targets change, and no literal has one of those. -/
@[simp] theorem literal?_retarget : Reader.literal? (i.retarget old new) = Reader.literal? i := by
  have constant := i.constant32?_retarget old new
  obtain ⟨opcode, operand⟩ := i
  cases operand with
  | target place =>
    rw [literal?_of_operand _ (by rintro _ ⟨⟩) (by rintro _ ⟨⟩) (by rintro _ ⟨⟩),
      literal?_of_operand _ (by rintro _ ⟨⟩) (by rintro _ ⟨⟩) (by rintro _ ⟨⟩), constant]
  | switch places =>
    rw [literal?_of_operand _ (by rintro _ ⟨⟩) (by rintro _ ⟨⟩) (by rintro _ ⟨⟩),
      literal?_of_operand _ (by rintro _ ⟨⟩) (by rintro _ ⟨⟩) (by rintro _ ⟨⟩), constant]
  | _ => rfl

/-- An instruction that calls a marker has a method for its operand, and no
target to move. So a reader that sends branches elsewhere sees the call as it
stands in the body. -/
theorem retarget_of_method? {m : MethodRef} (called : i.method? = some m) :
    i.retarget old new = i := by
  obtain ⟨opcode, operand⟩ := i
  cases operand <;> first | rfl | simp [method?] at called

theorem Calls.method?_ne_none {space : String} {i : Instruction} {b : Builder}
    (calls : i.Calls space b) : i.method? ≠ none := by
  intro absent
  simp [Calls, Instruction.marker?, calledMethod?, absent] at calls

/-- Only instructions that call something are classified, so the call of a
builder has the opcode of a call. -/
theorem Calls.isCall {space : String} {i : Instruction} {b : Builder}
    (calls : i.Calls space b) : i.opcode.isCall = true := by
  cases called : i.opcode.isCall with
  | true => rfl
  | false => simp [Calls, Instruction.marker?, calledMethod?, called] at calls

/-- A call of a builder does not load null, so it is never reported as a null
that was found. -/
theorem Calls.not_ldnull {space : String} {i : Instruction} {b : Builder}
    (calls : i.Calls space b) : i.opcode ≠ .ldnull := by
  intro null
  simpa [null, Opcode.isCall] using calls.isCall

/-- A call of a builder neither creates an array nor stores into one, so the
cases of an array reader exclude each other. -/
theorem Calls.not_array {space : String} {i : Instruction} {b : Builder}
    (calls : i.Calls space b) : i.opcode ≠ .newarr ∧ i.opcode.isElementStore = false := by
  have called := calls.isCall
  unfold Opcode.isCall at called
  split at called <;> simp_all [Opcode.isElementStore]

theorem Calls.retarget {space : String} {i : Instruction} {b : Builder}
    (calls : i.Calls space b) (old new : Place) : i.retarget old new = i := by
  obtain ⟨m, called⟩ := Option.ne_none_iff_exists'.1 calls.method?_ne_none
  exact i.retarget_of_method? old new called

end Instruction

namespace Reader

variable {site : Site} {α β : Type} {code first second : List Instruction}

/-- A builder is told by the classification of the instruction alone, not by
where it stands. -/
theorem builder_eq_ok {line : Line} {expected : Expected} {b : Builder} :
    builder site line expected = .ok b ↔ line.instruction.Calls site.space b := by
  unfold builder Instruction.Calls
  split <;> simp_all

/-- A lookup changes nothing but the symbols: what is ahead and what was taken
stay, whether it succeeds or fails. -/
theorem run_resolving (step : Resolving α) (state : Reading) :
    (resolving step).run state =
      match step.run state.symbols with
      | .ok value symbols => .ok value { state with symbols := symbols }
      | .error failure symbols => .error failure { state with symbols := symbols } := by
  unfold resolving
  rw [Steps.run_bind, Steps.run_get]
  dsimp only
  cases step.run state.symbols <;> rfl

/-- The nearest instruction is taken if it is in the block of the call. Branches
to itself are sent to the call in what the reader sees. -/
theorem run_take (line : Line) (rest : List Line) (taken : List Place) (symbols : Symbols)
    (together : site.blocks.sameBlock line.place site.call.place = true) :
    (take site).run ⟨line :: rest, taken, symbols⟩ =
      .ok ⟨line.place, line.instruction.retarget line.place site.call.place⟩
        ⟨rest, taken ++ [line.place], symbols⟩ := by
  unfold take
  rw [Steps.run_bind, Steps.run_get]
  simp only [together, if_true]
  rfl

/-- Code follows a reader before the call: on lines that hold the code, all in
the block of the call, the reader gives the meaning of the code and leaves what
was before it, or fails as the meaning fails. -/
def Follows (site : Site) (reader : Reader α) (code : List Instruction)
    (meaning : Resolving α) : Prop :=
  ∀ (lines rest : List Line) (taken : List Place) (symbols : Symbols),
    lines.map Line.instruction = code →
    (∀ line ∈ lines, site.blocks.sameBlock line.place site.call.place = true) →
    match meaning.run symbols with
    | .ok value found =>
        reader.run ⟨lines.reverse ++ rest, taken, symbols⟩ =
          .ok value ⟨rest, taken ++ (lines.map Line.place).reverse, found⟩
    | .error failure found =>
        ∃ told left, reader.run ⟨lines.reverse ++ rest, taken, symbols⟩ = .error told left ∧
          told.unplaced = failure.unplaced ∧ left.symbols = found

namespace Follows

theorem given (value : α) : Follows site (pure value) [] (pure value) := by
  intro lines rest taken symbols held _
  obtain rfl : lines = [] := List.map_eq_nil_iff.1 held
  simp

/-- Steps that need no code are made on the spot, with the symbols as they are
then. A failure keeps what the lookup has left of them. -/
theorem looked (step : Resolving α) : Follows site (resolving step) [] step := by
  intro lines rest taken symbols held _
  obtain rfl : lines = [] := List.map_eq_nil_iff.1 held
  have outcome := run_resolving step ⟨rest, taken, symbols⟩
  cases found : step.run symbols with
  | ok value after => simpa [found] using outcome
  | error failure after =>
    exact ⟨failure, ⟨rest, taken, after⟩, by simpa [found] using outcome, rfl, rfl⟩

/-- An outcome that is there already needs no code. Failures of this kind have no
place yet, as whoever composes does not know one. -/
theorem settled (outcome : Except Failure α) :
    Follows site (liftExcept outcome) [] (liftExcept outcome) := by
  intro lines rest taken symbols held _
  obtain rfl : lines = [] := List.map_eq_nil_iff.1 held
  cases outcome with
  | ok value => simp
  | error failure => exact ⟨failure, _, rfl, rfl, rfl⟩

/-- A refusal may add its place, which the meaning knows nothing of. -/
theorem refused {told failure : Failure} (same : told.unplaced = failure.unplaced) :
    Follows site (throw told : Reader α) [] (liftExcept (.error failure)) := by
  intro lines rest taken symbols held _
  exact ⟨told, _, rfl, same, rfl⟩

/-- Readers that run one after the other take their code from the call backward.
A failure of the first one leaves the code of the second one untouched, as the
meaning leaves its steps. -/
theorem bind {reader : Reader α} {next : α → Reader β} {meaning : Resolving α}
    {continued : α → Resolving β} (nearest : Follows site reader second meaning)
    (farther : ∀ value, Follows site (next value) first (continued value)) :
    Follows site (reader >>= next) (first ++ second) (meaning >>= continued) := by
  intro lines rest taken symbols held together
  obtain ⟨before, after, rfl, heldBefore, heldAfter⟩ := List.map_eq_append_iff.1 held
  have read := nearest after (before.reverse ++ rest) taken symbols heldAfter
    fun line member => together line (List.mem_append_right _ member)
  simp only [Steps.run_bind, List.reverse_append, List.append_assoc]
  cases outcome : meaning.run symbols with
  | error failure found =>
    simp only [outcome] at read ⊢
    obtain ⟨told, left, failed, same, kept⟩ := read
    exact ⟨told, left, by rw [failed], same, kept⟩
  | ok value found =>
    simp only [outcome] at read ⊢
    rw [read]
    have further := farther value before rest (taken ++ (after.map Line.place).reverse) found
      heldBefore fun line member => together line (List.mem_append_left _ member)
    simpa only [List.map_append, List.reverse_append, List.append_assoc] using further

/-- After the last of the readers nothing more is taken, and what is left to do
needs no code. -/
theorem last {reader : Reader α} {next : α → Reader β} {meaning : Resolving α}
    {continued : α → Resolving β} (nearest : Follows site reader code meaning)
    (farther : ∀ value, Follows site (next value) [] (continued value)) :
    Follows site (reader >>= next) code (meaning >>= continued) := by
  rw [← List.nil_append code]
  exact bind nearest farther

theorem observing {next : Reading → Reader α} {meaning : Resolving α}
    (follows : ∀ state, Follows site (next state) code meaning) :
    Follows site (get >>= next) code meaning := by
  intro lines rest taken symbols held together
  exact follows ⟨lines.reverse ++ rest, taken, symbols⟩ lines rest taken symbols held together

theorem mapped {reader : Reader α} {meaning : Resolving α}
    (follows : Follows site reader code meaning) (change : α → β) :
    Follows site (change <$> reader) code (change <$> meaning) := by
  rw [map_eq_pure_bind, map_eq_pure_bind]
  exact Follows.last follows fun value => given _

/-- The nearest instruction is taken, and the rest of the code is left to what
comes next. The instruction is seen with its branches moved, which nothing in the
grammar can tell. -/
theorem taking {next : Line → Reader α} {meaning : Resolving α} (i : Instruction)
    (follows : ∀ place : Place,
      Follows site (next ⟨place, i.retarget place site.call.place⟩) code meaning) :
    Follows site (Reader.take site >>= next) (code ++ [i]) meaning := by
  intro lines rest taken symbols held together
  obtain ⟨before, after, rfl, heldBefore, heldAfter⟩ := List.map_eq_append_iff.1 held
  obtain ⟨line, rfl, rfl⟩ := List.map_eq_singleton_iff.1 heldAfter
  have inBlock : site.blocks.sameBlock line.place site.call.place = true :=
    together line (by simp)
  have took := run_take line (before.reverse ++ rest) taken symbols inBlock
  have further := follows line.place before rest (taken ++ [line.place]) symbols heldBefore
    fun line member => together line (List.mem_append_left _ member)
  simpa [Steps.run_bind, took] using further

/-- The nearest instruction is all the code, as it is for texts, tokens and
literals. -/
theorem only {next : Line → Reader α} {meaning : Resolving α} (i : Instruction)
    (follows : ∀ place : Place,
      Follows site (next ⟨place, i.retarget place site.call.place⟩) [] meaning) :
    Follows site (Reader.take site >>= next) [i] meaning := by
  rw [← List.nil_append [i]]
  exact taking i follows

/-- Failures may be given a place, since failures are compared without one. A
reader that gives its failures a place thus follows whatever the reader without
it follows. -/
theorem located {reader : Reader α} {meaning : Resolving α} (place : Place)
    (follows : Follows site reader code meaning) :
    Follows site (located place reader) code meaning := by
  intro lines rest taken symbols held together
  have read := follows lines rest taken symbols held together
  simp only [Reader.located, Steps.run_tryCatch]
  cases outcome : meaning.run symbols with
  | ok value found =>
    simp only [outcome] at read ⊢
    rw [read]
  | error failure found =>
    simp only [outcome] at read ⊢
    obtain ⟨told, left, failed, same, kept⟩ := read
    exact ⟨told.locatedAt place, left, by rw [failed]; rfl, by simp [same], kept⟩

/-- A call of a builder is taken and dispatched on. The case for its builder is
the one that is left of the reader. -/
theorem call {next : Line → Builder → Reader α} {meaning : Resolving α} {i : Instruction}
    {b : Builder} {expected : Expected} (calls : i.Calls site.space b)
    (follows : ∀ place, Follows site (next ⟨place, i⟩ b) code meaning) :
    Follows site
      (Reader.take site >>= fun line => Reader.located line.place
        (liftExcept (builder site line expected) >>= next line))
      (code ++ [i]) meaning := by
  refine taking i fun place => located place ?_
  rw [calls.retarget, builder_eq_ok.2 calls]
  exact follows place

/-- A call of a builder may be all the code, if the builder has no arguments. -/
theorem onlyCall {next : Line → Builder → Reader α} {meaning : Resolving α} {i : Instruction}
    {b : Builder} {expected : Expected} (calls : i.Calls site.space b)
    (follows : ∀ place, Follows site (next ⟨place, i⟩ b) [] meaning) :
    Follows site
      (Reader.take site >>= fun line => Reader.located line.place
        (liftExcept (builder site line expected) >>= next line))
      [i] meaning := by
  rw [← List.nil_append [i]]
  exact call calls follows

/-- Steps before the last one may be regrouped with a view of their value, where
a reader keeps more than the meaning does. -/
theorem bindView {γ : Type} {reader : Reader γ} {view : γ → α} {next : γ → Reader β}
    {meaning : Resolving α} {continued : α → Resolving β}
    (nearest : Follows site (view <$> reader) second meaning)
    (farther : ∀ value, Follows site (next value) first (continued (view value))) :
    Follows site (reader >>= next) (first ++ second) (meaning >>= continued) := by
  intro lines rest taken symbols held together
  obtain ⟨before, after, rfl, heldBefore, heldAfter⟩ := List.map_eq_append_iff.1 held
  have read := nearest after (before.reverse ++ rest) taken symbols heldAfter
    fun line member => together line (List.mem_append_right _ member)
  simp only [Steps.run_bind, Steps.run_map, List.reverse_append, List.append_assoc] at read ⊢
  cases outcome : meaning.run symbols with
  | error failure found =>
    simp only [outcome] at read ⊢
    obtain ⟨told, left, failed, same, kept⟩ := read
    split at failed
    · simp at failed
    · next other stopped run =>
      obtain ⟨rfl, rfl⟩ : other = told ∧ stopped = left := by simpa using failed
      exact ⟨other, stopped, rfl, same, kept⟩
  | ok value found =>
    simp only [outcome] at read ⊢
    split at read
    · next other stopped run =>
      obtain ⟨rfl, rfl⟩ := by simpa using read
      have further := farther other before rest (taken ++ (after.map Line.place).reverse) found
        heldBefore fun line member => together line (List.mem_append_left _ member)
      simpa only [List.map_append, List.reverse_append, List.append_assoc] using further
    · simp at read

end Follows

/-- No opcode that loads a 32-bit constant converts. A reader looks for
conversions first, so none of these constants is taken for one. -/
theorem conversion?_of_constant32 {i : Instruction} {value : Int32}
    (loads : i.constant32? = some value) : i.opcode.conversion? = none := by
  unfold Instruction.constant32? at loads
  split at loads
  · next opcode _ => rw [opcode]; rfl
  · next opcode _ => rw [opcode]; rfl
  · unfold Opcode.implicitConstant at loads
    split at loads <;> first | (next opcode => rw [opcode]; rfl) | cases loads

/-- What loads a constant converts none, so the reader of constants stops at it. -/
theorem conversion?_of_literal {i : Instruction} {value : Constant}
    (loads : literal? i = some value) : i.opcode.conversion? = none := by
  unfold literal? at loads
  split at loads
  · next opcode _ => rw [opcode]; rfl
  · next opcode _ => rw [opcode]; rfl
  · next opcode _ => rw [opcode]; rfl
  · obtain ⟨constant, loaded, -⟩ := Option.map_eq_some_iff.1 loads
    exact conversion?_of_constant32 loaded

/-- A literal is read in one step, for any bound that allows a step. -/
theorem follows_literal {load : Instruction} {value : Constant} (bound : Nat)
    (loads : literal? load = some value) :
    Follows site (constant site (bound + 1)) [load] (pure value) := by
  unfold constant constantStep
  refine Follows.only load fun place => ?_
  simp only [Instruction.opcode_retarget, Instruction.literal?_retarget, loads,
    conversion?_of_literal loads]
  exact Follows.given value

/-- A conversion is taken and then what it is applied to. Whether the value
overflows is told in the end. -/
theorem follows_converted {convert : Instruction} {conversion : Conversion} {bound : Nat}
    {meaning : Resolving Constant} (converts : convert.opcode.conversion? = some conversion)
    (inner : Follows site (constant site bound) code meaning) :
    Follows site (constant site (bound + 1)) (code ++ [convert])
      (meaning >>= fun value =>
        liftExcept (Expression.convert convert.opcode conversion value)) := by
  unfold constant constantStep
  refine Follows.taking convert fun place => ?_
  simp only [Instruction.opcode_retarget, converts]
  refine Follows.last inner fun value => ?_
  unfold Expression.convert
  cases conversion.apply value with
  | some result => exact Follows.settled (.ok result)
  | none => exact Follows.refused rfl

/-- A whole number is read as a constant and looked at in the end. The place that
is noted before reading only matters for the message of a refusal. -/
theorem follows_whole {bound : Nat} {meaning : Resolving Constant}
    (inner : Follows site (constant site bound) code meaning) :
    Follows site (integer site bound) code
      (meaning >>= fun value => liftExcept (Expression.wholeOf value)) := by
  unfold integer integerStep
  refine Follows.observing fun state => ?_
  refine Follows.last inner fun value => ?_
  cases value with
  | int32 value => exact Follows.settled (.ok _)
  | int64 value => exact Follows.settled (.ok _)
  | float value => exact Follows.refused rfl

theorem follows_text (value : String) :
    Follows site (string site) [⟨.ldstr, .string value⟩] (pure value) := by
  unfold string
  exact Follows.only ⟨.ldstr, .string value⟩ fun place => Follows.given value

section Arrays

variable {element : Reader α} {bound rounds : Nat} {value : Resolving α} {index : Resolving Int}
variable {length : Resolving Int} {elements : Resolving (List (Int × α))}
variable {valueCode indexCode lengthCode elementsCode : List Instruction}

/-- The array store is no creation of an array, so the two ways to go on are told
apart by the instruction. -/
theorem newarr_not_store {opcode : Opcode} (stores : opcode.isElementStore = true) :
    opcode ≠ .newarr := by
  rintro rfl
  simp [Opcode.isElementStore] at stores

/-- The first group of an array begins at its creation, where the loop ends. Of a
group the value is nearest, then the index. -/
theorem follows_firstElement {create duplicate : Instruction} (creates : create.opcode = .newarr)
    (duplicates : duplicate.opcode = .dup) (values : Follows site element valueCode value)
    (indices : Follows site (integer site bound) indexCode index) :
    Follows site (Prod.snd <$> Reader.elements site element bound (rounds + 1))
      ([create] ++ [duplicate] ++ indexCode ++ valueCode)
      (value >>= fun v => index >>= fun i => pure [(i, v)]) := by
  unfold Reader.elements elementsStep
  simp only [map_bind]
  refine Follows.bind values fun v => Follows.bind indices fun i => ?_
  refine Follows.taking duplicate fun place => ?_
  simp only [Instruction.opcode_retarget, duplicates, ne_eq, not_true_eq_false, if_false, map_bind]
  refine Follows.only create fun place => ?_
  simp only [Instruction.opcode_retarget, creates, if_true, map_pure]
  exact Follows.given _

/-- Any other group comes after the store of the one before it, so the loop goes
on with the groups up to there. One round is used up for it. -/
theorem follows_nextElement {store duplicate : Instruction}
    (stores : store.opcode.isElementStore = true) (duplicates : duplicate.opcode = .dup)
    (earlier : Follows site (Prod.snd <$> Reader.elements site element bound rounds) elementsCode
      elements)
    (values : Follows site element valueCode value)
    (indices : Follows site (integer site bound) indexCode index) :
    Follows site (Prod.snd <$> Reader.elements site element bound (rounds + 1))
      (elementsCode ++ [store] ++ [duplicate] ++ indexCode ++ valueCode)
      (value >>= fun v => index >>= fun i => elements >>= fun rest => pure ((i, v) :: rest)) := by
  unfold Reader.elements elementsStep
  simp only [map_bind]
  refine Follows.bind values fun v => Follows.bind indices fun i => ?_
  refine Follows.taking duplicate fun place => ?_
  simp only [Instruction.opcode_retarget, duplicates, ne_eq, not_true_eq_false, if_false, map_bind]
  refine Follows.taking store fun place => ?_
  simp only [Instruction.opcode_retarget, stores, newarr_not_store stores, if_true, if_false,
    map_bind, map_pure]
  rw [← List.nil_append elementsCode]
  exact Follows.bindView earlier fun rest => Follows.given _

/-- An array that is only created has to be empty, which is told when its length
has been read. -/
theorem follows_createdArray {create : Instruction} (creates : create.opcode = .newarr)
    (lengths : Follows site (integer site bound) lengthCode length) :
    Follows site (array site element bound) (lengthCode ++ [create])
      (length >>= fun count => liftExcept (Expression.uninitialized count)) := by
  unfold array arrayStep
  refine Follows.taking create fun place => ?_
  simp only [Instruction.opcode_retarget, creates, if_true]
  refine Follows.last lengths fun count => ?_
  by_cases zero : count = 0
  · subst zero
    exact Follows.settled (.ok [])
  · simp only [Expression.uninitialized]
    exact Follows.refused rfl

/-- An array that is filled ends in the store of its last group. Its groups are
read, then its length, and then they are arranged. -/
theorem follows_filledArray {store : Instruction} (stores : store.opcode.isElementStore = true)
    (lengths : Follows site (integer site bound) lengthCode length)
    (groups : Follows site (Prod.snd <$> Reader.elements site element bound bound) elementsCode
      elements) :
    Follows site (array site element bound) (lengthCode ++ elementsCode ++ [store])
      (elements >>= fun found => length >>= fun count =>
        liftExcept (Expression.arrange count found)) := by
  unfold array arrayStep
  refine Follows.taking store fun place => ?_
  simp only [Instruction.opcode_retarget, stores, newarr_not_store stores, if_true, if_false]
  refine Follows.bindView groups fun found => ?_
  obtain ⟨creation, found⟩ := found
  refine Follows.last lengths fun count => ?_
  unfold Expression.arrange
  cases arranged count found with
  | ok values => exact Follows.settled (.ok values)
  | error cause => exact Follows.refused rfl

/-- The call for an empty array is read in one step. It creates nothing and
stores nothing, so neither of the other forms applies. -/
theorem follows_emptyArray {call : Instruction} (calls : call.Calls site.space .emptyArray) :
    Follows site (array site element bound) [call] (pure []) := by
  unfold array arrayStep
  refine Follows.only call fun place => ?_
  obtain ⟨noCreation, noStore⟩ := calls.not_array
  simp only [calls.retarget, noCreation, noStore, if_false, Bool.false_eq_true]
  rw [builder_eq_ok.2 calls]
  exact Follows.given []

end Arrays

/-- A bound that covers code with a call behind it covers the code after the call
is taken. -/
theorem bound_of_call {call : Instruction} {bound : Nat}
    (enough : (code ++ [call]).length ≤ bound) :
    ∃ rest, bound = rest + 1 ∧ code.length ≤ rest := by
  simp only [List.length_append, List.length_singleton] at enough
  exact ⟨bound - 1, by omega, by omega⟩

theorem bound_of_append {bound : Nat} (enough : (first ++ second).length ≤ bound) :
    first.length ≤ bound ∧ second.length ≤ bound := by
  simp only [List.length_append] at enough
  omega

/-- The reader of its kind follows the code of an expression under every bound
that covers it. The induction over expressions shows this of each part of an
expression before the whole. -/
def ReadBack {k : ArgumentKind} (e : Expression site.space k) : Prop :=
  ∀ bound rounds, e.code.length ≤ bound → e.code.length ≤ rounds →
    Follows site (expression site k bound rounds) e.code e.denote

section Shapes

variable {k₁ k₂ k₃ k₄ : ArgumentKind} {e₁ : Expression site.space k₁}
  {e₂ : Expression site.space k₂} {e₃ : Expression site.space k₃} {e₄ : Expression site.space k₄}
  {call : Instruction} {b : Builder} {expected : Expected} {bound : Nat}
  {next : Line → Builder → Reader α} (calls : call.Calls site.space b)

/-- Parts are read under the bound that is left for all of them. -/
theorem ReadBack.within (read : ReadBack e₁) (room : e₁.code.length ≤ bound) :
    Follows site (expression site k₁ bound bound) e₁.code e₁.denote :=
  read bound bound room room

include calls

/-- A call of a builder with one argument. Once the call is taken, the reader
goes on with the argument, and what it makes of the value needs no code. -/
theorem follows_afterOne {ending : k₁.Value → Reader α} {continued : k₁.Value → Resolving α}
    (room : e₁.code.length ≤ bound) (one : ReadBack e₁)
    (opens : ∀ place, next ⟨place, call⟩ b = expression site k₁ bound bound >>= ending)
    (ends : ∀ v, Follows site (ending v) [] (continued v)) :
    Follows site
      (take site >>= fun line => located line.place
        (liftExcept (builder site line expected) >>= next line))
      (e₁.code ++ [call]) (e₁.denote >>= continued) := by
  refine Follows.call calls fun place => ?_
  rw [opens]
  exact (one.within room).last ends

/-- A call of a builder with two arguments. The one next to the call is read
first, and the meaning composes them in this order as well. -/
theorem follows_afterTwo {ending : k₂.Value → k₁.Value → Reader α}
    {continued : k₂.Value → k₁.Value → Resolving α}
    (room : (e₁.code ++ e₂.code).length ≤ bound) (one : ReadBack e₁) (two : ReadBack e₂)
    (opens : ∀ place, next ⟨place, call⟩ b =
      expression site k₂ bound bound >>= fun w => expression site k₁ bound bound >>= ending w)
    (ends : ∀ w v, Follows site (ending w v) [] (continued w v)) :
    Follows site
      (take site >>= fun line => located line.place
        (liftExcept (builder site line expected) >>= next line))
      (e₁.code ++ e₂.code ++ [call])
      (e₂.denote >>= fun w => e₁.denote >>= continued w) := by
  obtain ⟨farRoom, nearRoom⟩ := bound_of_append room
  refine Follows.call calls fun place => ?_
  rw [opens]
  exact (two.within nearRoom).bind fun w => (one.within farRoom).last (ends w)

/-- A call of a builder with three arguments, of which the first one is read
last. Proof: each argument is within the bound, and the readers follow their
codes in turn. -/
theorem follows_afterThree {ending : k₃.Value → k₂.Value → k₁.Value → Reader α}
    {continued : k₃.Value → k₂.Value → k₁.Value → Resolving α}
    (room : (e₁.code ++ e₂.code ++ e₃.code).length ≤ bound) (one : ReadBack e₁)
    (two : ReadBack e₂) (three : ReadBack e₃)
    (opens : ∀ place, next ⟨place, call⟩ b =
      expression site k₃ bound bound >>= fun x => expression site k₂ bound bound >>= fun w =>
        expression site k₁ bound bound >>= ending x w)
    (ends : ∀ x w v, Follows site (ending x w v) [] (continued x w v)) :
    Follows site
      (take site >>= fun line => located line.place
        (liftExcept (builder site line expected) >>= next line))
      (e₁.code ++ e₂.code ++ e₃.code ++ [call])
      (e₃.denote >>= fun x => e₂.denote >>= fun w => e₁.denote >>= continued x w) := by
  obtain ⟨others, nearRoom⟩ := bound_of_append room
  obtain ⟨farRoom, middleRoom⟩ := bound_of_append others
  refine Follows.call calls fun place => ?_
  rw [opens]
  exact (three.within nearRoom).bind fun x =>
    (two.within middleRoom).bind fun w => (one.within farRoom).last (ends x w)

/-- A call of a builder with four arguments. No builder takes more. The argument
nearest to the call is read first, as with fewer of them. -/
theorem follows_afterFour {ending : k₄.Value → k₃.Value → k₂.Value → k₁.Value → Reader α}
    {continued : k₄.Value → k₃.Value → k₂.Value → k₁.Value → Resolving α}
    (room : (e₁.code ++ e₂.code ++ e₃.code ++ e₄.code).length ≤ bound) (one : ReadBack e₁)
    (two : ReadBack e₂) (three : ReadBack e₃) (four : ReadBack e₄)
    (opens : ∀ place, next ⟨place, call⟩ b =
      expression site k₄ bound bound >>= fun y => expression site k₃ bound bound >>= fun x =>
        expression site k₂ bound bound >>= fun w => expression site k₁ bound bound >>=
          ending y x w)
    (ends : ∀ y x w v, Follows site (ending y x w v) [] (continued y x w v)) :
    Follows site
      (take site >>= fun line => located line.place
        (liftExcept (builder site line expected) >>= next line))
      (e₁.code ++ e₂.code ++ e₃.code ++ e₄.code ++ [call])
      (e₄.denote >>= fun y => e₃.denote >>= fun x => e₂.denote >>= fun w =>
        e₁.denote >>= continued y x w) := by
  obtain ⟨others, nearRoom⟩ := bound_of_append room
  obtain ⟨others, thirdRoom⟩ := bound_of_append others
  obtain ⟨farRoom, secondRoom⟩ := bound_of_append others
  refine Follows.call calls fun place => ?_
  rw [opens]
  exact (four.within nearRoom).bind fun y => (three.within thirdRoom).bind fun x =>
    (two.within secondRoom).bind fun w => (one.within farRoom).last (ends y x w)

end Shapes

/-- What a call of a generic method stands for is in the call itself, or it is
refused. No argument is read. -/
theorem follows_typeArgument {call : Instruction} (calls : call.Calls site.space .typeOfParameter)
    (bound : Nat) : Follows site (type site (bound + 1)) [call]
      (liftExcept (Expression.typeArgument call)) := by
  refine Follows.onlyCall calls fun place => ?_
  unfold Expression.typeArgument
  cases call.method?.bind (·.genericArguments.head?) with
  | some sig => exact Follows.settled (.ok sig)
  | none => exact Follows.refused (by simp [mismatch, calls.not_ldnull])

open Follows in
/-- The reader of a kind follows the code of every expression of that kind,
whatever its nesting. The bound need only cover the code: each nested reader runs
after an instruction of the enclosing expression was taken. Induction on the
expression: constants, arrays and groups have a lemma each, all other expressions
end in a call and go by the number of its arguments. -/
theorem follows_expression {k : ArgumentKind} (e : Expression site.space k) : ReadBack e := by
  intro bound rounds enough enoughRounds
  induction e generalizing bound rounds with
  | literal load value loads =>
    obtain ⟨rest, rfl⟩ := Nat.exists_eq_add_of_le' (show 1 ≤ bound from enough)
    exact follows_literal rest loads
  | converted inner convert conversion converts follows =>
    obtain ⟨rest, rfl, room⟩ := bound_of_call enough
    exact follows_converted converts (follows rest rest room room)
  | whole inner follows => exact follows_whole (follows bound bound enough enough)
  | text value => exact follows_text value
  | emptyArray call calls => exact follows_emptyArray calls
  | createdArray length create creates follows =>
    obtain ⟨lengths, -⟩ := bound_of_append enough
    exact follows_createdArray creates (follows bound bound lengths lengths)
  | filledArray length elements store stores lengths groups =>
    obtain ⟨both, -⟩ := bound_of_append enough
    obtain ⟨fst, snd⟩ := bound_of_append both
    exact follows_filledArray stores (lengths bound bound fst fst) (groups bound bound snd snd)
  | firstElement create duplicate creates duplicates index value indices values =>
    obtain ⟨others, valueRoom⟩ := bound_of_append enough
    obtain ⟨-, indexRoom⟩ := bound_of_append others
    obtain ⟨opening, -⟩ := bound_of_append (bound_of_append enoughRounds).1
    obtain ⟨left, rfl, -⟩ := bound_of_call opening
    exact follows_firstElement creates duplicates (values bound bound valueRoom valueRoom)
      (indices bound bound indexRoom indexRoom)
  | nextElement earlier store duplicate stores duplicates index value before indices values =>
    obtain ⟨others, valueRoom⟩ := bound_of_append enough
    obtain ⟨groups, indexRoom⟩ := bound_of_append others
    obtain ⟨stored, -⟩ := bound_of_append groups
    obtain ⟨opening, -⟩ := bound_of_append (bound_of_append enoughRounds).1
    obtain ⟨left, rfl, leftRoom⟩ := bound_of_call opening
    obtain ⟨room, -⟩ := bound_of_append leftRoom
    obtain ⟨earlierRoom, -⟩ := bound_of_append stored
    exact follows_nextElement stores duplicates (before bound left earlierRoom room)
      (values bound bound valueRoom valueRoom) (indices bound bound indexRoom indexRoom)
  | absent => exact given none
  | present inner follows =>
    have present := follows bound bound enough enough
    exact present.mapped some
  | typeToken sig token loads =>
    obtain ⟨rest, rfl, -⟩ := bound_of_call enough
    exact Follows.call loads fun place =>
      only ⟨.ldtoken, .type sig⟩ fun place => given sig
  | wrapped wrapping element call calls elements =>
    obtain ⟨rest, rfl, room⟩ := bound_of_call enough
    rename_i reflected
    cases reflected <;> cases wrapping <;>
      exact follows_afterOne calls room elements (fun _ => rfl) fun _ => settled _
  | arrayOfRank element rank call calls elements ranks =>
    obtain ⟨rest, rfl, room⟩ := bound_of_call enough
    rename_i reflected
    cases reflected <;>
      exact follows_afterTwo calls room elements ranks (fun _ => rfl) fun _ _ => settled _
  | genericInstance definition arguments call calls definitions types =>
    obtain ⟨rest, rfl, room⟩ := bound_of_call enough
    rename_i reflected
    cases reflected <;>
      exact follows_afterTwo calls room definitions types (fun _ => rfl) fun _ _ => looked _
  | ofReflected inner call calls follows =>
    obtain ⟨rest, rfl, room⟩ := bound_of_call enough
    exact Follows.call calls fun place => follows rest rest room room
  | ofName assembly name call calls assemblies names =>
    obtain ⟨rest, rfl, room⟩ := bound_of_call enough
    exact follows_afterTwo calls room assemblies names (fun _ => rfl) fun _ _ => looked _
  | ofTypeArgument call calls =>
    obtain ⟨rest, rfl⟩ := Nat.exists_eq_add_of_le' (show 1 ≤ bound from enough)
    exact follows_typeArgument calls rest
  | modified required element modifier call calls elements modifiers =>
    obtain ⟨rest, rfl, room⟩ := bound_of_call enough
    exact follows_afterTwo calls room elements modifiers (fun _ => rfl) fun _ _ => given _
  | parameterOwner owner call calls =>
    refine only call fun place => ?_
    rw [calls.retarget, builder_eq_ok.2 calls]
    cases owner <;> exact given _
  | genericParameter owner index call calls owners indices =>
    obtain ⟨rest, rfl, room⟩ := bound_of_call enough
    exact follows_afterTwo calls room owners indices (fun _ => rfl) fun _ _ => settled _
  | method on name arity parameters call calls types names arities lists =>
    obtain ⟨rest, rfl, room⟩ := bound_of_call enough
    exact follows_afterFour calls room types names arities lists (fun _ => rfl)
      fun _ _ _ _ => looked _
  | accessor role on name call calls types names =>
    obtain ⟨rest, rfl, room⟩ := bound_of_call enough
    exact follows_afterTwo calls room types names (fun _ => rfl) fun _ _ => looked _
  | constructor on parameters call calls types lists =>
    obtain ⟨rest, rfl, room⟩ := bound_of_call enough
    exact follows_afterTwo calls room types lists (fun _ => rfl) fun _ _ => looked _
  | typeInitializer on call calls types =>
    obtain ⟨rest, rfl, room⟩ := bound_of_call enough
    exact follows_afterOne calls room types (fun _ => rfl) fun _ => looked _
  | unaryOperator on number call calls types numbers =>
    obtain ⟨rest, rfl, room⟩ := bound_of_call enough
    exact follows_afterTwo calls room types numbers (fun _ => rfl) fun _ _ => looked _
  | binaryOperator on number left right call calls types numbers lefts rights =>
    obtain ⟨rest, rfl, room⟩ := bound_of_call enough
    exact follows_afterFour calls room types numbers lefts rights (fun _ => rfl)
      fun _ _ _ _ => looked _
  | conversionOperator on kind direction other call calls types kinds directions others =>
    obtain ⟨rest, rfl, room⟩ := bound_of_call enough
    exact follows_afterFour calls room types kinds directions others (fun _ => rfl)
      fun _ _ _ _ => looked _
  | genericMethod definition arguments call calls definitions types =>
    obtain ⟨rest, rfl, room⟩ := bound_of_call enough
    exact follows_afterTwo calls room definitions types (fun _ => rfl) fun _ _ => settled _
  | optionalOfMethod declared parameters call calls declarations lists =>
    obtain ⟨rest, rfl, room⟩ := bound_of_call enough
    exact follows_afterTwo calls room declarations lists (fun _ => rfl) fun _ _ => settled _
  | field on name call calls types names =>
    obtain ⟨room, -⟩ := bound_of_append enough
    exact follows_afterTwo calls room types names (fun _ => rfl) fun _ _ => looked _
  | signature managed convention returnType parameters call calls conventions types lists =>
    obtain ⟨rest, rfl, room⟩ := bound_of_call enough
    cases managed <;>
      exact follows_afterThree calls room conventions types lists (fun _ => rfl)
        fun _ _ _ => settled _
  | optionalOfSignature declared parameters call calls declarations lists =>
    obtain ⟨rest, rfl, room⟩ := bound_of_call enough
    exact follows_afterTwo calls room declarations lists (fun _ => rfl) fun _ _ => settled _
  | localVariable name type call calls names types =>
    obtain ⟨rest, rfl, room⟩ := bound_of_call enough
    rename_i named reflected
    cases reflected <;>
      exact follows_afterTwo calls room names types (fun _ => rfl) fun _ _ => given _
  | pinned declared call calls follows =>
    obtain ⟨rest, rfl, room⟩ := bound_of_call enough
    refine Follows.call calls fun place =>
      Follows.last (follows rest rest room room) fun found => ?_
    unfold Expression.pin
    cases pinned : found.pinned with
    | true => exact refused rfl
    | false => exact settled (.ok _)

end Reader

end InlineCil
