import InlineCil.Proofs.Expression.Completeness

/-!
# What a successful reading has read

Whenever a reader succeeds, the lines it took are the nearest ones ahead, all in
the block of the call, and they hold the code of an expression that denotes the
value. So nothing is read that the grammar does not have. The expression is
rebuilt from the run: a nested reader gives the part, the instruction taken
before it gives the composition.

`Gathered` is what the proofs carry through a reader. It says which lines were
taken between two states and that the steps so far mean the value found so far.
It is closed under sequencing in the way in which arguments stand in code: what
is read later stands farther from the call, so its code goes to the front, while
its meaning comes after.

There is one lemma for each reader, of the form `recovers_…`, by induction on the
bound where the reader calls itself. The part of a proof that is particular to a
reader is the inversion of its first step, `call_eq_ok` for readers that dispatch
on a builder, and the choice of the constructor.
-/

namespace InlineCil

/-- Between two states of reading the nearest lines were taken, all in the block
of the call. Lines ahead are kept with the nearest first, and the lines here are
in program order. -/
structure Took (site : Site) (state : Reading) (lines : List Line) (left : Reading) : Prop where
  ahead : state.ahead = lines.reverse ++ left.ahead
  taken : left.taken = state.taken ++ (lines.map Line.place).reverse
  together : ∀ line ∈ lines, site.blocks.sameBlock line.place site.call.place = true

/-- Between two states of reading lines with the code were taken, and its meaning
is the value. -/
def Gathered {α : Type} (site : Site) (state : Reading) (code : List Instruction)
    (meaning : Resolving α) (value : α) (left : Reading) : Prop :=
  ∃ lines, Took site state lines left ∧ lines.map Line.instruction = code ∧
    meaning.run state.symbols = .ok value left.symbols

/-- Between two states of reading an expression was taken that denotes the value. -/
def Reads (site : Site) (k : ArgumentKind) (state : Reading) (value : k.Value)
    (left : Reading) : Prop :=
  ∃ e : Expression site.space k, Gathered site state e.code e.denote value left

/-- A reader reads nothing but expressions of a kind. -/
def Recovers (site : Site) (k : ArgumentKind) (reader : Reader k.Value) : Prop :=
  ∀ state value left, reader.run state = .ok value left → Reads site k state value left

variable {site : Site} {state middle left : Reading}

/-- A step that leaves what is ahead and what was taken has taken nothing. -/
theorem Took.nothing (ahead : left.ahead = state.ahead) (taken : left.taken = state.taken) :
    Took site state [] left := by
  constructor <;> simp [ahead, taken]

/-- What is taken first is nearer to the call, so it comes last in program order.
Readings one after the other thus put their codes together from the right. -/
theorem Took.append {near far : List Line} (first : Took site state near middle)
    (second : Took site middle far left) : Took site state (far ++ near) left where
  ahead := by rw [first.ahead, second.ahead, List.reverse_append, List.append_assoc]
  taken := by
    rw [second.taken, first.taken, List.map_append, List.reverse_append, List.append_assoc]
  together line member := by
    rcases List.mem_append.1 member with member | member
    · exact second.together line member
    · exact first.together line member

namespace Gathered

variable {α β : Type} {first second code : List Instruction} {meaning : Resolving α} {value : α}

/-- Code that was read later is farther from the call, and its meaning comes
after. This is the one place where the order of code and the order of reading are
set against each other. -/
theorem bind {continued : α → Resolving β} {result : β}
    (nearest : Gathered site state second meaning value middle)
    (farther : Gathered site middle first (continued value) result left) :
    Gathered site state (first ++ second) (meaning >>= continued) result left := by
  obtain ⟨near, tookNear, nearHeld, nearMeans⟩ := nearest
  obtain ⟨far, tookFar, farHeld, farMeans⟩ := farther
  refine ⟨far ++ near, tookNear.append tookFar, ?_, ?_⟩
  · rw [List.map_append, nearHeld, farHeld]
  · exact Steps.run_bind_ok.2 ⟨value, middle.symbols, nearMeans, farMeans⟩

theorem last {continued : α → Resolving β} {result : β}
    (nearest : Gathered site state code meaning value middle)
    (ending : Gathered site middle [] (continued value) result left) :
    Gathered site state code (meaning >>= continued) result left :=
  bind nearest ending

theorem given (value : α) : Gathered site state [] (pure value) value state :=
  ⟨[], .nothing rfl rfl, rfl, rfl⟩

/-- A value may be looked at in another way in the end, without taking more code. -/
theorem viewed (read : Gathered site state code meaning value left) (view : α → β) :
    Gathered site state code (meaning >>= fun found => pure (view found)) (view value) left :=
  read.last (given (view value))

theorem settled {outcome : Except Failure α} (succeeded : outcome = .ok value) :
    Gathered site state [] (liftExcept outcome) value state :=
  ⟨[], .nothing rfl rfl, rfl, Steps.run_liftExcept_eq_ok.2 ⟨succeeded, rfl⟩⟩

/-- A lookup that succeeded took nothing, and its meaning is the lookup. So it
adds no code to the expression that is recovered. -/
theorem looked {step : Resolving α}
    (reading : (Reader.resolving step).run state = .ok value left) :
    Gathered site state [] step value left := by
  rw [Reader.run_resolving] at reading
  split at reading
  · next found symbols run =>
    obtain ⟨rfl, rfl⟩ := by simpa using reading
    exact ⟨[], .nothing rfl rfl, rfl, run⟩
  · simp at reading

/-- A line that was taken before the rest ends the code. Calls are read in this
way: the call first, then its arguments. -/
theorem after {original : Line} (took : Took site state [original] middle)
    (same : middle.symbols = state.symbols)
    (rest : Gathered site middle code meaning value left) :
    Gathered site state (code ++ [original.instruction]) meaning value left := by
  obtain ⟨lines, tookRest, held, means⟩ := rest
  refine ⟨lines ++ [original], took.append tookRest, ?_, same ▸ means⟩
  rw [List.map_append, held]
  rfl

end Gathered

namespace Reader

variable {α : Type} {bound rounds : Nat}

/-- A successful step took the nearest line, in the block of the call. The
instruction seen has branches to itself sent to the call, because it is about to
be taken out. -/
theorem take_eq_ok {line : Line} (taking : (take site).run state = .ok line left) :
    ∃ original, Took site state [original] left ∧ left.symbols = state.symbols ∧
      line = ⟨original.place, original.instruction.retarget original.place site.call.place⟩ := by
  obtain ⟨ahead, taken, symbols⟩ := state
  cases ahead with
  | nil =>
    unfold take at taking
    simp at taking
  | cons original rest =>
    cases together : site.blocks.sameBlock original.place site.call.place with
    | false =>
      unfold take at taking
      simp [together] at taking
    | true =>
      rw [run_take original rest taken symbols together] at taking
      obtain ⟨rfl, rfl⟩ := by simpa using taking
      refine ⟨original, ⟨rfl, rfl, ?_⟩, rfl, rfl⟩
      simpa using together

/-- A builder that was told of an instruction seen is called by the instruction
itself: that branches were sent elsewhere does not change what is called. -/
theorem calls_of_builder {original : Line} {expected : Expected} {next : Builder → Reader α}
    {value : α} (reading : (liftExcept (builder site ⟨original.place,
      original.instruction.retarget original.place site.call.place⟩ expected) >>= next).run state =
        .ok value left) :
    ∃ b, original.instruction.Calls site.space b ∧ (next b).run state = .ok value left := by
  obtain ⟨b, _, told, reading⟩ := Steps.run_bind_ok.1 reading
  obtain ⟨found, rfl⟩ := Steps.run_liftExcept_eq_ok.1 told
  exact ⟨b, by simpa [Instruction.Calls] using builder_eq_ok.1 found, reading⟩

/-- A successful step that dispatches on a builder took a call of that builder,
and then went on as that builder asks for. -/
theorem call_eq_ok {next : Line → Builder → Reader α} {expected : Expected} {value : α}
    (reading : (take site >>= fun line => located line.place
      (liftExcept (builder site line expected) >>= next line)).run state = .ok value left) :
    ∃ original b after, Took site state [original] after ∧ after.symbols = state.symbols ∧
      original.instruction.Calls site.space b ∧ (next original b).run after = .ok value left := by
  obtain ⟨line, after, taking, reading⟩ := Steps.run_bind_ok.1 reading
  obtain ⟨original, took, same, rfl⟩ := take_eq_ok taking
  obtain ⟨b, calls, reading⟩ := calls_of_builder (Steps.run_rethrow_ok.1 reading)
  rw [calls.retarget] at reading
  exact ⟨original, b, after, took, same, calls, reading⟩

/-- Constants, by induction on the bound: a literal, or a conversion after a
constant. The line that was taken is the last of the expression, so its code
grows at the end. -/
theorem recovers_constant (bound : Nat) : Recovers site .constant (constant site bound) := by
  induction bound with
  | zero =>
    intro state value left reading
    simp [constant] at reading
  | succ bound recovers =>
    intro state value left reading
    unfold constant constantStep at reading
    obtain ⟨line, after, taking, reading⟩ := Steps.run_bind_ok.1 reading
    obtain ⟨original, took, same, rfl⟩ := take_eq_ok taking
    simp only [Instruction.opcode_retarget, Instruction.literal?_retarget] at reading
    cases converts : original.instruction.opcode.conversion? with
    | none =>
      simp only [converts] at reading
      cases loads : literal? original.instruction with
      | none => simp [loads] at reading
      | some constant =>
        obtain ⟨rfl, rfl⟩ := by simpa [loads] using reading
        exact ⟨.literal original.instruction constant loads,
          Gathered.after took same (Gathered.given constant)⟩
    | some conversion =>
      simp only [converts] at reading
      obtain ⟨inner, middle, innerReading, reading⟩ := Steps.run_bind_ok.1 reading
      obtain ⟨e, read⟩ := recovers after inner middle innerReading
      cases applied : conversion.apply inner with
      | none => simp [applied] at reading
      | some result =>
        obtain ⟨rfl, rfl⟩ := by simpa [applied] using reading
        have converted : Expression.convert original.instruction.opcode conversion inner =
            .ok result := by
          simp [Expression.convert, applied]
        exact ⟨.converted e original.instruction conversion converts,
          (read.last (.settled converted)).after took same⟩

/-- A whole number is read as a constant that is one. The lines are those of the
constant, and a floating-point constant would not have been read. -/
theorem recovers_integer (bound : Nat) : Recovers site .integer (integer site bound) := by
  intro state value left reading
  unfold integer integerStep at reading
  obtain ⟨_, _, looking, reading⟩ := Steps.run_bind_ok.1 reading
  obtain ⟨rfl, rfl⟩ := by simpa using looking
  obtain ⟨constant, middle, constantReading, reading⟩ := Steps.run_bind_ok.1 reading
  obtain ⟨e, read⟩ := recovers_constant bound state constant middle constantReading
  have whole : Expression.wholeOf constant = .ok value ∧ middle = left := by
    cases constant with
    | int32 number => simpa [Expression.wholeOf] using reading
    | int64 number => simpa [Expression.wholeOf] using reading
    | float number => simp at reading
  obtain ⟨whole, rfl⟩ := whole
  exact ⟨.whole e, read.last (.settled whole)⟩

/-- A text is read from the one instruction that loads it. Taking the line may
move a branch of it, but what loads a text has none. -/
theorem recovers_string : Recovers site .string (string site) := by
  intro state value left reading
  unfold string at reading
  obtain ⟨line, after, taking, reading⟩ := Steps.run_bind_ok.1 reading
  obtain ⟨⟨place, opcode, operand⟩, took, same, rfl⟩ := take_eq_ok taking
  split at reading
  · next text opcodeHeld operandHeld =>
    obtain ⟨rfl, rfl⟩ := by simpa using reading
    obtain rfl : opcode = .ldstr := opcodeHeld
    obtain rfl : operand = .string text := by
      cases operand <;> simp_all [Instruction.retarget, Operand.retarget]
    exact ⟨.text text, Gathered.after took same (Gathered.given text)⟩
  · simp at reading

section Arrays

variable {k : ArgumentKind} {element : Reader k.Value}

/-- The groups of an array, by induction on the rounds. Every group but the last
one read ends with the store of the group before it, so an expression of elements
is without its last store. -/
theorem recovers_elements (recovers : Recovers site k element) (bound rounds : Nat) :
    Recovers site (.elements k) (Prod.snd <$> Reader.elements site element bound rounds) := by
  induction rounds with
  | zero =>
    intro state value left reading
    obtain ⟨_, refused, -⟩ := Steps.run_map_ok.1 reading
    simp [Reader.elements] at refused
  | succ rounds recoversEarlier =>
    intro state value left reading
    obtain ⟨⟨creation, found⟩, grouped, rfl⟩ := Steps.run_map_ok.1 reading
    unfold Reader.elements elementsStep at grouped
    obtain ⟨v, afterValue, valueReading, reading⟩ := Steps.run_bind_ok.1 grouped
    obtain ⟨valueCode, valueRead⟩ := recovers state v afterValue valueReading
    obtain ⟨i, afterIndex, indexReading, reading⟩ := Steps.run_bind_ok.1 reading
    obtain ⟨indexCode, indexRead⟩ := recovers_integer bound afterValue i afterIndex indexReading
    obtain ⟨_, afterDuplicate, taking, reading⟩ := Steps.run_bind_ok.1 reading
    obtain ⟨duplicate, tookDuplicate, sameDuplicate, rfl⟩ := take_eq_ok taking
    by_cases duplicates : duplicate.instruction.opcode = .dup
    · simp only [Instruction.opcode_retarget, duplicates, ne_eq, not_true_eq_false,
        if_false] at reading
      obtain ⟨_, afterLine, taking, reading⟩ := Steps.run_bind_ok.1 reading
      obtain ⟨line, tookLine, sameLine, rfl⟩ := take_eq_ok taking
      by_cases creates : line.instruction.opcode = .newarr
      · simp only [Instruction.opcode_retarget, creates, if_true] at reading
        obtain ⟨⟨-, rfl⟩, rfl⟩ := by simpa using reading
        have start := (Gathered.given [(i, v)]).after tookLine sameLine
        exact ⟨.firstElement line.instruction duplicate.instruction creates duplicates
          indexCode valueCode,
          valueRead.bind (indexRead.bind (start.after tookDuplicate sameDuplicate))⟩
      · simp only [Instruction.opcode_retarget, creates, if_false] at reading
        cases stores : line.instruction.opcode.isElementStore with
        | false => simp [stores] at reading
        | true =>
          simp only [stores, if_true] at reading
          obtain ⟨⟨origin, rest⟩, afterEarlier, earlierReading, reading⟩ :=
            Steps.run_bind_ok.1 reading
          obtain ⟨⟨-, rfl⟩, rfl⟩ := by simpa using reading
          obtain ⟨earlier, earlierRead⟩ := recoversEarlier afterLine rest afterEarlier
            (Steps.run_map_ok.2 ⟨(origin, rest), earlierReading, rfl⟩)
          have whole := earlierRead.viewed fun others => (i, v) :: others
          have start := whole.after tookLine sameLine
          exact ⟨.nextElement earlier line.instruction duplicate.instruction stores duplicates
            indexCode valueCode,
            valueRead.bind (indexRead.bind (start.after tookDuplicate sameDuplicate))⟩
    · simp [duplicates] at reading

/-- An array is read as an empty one, as one that is only created, or as its
groups with the store of the last one. -/
theorem recovers_array (recovers : Recovers site k element) (bound : Nat) :
    Recovers site (.array k) (array site element bound) := by
  intro state value left reading
  unfold array arrayStep at reading
  obtain ⟨_, after, taking, reading⟩ := Steps.run_bind_ok.1 reading
  obtain ⟨original, took, same, rfl⟩ := take_eq_ok taking
  by_cases creates : original.instruction.opcode = .newarr
  · simp only [Instruction.opcode_retarget, creates, if_true] at reading
    obtain ⟨count, middle, lengthReading, reading⟩ := Steps.run_bind_ok.1 reading
    obtain ⟨length, lengthRead⟩ := recovers_integer bound after count middle lengthReading
    have empty : Expression.uninitialized count = .ok value ∧ middle = left := by
      unfold Expression.uninitialized
      split at reading
      · simpa using reading
      · simp at reading
    obtain ⟨empty, rfl⟩ := empty
    exact ⟨.createdArray length original.instruction creates,
      (lengthRead.last (.settled empty)).after took same⟩
  · simp only [Instruction.opcode_retarget, creates, if_false] at reading
    cases stores : original.instruction.opcode.isElementStore with
    | true =>
      simp only [stores, if_true] at reading
      obtain ⟨⟨creation, found⟩, afterGroups, groupReading, reading⟩ :=
        Steps.run_bind_ok.1 reading
      obtain ⟨groups, groupsRead⟩ := recovers_elements recovers bound bound after found
        afterGroups (Steps.run_map_ok.2 ⟨(creation, found), groupReading, rfl⟩)
      obtain ⟨count, middle, lengthReading, reading⟩ := Steps.run_bind_ok.1 reading
      obtain ⟨length, lengthRead⟩ :=
        recovers_integer bound afterGroups count middle lengthReading
      cases placed : arranged count found with
      | error cause => simp [placed] at reading
      | ok values =>
        obtain ⟨rfl, rfl⟩ := by simpa [placed] using reading
        have arranges : Expression.arrange count found = .ok values := by
          simp [Expression.arrange, placed]
        exact ⟨.filledArray length groups original.instruction stores,
          (groupsRead.bind (lengthRead.last (.settled arranges))).after took same⟩
    | false =>
      simp only [stores, Bool.false_eq_true, if_false] at reading
      obtain ⟨b, calls, reading⟩ := calls_of_builder reading
      split at reading
      · obtain ⟨rfl, rfl⟩ := by simpa using reading
        exact ⟨.emptyArray original.instruction calls, Gathered.after took same (.given [])⟩
      · simp at reading

end Arrays

/-- A token of a type is read from the one instruction that loads it. Tokens of
methods and fields are loaded by the same opcode, and are refused by their
operand. -/
theorem typeToken_eq_ok {sig : TypeSig} (reading : (typeToken site).run state = .ok sig left) :
    Gathered site state [⟨.ldtoken, .type sig⟩] (pure sig) sig left := by
  unfold typeToken at reading
  obtain ⟨_, after, taking, reading⟩ := Steps.run_bind_ok.1 reading
  obtain ⟨⟨place, opcode, operand⟩, took, same, rfl⟩ := take_eq_ok taking
  split at reading
  · next found opcodeHeld operandHeld =>
    obtain ⟨rfl, rfl⟩ := by simpa using reading
    obtain rfl : opcode = .ldtoken := opcodeHeld
    obtain rfl : operand = .type found := by
      cases operand <;> simp_all [Instruction.retarget, Operand.retarget]
    exact Gathered.after took same (.given found)
  · simp at reading

section Compositions

variable {reflected : Bool} {reader : Reader TypeSig} {value : TypeSig}

/-- A wrapping of a type that is read after the call of its builder. It serves
pointers, by-references and vectors, on reflected types and on type references. -/
theorem gathers_wrapped (wrapping : Wrapping) (recovers : Recovers site (.type reflected) reader)
    (reading : (reader >>= fun element => liftExcept (wrapping.apply element)).run state =
      .ok value left) :
    ∃ e : Expression site.space (.type reflected), Gathered site state e.code
      (e.denote >>= fun element => liftExcept (wrapping.apply element)) value left := by
  obtain ⟨element, middle, elementReading, reading⟩ := Steps.run_bind_ok.1 reading
  obtain ⟨e, read⟩ := recovers state element middle elementReading
  obtain ⟨composed, rfl⟩ := Steps.run_liftExcept_eq_ok.1 reading
  exact ⟨e, read.last (.settled composed)⟩

/-- An array of a rank. The rank is the last argument, so it is read first and
stands next to the call. -/
theorem gathers_arrayOfRank (recovers : Recovers site (.type reflected) reader)
    (reading : (integer site bound >>= fun rank => reader >>= fun element =>
      liftExcept (element.arrayOf rank)).run state = .ok value left) :
    ∃ (e : Expression site.space (.type reflected)) (rank : Expression site.space .integer),
      Gathered site state (e.code ++ rank.code)
        (rank.denote >>= fun count => e.denote >>= fun element =>
          liftExcept (element.arrayOf count)) value left := by
  obtain ⟨rank, middle, rankReading, reading⟩ := Steps.run_bind_ok.1 reading
  obtain ⟨rankCode, rankRead⟩ := recovers_integer bound state rank middle rankReading
  obtain ⟨element, last, elementReading, reading⟩ := Steps.run_bind_ok.1 reading
  obtain ⟨e, read⟩ := recovers middle element last elementReading
  obtain ⟨composed, rfl⟩ := Steps.run_liftExcept_eq_ok.1 reading
  exact ⟨e, rankCode, rankRead.bind (read.last (.settled composed))⟩

/-- An instance of a generic type. Its arguments are the last argument of the
call and are read first. -/
theorem gathers_genericInstance (recovers : Recovers site (.type reflected) reader)
    (reading : (array site reader bound >>= fun arguments => reader >>= fun definition =>
      resolving (definition.instanceOf arguments)).run state = .ok value left) :
    ∃ (e : Expression site.space (.type reflected))
      (arguments : Expression site.space (.array (.type reflected))),
      Gathered site state (e.code ++ arguments.code)
        (arguments.denote >>= fun types => e.denote >>= fun definition =>
          definition.instanceOf types) value left := by
  obtain ⟨arguments, middle, argumentReading, reading⟩ := Steps.run_bind_ok.1 reading
  obtain ⟨argumentCode, argumentsRead⟩ :=
    recovers_array recovers bound state arguments middle argumentReading
  obtain ⟨definition, last, definitionReading, reading⟩ := Steps.run_bind_ok.1 reading
  obtain ⟨e, read⟩ := recovers middle definition last definitionReading
  exact ⟨e, argumentCode, argumentsRead.bind (read.last (.looked reading))⟩

end Compositions

/-- Reflected types, by induction on the bound. Each builder of reflected types
has its constructor, and all other builders are refused. -/
theorem recovers_reflectedType (bound : Nat) :
    Recovers site (.type true) (reflectedType site bound) := by
  induction bound with
  | zero =>
    intro state value left reading
    simp [reflectedType] at reading
  | succ bound recovers =>
    intro state value left reading
    unfold reflectedType reflectedTypeStep at reading
    obtain ⟨original, b, after, took, same, calls, reading⟩ := call_eq_ok reading
    split at reading
    · exact ⟨.typeToken value original.instruction calls,
        (typeToken_eq_ok reading).after took same⟩
    · obtain ⟨e, read⟩ := gathers_wrapped .pointer recovers reading
      exact ⟨.wrapped .pointer e original.instruction calls, read.after took same⟩
    · obtain ⟨e, read⟩ := gathers_wrapped .byRef recovers reading
      exact ⟨.wrapped .byRef e original.instruction calls, read.after took same⟩
    · obtain ⟨e, read⟩ := gathers_wrapped .vector recovers reading
      exact ⟨.wrapped .vector e original.instruction calls, read.after took same⟩
    · obtain ⟨e, rank, read⟩ := gathers_arrayOfRank recovers reading
      exact ⟨.arrayOfRank e rank original.instruction calls, read.after took same⟩
    · obtain ⟨e, arguments, read⟩ := gathers_genericInstance recovers reading
      exact ⟨.genericInstance e arguments original.instruction calls, read.after took same⟩
    · simp at reading

/-- The owner of generic parameters is read from the one call that names it.
There are two such calls, and each is an expression of its own. -/
theorem recovers_parameterOwner : Recovers site .parameterOwner (parameterOwner site) := by
  intro state value left reading
  unfold parameterOwner at reading
  obtain ⟨_, after, taking, reading⟩ := Steps.run_bind_ok.1 reading
  obtain ⟨original, took, same, rfl⟩ := take_eq_ok taking
  obtain ⟨b, calls, reading⟩ := calls_of_builder reading
  split at reading
  · obtain ⟨rfl, rfl⟩ := by simpa using reading
    exact ⟨.parameterOwner .type original.instruction calls, Gathered.after took same (.given _)⟩
  · obtain ⟨rfl, rfl⟩ := by simpa using reading
    exact ⟨.parameterOwner .method original.instruction calls, Gathered.after took same (.given _)⟩
  · simp at reading

/-- Type references, by induction on the bound. A reference may be converted from a
reflected type, and then goes on with the reader of these. -/
theorem recovers_type (bound : Nat) : Recovers site (.type false) (type site bound) := by
  induction bound with
  | zero =>
    intro state value left reading
    simp [type] at reading
  | succ bound recovers =>
    intro state value left reading
    unfold type typeStep at reading
    obtain ⟨original, b, after, took, same, calls, reading⟩ := call_eq_ok reading
    split at reading
    · obtain ⟨e, read⟩ := recovers_reflectedType bound after value left reading
      exact ⟨.ofReflected e original.instruction calls, read.after took same⟩
    · obtain ⟨name, middle, nameReading, reading⟩ := Steps.run_bind_ok.1 reading
      obtain ⟨nameCode, nameRead⟩ := recovers_string after name middle nameReading
      obtain ⟨assembly, last, assemblyReading, reading⟩ := Steps.run_bind_ok.1 reading
      obtain ⟨e, read⟩ := recovers_string middle assembly last assemblyReading
      exact ⟨.ofName e nameCode original.instruction calls,
        (nameRead.bind (read.last (.looked reading))).after took same⟩
    · have passed : Expression.typeArgument original.instruction = .ok value ∧ after = left := by
        cases told : original.instruction.method?.bind (·.genericArguments.head?) with
        | none =>
          rw [told] at reading
          simp at reading
        | some sig =>
          rw [told] at reading
          obtain ⟨rfl, rfl⟩ := by simpa using reading
          exact ⟨by rw [Expression.typeArgument, told], rfl⟩
      obtain ⟨passed, rfl⟩ := passed
      exact ⟨.ofTypeArgument original.instruction calls,
        Gathered.after took same (.settled passed)⟩
    · obtain ⟨e, read⟩ := gathers_wrapped .pointer recovers reading
      exact ⟨.wrapped .pointer e original.instruction calls, read.after took same⟩
    · obtain ⟨e, read⟩ := gathers_wrapped .byRef recovers reading
      exact ⟨.wrapped .byRef e original.instruction calls, read.after took same⟩
    · obtain ⟨e, read⟩ := gathers_wrapped .vector recovers reading
      exact ⟨.wrapped .vector e original.instruction calls, read.after took same⟩
    · obtain ⟨e, rank, read⟩ := gathers_arrayOfRank recovers reading
      exact ⟨.arrayOfRank e rank original.instruction calls, read.after took same⟩
    · obtain ⟨e, arguments, read⟩ := gathers_genericInstance recovers reading
      exact ⟨.genericInstance e arguments original.instruction calls, read.after took same⟩
    · next required =>
      obtain ⟨modifier, middle, modifierReading, reading⟩ := Steps.run_bind_ok.1 reading
      obtain ⟨modifierCode, modifierRead⟩ := recovers after modifier middle modifierReading
      obtain ⟨element, last, elementReading, reading⟩ := Steps.run_bind_ok.1 reading
      obtain ⟨e, read⟩ := recovers middle element last elementReading
      obtain ⟨rfl, rfl⟩ := by simpa using reading
      have whole := read.viewed (TypeSig.modified required modifier)
      exact ⟨.modified required e modifierCode original.instruction calls,
        (modifierRead.bind whole).after took same⟩
    · obtain ⟨index, middle, indexReading, reading⟩ := Steps.run_bind_ok.1 reading
      obtain ⟨indexCode, indexRead⟩ := recovers_integer bound after index middle indexReading
      obtain ⟨owner, last, ownerReading, reading⟩ := Steps.run_bind_ok.1 reading
      obtain ⟨e, read⟩ := recovers_parameterOwner middle owner last ownerReading
      obtain ⟨composed, rfl⟩ := Steps.run_liftExcept_eq_ok.1 reading
      exact ⟨.genericParameter e indexCode original.instruction calls,
        (indexRead.bind (read.last (.settled composed))).after took same⟩
    · simp at reading

/-- An argument that an overload may lack is read if the overload has it, and
otherwise takes nothing. -/
theorem recovers_optional {k : ArgumentKind} {reader : Reader k.Value} (present : Bool)
    (recovers : Recovers site k reader) :
    Recovers site (.optional present k) (optional present reader) := by
  intro state value left reading
  cases present with
  | false =>
    obtain ⟨rfl, rfl⟩ := by simpa [optional] using reading
    exact ⟨.absent, .given none⟩
  | true =>
    obtain ⟨inner, run, rfl⟩ := Steps.run_map_ok.1 reading
    obtain ⟨e, lines, took, held, denotes⟩ := recovers state inner left run
    exact ⟨.present e, lines, took, held, Steps.run_map_ok.2 ⟨inner, denotes, rfl⟩⟩

/-- Method references, by induction on the bound: a reference may be the vararg
or the generic instance of another one. -/
theorem recovers_method (bound : Nat) : Recovers site .method (method site bound) := by
  induction bound with
  | zero =>
    intro state value left reading
    simp [method] at reading
  | succ bound recovers =>
    intro state value left reading
    have types := @recovers_type site bound
    have lists := recovers_array types bound
    unfold method methodStep at reading
    obtain ⟨original, b, after, took, same, calls, reading⟩ := call_eq_ok reading
    split at reading
    · next takesArity takesParameters =>
      obtain ⟨parameters, first, run, reading⟩ := Steps.run_bind_ok.1 reading
      obtain ⟨parameterCode, parametersRead⟩ :=
        recovers_optional takesParameters lists after parameters first run
      obtain ⟨arity, second, run, reading⟩ := Steps.run_bind_ok.1 reading
      obtain ⟨arityCode, arityRead⟩ :=
        recovers_optional takesArity (recovers_integer bound) first arity second run
      obtain ⟨name, third, run, reading⟩ := Steps.run_bind_ok.1 reading
      obtain ⟨nameCode, nameRead⟩ := recovers_string second name third run
      obtain ⟨on, last, run, reading⟩ := Steps.run_bind_ok.1 reading
      obtain ⟨onCode, onRead⟩ := types third on last run
      exact ⟨.method onCode nameCode arityCode parameterCode original.instruction calls,
        (parametersRead.bind (arityRead.bind (nameRead.bind
          (onRead.last (.looked reading))))).after took same⟩
    · next role =>
      obtain ⟨name, middle, run, reading⟩ := Steps.run_bind_ok.1 reading
      obtain ⟨nameCode, nameRead⟩ := recovers_string after name middle run
      obtain ⟨on, last, run, reading⟩ := Steps.run_bind_ok.1 reading
      obtain ⟨onCode, onRead⟩ := types middle on last run
      exact ⟨.accessor role onCode nameCode original.instruction calls,
        (nameRead.bind (onRead.last (.looked reading))).after took same⟩
    · obtain ⟨parameters, middle, run, reading⟩ := Steps.run_bind_ok.1 reading
      obtain ⟨parameterCode, parametersRead⟩ := lists after parameters middle run
      obtain ⟨on, last, run, reading⟩ := Steps.run_bind_ok.1 reading
      obtain ⟨onCode, onRead⟩ := types middle on last run
      exact ⟨.constructor onCode parameterCode original.instruction calls,
        (parametersRead.bind (onRead.last (.looked reading))).after took same⟩
    · obtain ⟨on, last, run, reading⟩ := Steps.run_bind_ok.1 reading
      obtain ⟨onCode, onRead⟩ := types after on last run
      exact ⟨.typeInitializer onCode original.instruction calls,
        (onRead.last (.looked reading)).after took same⟩
    · obtain ⟨number, middle, run, reading⟩ := Steps.run_bind_ok.1 reading
      obtain ⟨numberCode, numberRead⟩ := recovers_integer bound after number middle run
      obtain ⟨on, last, run, reading⟩ := Steps.run_bind_ok.1 reading
      obtain ⟨onCode, onRead⟩ := types middle on last run
      exact ⟨.unaryOperator onCode numberCode original.instruction calls,
        (numberRead.bind (onRead.last (.looked reading))).after took same⟩
    · obtain ⟨right, first, run, reading⟩ := Steps.run_bind_ok.1 reading
      obtain ⟨rightCode, rightRead⟩ := types after right first run
      obtain ⟨leftType, second, run, reading⟩ := Steps.run_bind_ok.1 reading
      obtain ⟨leftCode, leftRead⟩ := types first leftType second run
      obtain ⟨number, third, run, reading⟩ := Steps.run_bind_ok.1 reading
      obtain ⟨numberCode, numberRead⟩ := recovers_integer bound second number third run
      obtain ⟨on, last, run, reading⟩ := Steps.run_bind_ok.1 reading
      obtain ⟨onCode, onRead⟩ := types third on last run
      exact ⟨.binaryOperator onCode numberCode leftCode rightCode original.instruction calls,
        (rightRead.bind (leftRead.bind (numberRead.bind
          (onRead.last (.looked reading))))).after took same⟩
    · obtain ⟨other, first, run, reading⟩ := Steps.run_bind_ok.1 reading
      obtain ⟨otherCode, otherRead⟩ := types after other first run
      obtain ⟨direction, second, run, reading⟩ := Steps.run_bind_ok.1 reading
      obtain ⟨directionCode, directionRead⟩ :=
        recovers_integer bound first direction second run
      obtain ⟨kind, third, run, reading⟩ := Steps.run_bind_ok.1 reading
      obtain ⟨kindCode, kindRead⟩ := recovers_integer bound second kind third run
      obtain ⟨on, last, run, reading⟩ := Steps.run_bind_ok.1 reading
      obtain ⟨onCode, onRead⟩ := types third on last run
      exact ⟨.conversionOperator onCode kindCode directionCode otherCode original.instruction
        calls, (otherRead.bind (directionRead.bind (kindRead.bind
          (onRead.last (.looked reading))))).after took same⟩
    · obtain ⟨arguments, middle, run, reading⟩ := Steps.run_bind_ok.1 reading
      obtain ⟨argumentCode, argumentsRead⟩ := lists after arguments middle run
      obtain ⟨definition, last, run, reading⟩ := Steps.run_bind_ok.1 reading
      obtain ⟨definitionCode, definitionRead⟩ := recovers middle definition last run
      obtain ⟨composed, rfl⟩ := Steps.run_liftExcept_eq_ok.1 reading
      exact ⟨.genericMethod definitionCode argumentCode original.instruction calls,
        (argumentsRead.bind (definitionRead.last (.settled composed))).after took same⟩
    · obtain ⟨parameters, middle, run, reading⟩ := Steps.run_bind_ok.1 reading
      obtain ⟨parameterCode, parametersRead⟩ := lists after parameters middle run
      obtain ⟨declared, last, run, reading⟩ := Steps.run_bind_ok.1 reading
      obtain ⟨declaredCode, declaredRead⟩ := recovers middle declared last run
      obtain ⟨composed, rfl⟩ := Steps.run_liftExcept_eq_ok.1 reading
      exact ⟨.optionalOfMethod declaredCode parameterCode original.instruction calls,
        (parametersRead.bind (declaredRead.last (.settled composed))).after took same⟩
    · simp at reading

/-- Field references are of one form, a type and a name. The name is nearest to
the call, so it is read first and comes last in the code. -/
theorem recovers_field (bound : Nat) : Recovers site .field (field site bound) := by
  intro state value left reading
  unfold field fieldStep at reading
  obtain ⟨original, b, after, took, same, calls, reading⟩ := call_eq_ok reading
  split at reading
  · obtain ⟨name, middle, run, reading⟩ := Steps.run_bind_ok.1 reading
    obtain ⟨nameCode, nameRead⟩ := recovers_string after name middle run
    obtain ⟨on, last, run, reading⟩ := Steps.run_bind_ok.1 reading
    obtain ⟨onCode, onRead⟩ := recovers_type bound middle on last run
    exact ⟨.field onCode nameCode original.instruction calls,
      (nameRead.bind (onRead.last (.looked reading))).after took same⟩
  · simp at reading

/-- A signature of either sort, from the parameters back to the convention.
Managed and unmanaged ones differ only in how the convention is taken. -/
theorem gathers_signature (managed : Bool) {value : CallSite}
    (reading : (types site bound >>= fun parameters => type site bound >>= fun returnType =>
      integer site bound >>= fun convention =>
        liftExcept (Expression.callSite convention returnType parameters managed)).run state =
          .ok value left) :
    ∃ (convention : Expression site.space .integer)
      (returnType : Expression site.space (.type false))
      (parameters : Expression site.space (.array (.type false))),
      Gathered site state (convention.code ++ returnType.code ++ parameters.code)
        (parameters.denote >>= fun list => returnType.denote >>= fun result =>
          convention.denote >>= fun number =>
            liftExcept (Expression.callSite number result list managed)) value left := by
  obtain ⟨parameters, first, run, reading⟩ := Steps.run_bind_ok.1 reading
  obtain ⟨parameterCode, parametersRead⟩ :=
    recovers_array (recovers_type bound) bound state parameters first run
  obtain ⟨returnType, second, run, reading⟩ := Steps.run_bind_ok.1 reading
  obtain ⟨returnCode, returnRead⟩ := recovers_type bound first returnType second run
  obtain ⟨convention, last, run, reading⟩ := Steps.run_bind_ok.1 reading
  obtain ⟨conventionCode, conventionRead⟩ := recovers_integer bound second convention last run
  obtain ⟨composed, rfl⟩ := Steps.run_liftExcept_eq_ok.1 reading
  exact ⟨conventionCode, returnCode, parameterCode,
    parametersRead.bind (returnRead.bind (conventionRead.last (.settled composed)))⟩

/-- Signatures, by induction on the bound: one may add optional parameters to
another. For each of the three builders the parts are recovered from the call
backward. -/
theorem recovers_signature (bound : Nat) : Recovers site .signature (signature site bound) := by
  induction bound with
  | zero =>
    intro state value left reading
    simp [signature] at reading
  | succ bound recovers =>
    intro state value left reading
    unfold signature signatureStep at reading
    obtain ⟨original, b, after, took, same, calls, reading⟩ := call_eq_ok reading
    split at reading
    · obtain ⟨convention, returnType, parameters, read⟩ := gathers_signature true reading
      exact ⟨.signature true convention returnType parameters original.instruction calls,
        read.after took same⟩
    · obtain ⟨convention, returnType, parameters, read⟩ := gathers_signature false reading
      exact ⟨.signature false convention returnType parameters original.instruction calls,
        read.after took same⟩
    · obtain ⟨parameters, middle, run, reading⟩ := Steps.run_bind_ok.1 reading
      obtain ⟨parameterCode, parametersRead⟩ :=
        recovers_array (recovers_type bound) bound after parameters middle run
      obtain ⟨declared, last, run, reading⟩ := Steps.run_bind_ok.1 reading
      obtain ⟨declaredCode, declaredRead⟩ := recovers middle declared last run
      obtain ⟨composed, rfl⟩ := Steps.run_liftExcept_eq_ok.1 reading
      exact ⟨.optionalOfSignature declaredCode parameterCode original.instruction calls,
        (parametersRead.bind (declaredRead.last (.settled composed))).after took same⟩
    · simp at reading

/-- The declaration of a variable of a type that was read in either form, with a
name if the overload has one. The four overloads differ in these two respects
only, so one lemma is enough for them. -/
theorem gathers_localVariable {named reflected : Bool} {reader : Reader TypeSig}
    {value : LocalDeclaration} (recovers : Recovers site (.type reflected) reader)
    (reading : (reader >>= fun type => optional named (string site) >>= fun name =>
      pure { name := name, type := type }).run state = .ok value left) :
    ∃ (name : Expression site.space (.optional named .string))
      (type : Expression site.space (.type reflected)),
      Gathered site state (name.code ++ type.code)
        (type.denote >>= fun sig => name.denote >>= fun text =>
          pure { name := text, type := sig }) value left := by
  obtain ⟨type, middle, run, reading⟩ := Steps.run_bind_ok.1 reading
  obtain ⟨typeCode, typeRead⟩ := recovers state type middle run
  obtain ⟨name, last, run, reading⟩ := Steps.run_bind_ok.1 reading
  obtain ⟨nameCode, nameRead⟩ := recovers_optional named recovers_string middle name last run
  obtain ⟨rfl, rfl⟩ := by simpa using reading
  have whole := nameRead.viewed fun text => LocalDeclaration.mk text type false
  exact ⟨nameCode, typeCode, typeRead.bind whole⟩

/-- Declarations of local variables, by induction on the bound: one may pin
another. The code of a pinned declaration is that of the inner one and the call. -/
theorem recovers_localVariable (bound : Nat) :
    Recovers site .localVariable (localVariable site bound) := by
  induction bound with
  | zero =>
    intro state value left reading
    simp [localVariable] at reading
  | succ bound recovers =>
    intro state value left reading
    unfold localVariable localVariableStep at reading
    obtain ⟨original, b, after, took, same, calls, reading⟩ := call_eq_ok reading
    split at reading
    · next named reflected =>
      cases reflected with
      | false =>
        obtain ⟨name, type, read⟩ := gathers_localVariable (recovers_type bound) reading
        exact ⟨.localVariable name type original.instruction calls, read.after took same⟩
      | true =>
        obtain ⟨name, type, read⟩ := gathers_localVariable (recovers_reflectedType bound) reading
        exact ⟨.localVariable name type original.instruction calls, read.after took same⟩
    · obtain ⟨declared, middle, run, reading⟩ := Steps.run_bind_ok.1 reading
      obtain ⟨declaredCode, declaredRead⟩ := recovers after declared middle run
      cases pinned : declared.pinned with
      | true =>
        simp only [pinned, if_true] at reading
        obtain ⟨_, _, refused, -⟩ := Steps.run_bind_ok.1 reading
        simp at refused
      | false =>
        obtain ⟨rfl, rfl⟩ := by simpa [pinned] using reading
        have composed : Expression.pin declared = .ok { declared with pinned := true } := by
          simp [Expression.pin, pinned]
        exact ⟨.pinned declaredCode original.instruction calls,
          (declaredRead.last (.settled composed)).after took same⟩
    · simp at reading

/-- Every reader reads nothing but expressions of its kind, by recursion on the
kind and then on the bound. The kinds with parts are the arrays and what is
optional; the others are settled above. -/
theorem recovers_expression (k : ArgumentKind) (bound rounds : Nat) :
    Recovers site k (expression site k bound rounds) := by
  induction k generalizing bound rounds with
  | constant => exact recovers_constant bound
  | integer => exact recovers_integer bound
  | string => exact recovers_string
  | array element recovers => exact recovers_array (recovers bound bound) bound
  | elements element recovers => exact recovers_elements (recovers bound bound) bound rounds
  | optional present content recovers => exact recovers_optional present (recovers bound bound)
  | parameterOwner => exact recovers_parameterOwner
  | type reflected =>
    cases reflected with
    | false => exact recovers_type bound
    | true => exact recovers_reflectedType bound
  | method => exact recovers_method bound
  | field => exact recovers_field bound
  | signature => exact recovers_signature bound
  | localVariable => exact recovers_localVariable bound

end Reader

end InlineCil
