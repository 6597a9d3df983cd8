import InlineCil.Proofs.Encoding.Whole
import InlineCil.Proofs.Labels.Visits

/-!
# Labels over a whole pass

A pass that succeeds has found exactly one mark for every label that it met, and
every branch to a label goes to the instruction that stands where the mark stood.
A label that is branched to and never marked is refused in the end, one that is
marked twice is refused at once.

`Reaches` are the states between visits, with the calls that have mentioned
labels so far. `charted` is the induction over them: the frame and the labels are
in order in each, and the visits that are left suffice. From there the pass is
known to come to each call that it mentions and to its end, unless a visit fails.

The theorem has one part for each way in which a pass can end as far as labels
are concerned. Success gives `Resolved`, where the mentions of the pass, its
warnings and the woven code are set against each other; the two refusals are
given with their kinds and their places.
-/

namespace InlineCil

/-- The states of a pass over a body between its visits: the place to go on from,
and the calls that have mentioned labels by then. -/
inductive Reaches (frame : Frame) (original : Body) (symbols : Symbols) :
    List LabelCall → Option Place → Rewriting → Prop where
  | start : Reaches frame original symbols [] original.code.first? { body := original, symbols }
  | visit {calls : List LabelCall} {place : Place} {cursor : Option Place}
      {state left : Rewriting} (reaches : Reaches frame original symbols calls (some place) state)
      (visited : (Rewrite.visit frame place).run state = .ok cursor left) :
      Reaches frame original symbols (calls ++ (Rewrite.labelCall? frame place state).toList)
        cursor left

/-- The labels of a pass are resolved. Every label that was mentioned is marked
by exactly one call. Emitted branches and switches go to the places of their
labels, where the instructions of the labels are linked; different labels have
different places, and none is a place of the original body. If every label is
taken for the call that marked it, the linked places are in the order of the
original ones: each label stands exactly where its call stood. The warnings about
labels come first, one for each that is marked and never branched to, in the
order of their first mention. -/
structure Resolved (original : Body) (calls : List LabelCall)
    (warnings : List (Warning × Place)) (woven : Body) (place : String → Place) : Prop where
  marked : ∀ name ∈ labelNames (calls.flatMap LabelCall.mentions),
    ∃ call, (calls.flatMap LabelCall.mentions).filter (name ∈ ·.marks) = [.mark name call]
  lines : ∀ c ∈ calls, c.line place ∈ woven.code.linked
  apart : ∀ name ∈ labelNames (calls.flatMap LabelCall.mentions),
    ∀ other ∈ labelNames (calls.flatMap LabelCall.mentions), place name = place other →
      name = other
  fresh : ∀ name ∈ labelNames (calls.flatMap LabelCall.mentions),
    place name ∉ original.code.places
  order : ∃ stood : Place → Place, (∀ place ∈ original.code.places, stood place = place) ∧
    (∀ call name, .mark call name ∈ calls → stood (place name) = call) ∧
    (woven.code.places.map stood).Sublist original.code.places
  warnings : ∃ others,
    warnings = (labelNames (calls.flatMap LabelCall.mentions)).filterMap
      (idleWarning? (calls.flatMap LabelCall.mentions)) ++ others ∧
    ∀ warning ∈ others, ∀ name, warning.1 ≠ .unusedLabel name

variable {frame : Frame} {original : Body} {symbols : Symbols} {calls : List LabelCall}
  {cursor : Option Place} {state scanned final : Rewriting}

namespace Rewrite

variable {place : Place} {visits : Nat} {left : Rewriting}

/-- After a visit that succeeds the calls of the later visits are mentioned. -/
theorem labelCalls_of_ok (visited : (visit frame place).run state = .ok cursor left) :
    labelCalls frame (visits + 1) (some place) state =
      (labelCall? frame place state).toList ++ labelCalls frame visits cursor left := by
  rw [labelCalls, visited]

theorem labelCalls_of_error {failure : Failure}
    (visited : (visit frame place).run state = .error failure left) :
    labelCalls frame (visits + 1) (some place) state = (labelCall? frame place state).toList := by
  rw [labelCalls, visited, List.append_nil]

end Rewrite

namespace Reaches

/-- Wherever a pass is, its frame and its labels are in order, and the visits
that are left suffice for the lines that are pending: from the beginning, the
pass comes here and goes on. By induction on how it came here. -/
theorem charted (blocks : frame.blocks = Blocks.ofBody original)
    (reaches : Reaches frame original symbols calls cursor state) :
    Charts original calls state ∧ ∃ occ pending visits, Framed frame original occ pending pending state ∧
      cursor = pending.head?.map Line.place ∧
      visits + pending.length ≤ original.code.linked.length ∧
      ∀ more,
        (Rewrite.scan frame (visits + more) original.code.first?).run
            { body := original, symbols } =
          (Rewrite.scan frame more cursor).run state ∧
        Rewrite.labelCalls frame (visits + more) original.code.first?
            { body := original, symbols } =
          calls ++ Rewrite.labelCalls frame more cursor state := by
  induction reaches with
  | start =>
    exact ⟨.initial original symbols, _, _, 0, .initial frame original symbols blocks, rfl,
      by simp, fun more => by simp⟩
  | visit reaches visited ih =>
    obtain ⟨charts, occ, pending, visits, framed, there, few, same⟩ := ih
    cases pending with
    | nil => simp at there
    | cons line rest =>
      obtain rfl := Option.some.inj there
      have inside : line.place ∈ original.code.places := (framed.placed.own (by simp)).1
      obtain ⟨next, remaining, after, here, later⟩ := framed.visit visited
      have shorter := later.length_le
      refine ⟨charts.visit inside visited, next, remaining, visits + 1, after, here, ?_, ?_⟩
      · simp only [List.length_cons] at few
        omega
      · intro more
        obtain ⟨scans, mentions⟩ := same (more + 1)
        rw [Nat.add_assoc, Nat.add_comm 1, scans, mentions, Rewrite.labelCalls_of_ok visited,
          List.append_assoc]
        exact ⟨(Steps.run_bind _ _ _).trans (by rw [visited]), rfl⟩

/-- A scan that comes to its end has visited everything, for it has at least as
many visits as there are pending lines. -/
theorem finished {occ : Occupancy} {pending : List Line} {visits : Nat} {done : Unit}
    (reaches : Reaches frame original symbols calls cursor state)
    (framed : Framed frame original occ pending pending state)
    (there : cursor = pending.head?.map Line.place) (enough : pending.length ≤ visits)
    (ran : (Rewrite.scan frame visits cursor).run state = .ok done final) :
    ∃ calls, Reaches frame original symbols calls none final := by
  induction visits generalizing calls cursor state occ pending with
  | zero =>
    obtain rfl := List.eq_nil_of_length_eq_zero (Nat.le_zero.1 enough)
    subst there
    obtain ⟨-, rfl⟩ := by simpa [Rewrite.scan] using ran
    exact ⟨calls, reaches⟩
  | succ visits ih =>
    cases pending with
    | nil =>
      subst there
      obtain ⟨-, rfl⟩ := by simpa [Rewrite.scan] using ran
      exact ⟨calls, reaches⟩
    | cons line rest =>
      subst there
      obtain ⟨cursor, left, visiting, ran⟩ := Steps.run_bind_ok.1 ran
      obtain ⟨next, remaining, after, there, later⟩ := framed.visit visiting
      have shorter := later.length_le
      simp only [List.length_cons] at enough
      exact ih (reaches.visit visiting) after there (by omega) ran

/-- When everything has been visited, all labels have been mentioned. The calls
of the whole pass are thus those on the way to its end. -/
theorem labelCalls_eq (blocks : frame.blocks = Blocks.ofBody original)
    (reaches : Reaches frame original symbols calls none scanned) :
    Rewrite.labelCallsOf frame original symbols = calls := by
  obtain ⟨-, -, pending, visits, -, -, few, same⟩ := reaches.charted blocks
  obtain ⟨more, enough⟩ := Nat.exists_eq_add_of_le (Nat.le_trans (Nat.le_add_right _ _) few)
  have mentions := (same more).2
  rw [← enough] at mentions
  rw [Rewrite.labelCallsOf, mentions]
  cases more <;> exact List.append_nil _

/-- A pass comes to every call that it mentions, with the calls before it
mentioned by then. By induction on the visits, each of which mentions one call at
most. -/
theorem exists_of_mem {visits : Nat} {before after : List LabelCall} {c : LabelCall}
    (reaches : Reaches frame original symbols calls cursor state)
    (mentioned : Rewrite.labelCalls frame visits cursor state = before ++ c :: after) :
    ∃ place state, Reaches frame original symbols (calls ++ before) (some place) state ∧
      Rewrite.labelCall? frame place state = some c := by
  induction visits generalizing calls cursor state before with
  | zero => simp [Rewrite.labelCalls] at mentioned
  | succ visits ih =>
    cases cursor with
    | none => simp [Rewrite.labelCalls] at mentioned
    | some place =>
      have here (found : Rewrite.labelCall? frame place state = some c) (first : before = []) :
          ∃ place state, Reaches frame original symbols (calls ++ before) (some place) state ∧
            Rewrite.labelCall? frame place state = some c :=
        ⟨place, state, by rwa [first, List.append_nil], found⟩
      cases visited : (Rewrite.visit frame place).run state with
      | error failure left =>
        rw [Rewrite.labelCalls_of_error visited] at mentioned
        cases found : Rewrite.labelCall? frame place state with
        | none => simp [found] at mentioned
        | some own =>
          rw [found, Option.toList_some, List.singleton_eq_append_iff] at mentioned
          obtain ⟨first, same⟩ | ⟨-, nothing⟩ := mentioned
          · exact here (found.trans (congrArg some (List.cons.inj same).1.symm)) first
          · simp at nothing
      | ok cursor left =>
        rw [Rewrite.labelCalls_of_ok visited] at mentioned
        have reached := reaches.visit visited
        cases found : Rewrite.labelCall? frame place state with
        | none =>
          rw [found, Option.toList_none, List.append_nil] at reached
          exact ih reached (by simpa [found] using mentioned)
        | some own =>
          rw [found, Option.toList_some, List.singleton_append] at mentioned
          cases before with
          | nil => exact here (found.trans (congrArg some (List.cons.inj mentioned).1)) rfl
          | cons first before =>
            obtain ⟨rfl, rest⟩ := List.cons.inj mentioned
            rw [found, Option.toList_some] at reached
            obtain ⟨there, state, further, mentions⟩ := ih reached rest
            exact ⟨there, state, by simpa using further, mentions⟩

/-- When everything has been visited, the pass is closed. Visits that are left
over change nothing, as there is nothing to visit. -/
theorem run_of_scanned (blocks : frame.blocks = Blocks.ofBody original)
    (reaches : Reaches frame original symbols calls none scanned) :
    (Rewrite.run frame).run { body := original, symbols } =
      (Rewrite.finish frame).run scanned := by
  obtain ⟨-, -, pending, visits, -, -, few, same⟩ := reaches.charted blocks
  obtain ⟨more, enough⟩ := Nat.exists_eq_add_of_le (Nat.le_trans (Nat.le_add_right _ _) few)
  have scans := (same more).1
  rw [← enough] at scans
  change (Rewrite.scan frame original.code.linked.length original.code.first? >>= fun _ =>
    Rewrite.finish frame).run _ = _
  rw [Steps.run_bind, scans]
  cases more <;> rfl

/-- A visit that fails ends the pass, with the failure of the visit. The pass has
come so far without failing, and there are visits enough to reach it. -/
theorem run_of_failing {place : Place} {failure : Failure} {left : Rewriting}
    (blocks : frame.blocks = Blocks.ofBody original)
    (reaches : Reaches frame original symbols calls (some place) state)
    (fails : (Rewrite.visit frame place).run state = .error failure left) :
    (Rewrite.run frame).run { body := original, symbols } = .error failure left := by
  obtain ⟨-, -, pending, visits, -, there, few, same⟩ := reaches.charted blocks
  cases pending with
  | nil => simp at there
  | cons line rest =>
    simp only [List.length_cons] at few
    have room : visits + 1 ≤ original.code.linked.length := by omega
    obtain ⟨more, enough⟩ := Nat.exists_eq_add_of_le room
    have scans := (same (1 + more)).1
    rw [← Nat.add_assoc, ← enough, Nat.add_comm 1] at scans
    have visit : (Rewrite.scan frame (more + 1) (some place)).run state = .error failure left :=
      (Steps.run_bind _ _ _).trans (by rw [fails])
    change (Rewrite.scan frame original.code.linked.length original.code.first? >>= fun _ =>
      Rewrite.finish frame).run _ = _
    rw [Steps.run_bind, scans, visit]

end Reaches

namespace Rewrite

variable {call : Place} {name : String}

/-- A pass is not closed when its labels are refused. They are looked at first,
so this failure is the one that is told. -/
theorem run_finish_of_refused {failure : Failure}
    (refused : scanned.labels.finish = .error failure) :
    (finish frame).run scanned = .error failure scanned := by
  unfold finish
  rw [Steps.run_bind, Steps.run_get]
  dsimp only
  rw [Steps.run_bind, refused]
  rfl

/-- A label that is marked already is not marked again. The failure is at the
call that tries, and by then nothing has changed. -/
theorem run_defineLabel_of_marked {label : Label} (found : state.labels.find? name = some label)
    (named : name ≠ "") (marked : label.definedAt.isSome) :
    (defineLabel name call).run state = .error (.causedAt (.labelRepeated name) call) state := by
  have spelled : name.isEmpty = false := by simpa using named
  have known : (labelPlace name).run state = .ok label.place state := by
    unfold labelPlace
    rw [spelled]
    refine Steps.run_bind_ok.2 ⟨_, _, Steps.run_get _, ?_⟩
    rw [found]
    rfl
  unfold defineLabel
  rw [Steps.run_bind, known]
  dsimp only
  rw [Steps.run_bind, Steps.run_get]
  dsimp only
  rw [found, Option.bind_some, if_pos marked]
  rfl

/-- A call that marks a label reads its name. Which name it is, is thus
determined by the lines before the call, at the time of the visit. -/
theorem exists_of_labelCall? (mentioned : labelCall? frame call state = some (.mark call name)) :
    ∃ i taken read, state.body.code.instruction? call = some i ∧
      i.marker? (space frame) = .ok (some (.primitive .markLabel)) ∧
      (reading frame call fun site _ => Reader.string site).run state = .ok (name, taken) read := by
  unfold labelCall? at mentioned
  split at mentioned
  · next marks =>
    obtain ⟨i, found, marks⟩ := Option.map_eq_some_iff.1 marks
    obtain ⟨read, given, same⟩ := Option.map_eq_some_iff.1 mentioned
    obtain ⟨-, rfl⟩ := LabelCall.mark.inj same
    unfold argument? at given
    split at given
    · next value taken left ran =>
      obtain rfl := Option.some.inj given
      exact ⟨i, taken, left, found, marks, ran⟩
    · simp at given
  · obtain ⟨value, -, emits⟩ := Option.bind_eq_some_iff.1 mentioned
    exact absurd rfl (LabelCall.ne_mark_of_argument emits call name)
  · simp at mentioned

/-- The call that a visit mentions is the one that it visits. -/
theorem call_of_labelCall? {place : Place}
    (mentioned : labelCall? frame place state = some (.mark call name)) : call = place := by
  unfold labelCall? at mentioned
  split at mentioned
  · obtain ⟨_, -, same⟩ := Option.map_eq_some_iff.1 mentioned
    exact (LabelCall.mark.inj same).1.symm
  · obtain ⟨value, -, emits⟩ := Option.bind_eq_some_iff.1 mentioned
    exact absurd rfl (LabelCall.ne_mark_of_argument emits call name)
  · simp at mentioned

/-- A visit fails that would mark a label again. Its name is read as for any
other mark, and then refused with the name in the message. -/
theorem run_visit_of_marked (charts : Charts original calls state)
    (mentioned : labelCall? frame call state = some (.mark call name))
    (marked : (markedAt? (calls.flatMap LabelCall.mentions) name).isSome) :
    ∃ left, (visit frame call).run state = .error (.causedAt (.labelRepeated name) call) left := by
  obtain ⟨i, taken, read, found, marks, reads⟩ := exists_of_labelCall? mentioned
  have linked : state.body.Calls call :=
    ⟨i.opcode, Body.runs_of_instruction? found, Instruction.isCall_of_marker? marks⟩
  obtain ⟨quiet, -⟩ :=
    Rewriting.Quiet.reading linked (fun site _ _ => Framed.readsFor_string site) reads
  obtain ⟨there, first⟩ := Option.isSome_iff_exists.1 marked
  have known : name ∈ labelNames (calls.flatMap LabelCall.mentions) :=
    mem_labelNames.2 ⟨_, mem_of_markedAt? first, rfl⟩
  obtain ⟨label, held, member, rfl⟩ := charts.ledger.records.exists_find? known
  have defined : label.definedAt.isSome := charts.ledger.records.marks label member ▸ marked
  have refused := @run_defineLabel_of_marked read call _ _ (quiet.labels ▸ held)
    (charts.ledger.named label member) defined
  obtain ⟨line, among, rfl⟩ := Option.map_eq_some_iff.1 found
  obtain rfl : line.place = call := by simpa [Line.isAt] using List.find?_some among
  obtain ⟨before, after, split⟩ := List.mem_iff_append.1 (List.mem_of_find?_eq_some among)
  refine ⟨read, ?_⟩
  rw [run_visit split, marks]
  change (markLabel frame line.place).run state = _
  unfold markLabel located
  rw [Steps.run_bind, reads]
  dsimp only
  rw [Steps.run_bind, Steps.run_tryCatch, refused]
  rfl

end Rewrite

namespace Charts

variable {unused : List (Warning × Place)}

theorem known (charts : Charts original calls state) {name : String}
    (mentioned : name ∈ labelNames (calls.flatMap LabelCall.mentions)) :
    (state.labels.place? name).isSome := by
  obtain ⟨label, held, -, -⟩ := charts.ledger.records.exists_find? mentioned
  simp [LabelTable.place?, held]

/-- When the table is accepted, no label is missing. Otherwise the first missing
one would have been refused. -/
theorem complete (charts : Charts original calls scanned)
    (accepted : scanned.labels.finish = .ok unused) :
    ∀ name ∈ labelNames (calls.flatMap LabelCall.mentions),
      isMissing (calls.flatMap LabelCall.mentions) name = false := by
  intro name mentioned
  by_contra missing
  cases found : (labelNames (calls.flatMap LabelCall.mentions)).find?
      (isMissing (calls.flatMap LabelCall.mentions)) with
  | none => exact List.find?_eq_none.1 found name mentioned (by simpa using missing)
  | some first =>
    obtain ⟨branch, -, refused⟩ := LabelTable.finish_of_missing charts.ledger.records found
    simp [accepted] at refused

/-- When the table is accepted, every label was marked by one call: one that is not
branched to was mentioned by its mark, and no label is marked twice. -/
theorem marked_once (charts : Charts original calls scanned)
    (accepted : scanned.labels.finish = .ok unused) :
    ∀ name ∈ labelNames (calls.flatMap LabelCall.mentions),
      ∃ call, (calls.flatMap LabelCall.mentions).filter (name ∈ ·.marks) = [.mark name call] := by
  intro name mentioned
  obtain ⟨m, member, rfl⟩ := mem_labelNames.1 mentioned
  cases m with
  | mark name call => exact ⟨call, charts.ledger.records.once name call member⟩
  | use name branch =>
    have present := charts.complete accepted _ mentioned
    have used := isSome_firstUse? member
    have marked : (markedAt? (calls.flatMap LabelCall.mentions) name).isSome := by
      simpa [isMissing, Mention.name, used] using present
    obtain ⟨call, found⟩ := Option.isSome_iff_exists.1 marked
    exact ⟨call, charts.ledger.records.once name call (mem_of_markedAt? found)⟩

/-- When the table is accepted, the labels are resolved. The charts at the end of
the scan have the lines, places and order; the table has the marks and the
warnings. -/
theorem resolved (charts : Charts original calls scanned)
    (accepted : scanned.labels.finish = .ok unused) {woven : Body}
    (same : woven.code = scanned.body.code) :
    Resolved original calls (unused ++ (scanned.locals.map LocalTable.unused).getD []) woven
      scanned.labels.placeOf where
  marked := charts.marked_once accepted
  lines c member := same ▸ charts.laid.lines c member
  apart name mentioned other also :=
    charts.ledger.labelled.eq_of_placeOf (charts.known mentioned) (charts.known also)
  fresh name mentioned inside := by
    obtain ⟨place, found⟩ := Option.isSome_iff_exists.1 (charts.known mentioned)
    have new := charts.ledger.labelled.le_index found
    rw [LabelTable.placeOf_eq found] at inside
    exact absurd (index_lt_of_mem inside) (by omega)
  order := same ▸ charts.laid.order
  warnings := by
    have said := LabelTable.finish_of_records charts.ledger.records (charts.complete accepted)
    obtain rfl := Except.ok.inj (accepted.symm.trans said)
    refine ⟨_, rfl, fun warning among name => ?_⟩
    cases declared : scanned.locals with
    | none => simp [declared] at among
    | some table =>
      simp only [declared, Option.map_some, Option.getD_some, LocalTable.unused,
        List.mem_filterMap] at among
      obtain ⟨⟨slot, index⟩, -, told⟩ := among
      split at told
      · simp at told
      · obtain rfl := Option.some.inj told
        simp

end Charts

/-- Labels over a whole pass. If the pass succeeds, the labels that it mentions
are resolved. If it visits everything and some label is branched to and never
marked, it fails as something that is not found, at the first branch to the first
such label. If it mentions a mark of a label that was marked before, it fails
there, as a flaw of the structure. -/
theorem Rewrite.labels_resolved (frame : Frame) (original : Body) (symbols : Symbols)
    (blocks : frame.blocks = Blocks.ofBody original) :
    (∀ warnings final,
      (run frame).run { body := original, symbols } = .ok warnings final →
        ∃ place, Resolved original (labelCallsOf frame original symbols) warnings final.body
          place) ∧
    (∀ scanned missing branch,
      (scan frame original.code.linked.length original.code.first?).run
        { body := original, symbols } = .ok ⟨⟩ scanned →
      .use missing branch ∈ (labelCallsOf frame original symbols).flatMap LabelCall.mentions →
      (∀ call, .mark call missing ∉ labelCallsOf frame original symbols) →
        ∃ name first failure,
          (labelNames ((labelCallsOf frame original symbols).flatMap LabelCall.mentions)).find?
            (isMissing ((labelCallsOf frame original symbols).flatMap LabelCall.mentions)) =
              some name ∧
          firstUse? ((labelCallsOf frame original symbols).flatMap LabelCall.mentions) name =
            some first ∧
          (run frame).run { body := original, symbols } = .error failure scanned ∧
          failure = .causedAt (.labelUndefined name) first ∧
          failure.kind? = some .notFound ∧ failure.place? = some first) ∧
    ∀ before call name after earlier,
      labelCallsOf frame original symbols = before ++ .mark call name :: after →
      .mark earlier name ∈ before →
        ∃ failure left,
          (run frame).run { body := original, symbols } = .error failure left ∧
          failure = .causedAt (.labelRepeated name) call ∧
          failure.kind? = some .structural ∧ failure.place? = some call := by
  have start := Framed.initial frame original symbols blocks
  refine ⟨?_, ?_, ?_⟩
  · intro warnings final passed
    obtain ⟨_, scanned, scanning, closed⟩ := Steps.run_bind_ok.1 (body_bind_eq_ok.1 passed)
    obtain ⟨calls, reaches⟩ := Reaches.start.finished start rfl (Nat.le_refl _) scanning
    obtain ⟨⟨unused, accepted, rfl⟩, -, rfl, -⟩ := finish_eq_ok closed
    obtain ⟨charts, -⟩ := reaches.charted blocks
    rw [reaches.labelCalls_eq blocks]
    exact ⟨_, charts.resolved accepted rfl⟩
  · intro scanned missing branch scanning used unmarked
    obtain ⟨calls, reaches⟩ := Reaches.start.finished start rfl (Nat.le_refl _) scanning
    obtain ⟨charts, -⟩ := reaches.charted blocks
    rw [reaches.labelCalls_eq blocks] at used unmarked ⊢
    have never : markedAt? (calls.flatMap LabelCall.mentions) missing = none := by
      by_contra marked
      obtain ⟨call, found⟩ := Option.ne_none_iff_exists'.1 marked
      obtain ⟨c, member, marks⟩ := List.mem_flatMap.1 (mem_of_markedAt? found)
      exact unmarked call (LabelCall.mark_mem.1 marks ▸ member)
    have absent : isMissing (calls.flatMap LabelCall.mentions) missing = true := by
      simp [isMissing, isSome_firstUse? used, never]
    have exists_missing : ((labelNames (calls.flatMap LabelCall.mentions)).find?
        (isMissing (calls.flatMap LabelCall.mentions))).isSome :=
      List.find?_isSome.2 ⟨missing, mem_labelNames.2 ⟨_, used, rfl⟩, absent⟩
    obtain ⟨name, found⟩ := Option.isSome_iff_exists.1 exists_missing
    obtain ⟨first, uses, refused⟩ := LabelTable.finish_of_missing charts.ledger.records found
    have run := (reaches.run_of_scanned blocks).trans (run_finish_of_refused refused)
    exact ⟨name, first, _, found, uses, run, rfl, rfl, rfl⟩
  · intro before call name after earlier mentioned marked
    obtain ⟨place, state, reaches, found⟩ := Reaches.start.exists_of_mem mentioned
    obtain ⟨charts, -⟩ := reaches.charted blocks
    obtain rfl := call_of_labelCall? found
    have marks : (markedAt? (([] ++ before).flatMap LabelCall.mentions) name).isSome :=
      isSome_markedAt? (List.mem_flatMap.2 ⟨_, marked, LabelCall.mark_mem.2 rfl⟩)
    obtain ⟨left, fails⟩ := run_visit_of_marked charts found marks
    exact ⟨_, left, reaches.run_of_failing blocks fails, rfl, rfl, rfl⟩

namespace Weave

/-- Code that marks a label. -/
def marking (name : String) : List Instruction :=
  [⟨.ldstr, .string name⟩,
    plainCall .call (vocabularyType [] "IL") "MarkLabel" [coreType "String"]]

/-- Code that emits a branch to a label. -/
def branching (name : String) : List Instruction :=
  [⟨.ldstr, .string name⟩,
    plainCall .call (vocabularyType ["IL"] "Emit") "Br" [coreType "String"]]

/-- A body that goes to labels before and after they are marked, and never to one
of them. -/
def circlingBody : Body :=
  ({} : Body).pushAll (marking "top" ++ marking "idle" ++ branching "exit" ++ branching "top" ++
    marking "exit" ++ [⟨.ret, .none⟩])

/-- A body that goes to a label which it does not mark. -/
def strayingBody : Body := ({} : Body).pushAll (branching "exit" ++ [⟨.ret, .none⟩])

/-- A body that marks a label twice. -/
def remarkingBody : Body :=
  ({} : Body).pushAll (marking "exit" ++ marking "exit" ++ [⟨.ret, .none⟩])

/-- A pass over a body. -/
def frameOver (b : Body) : Frame where
  settings := {}
  method := { name := "Run", returnType := coreType "Void" }
  blocks := .ofBody b
  mapsPoints := false

/-- What a run gives, if it succeeds. -/
def given? {ε σ α : Type} : EStateM.Result ε σ α → Option α
  | .ok value _ => some value
  | .error _ _ => none

theorem exists_of_given? {ε σ α : Type} {result : EStateM.Result ε σ α} {value : α}
    (given : given? result = some value) : ∃ final, result = .ok value final := by
  cases result with
  | ok found final =>
    obtain rfl := Option.some.inj given
    exact ⟨final, rfl⟩
  | error failure final => simp [given?] at given

end Weave

open Weave in
/-- Labels are resolved around a label that is never used; one label is missing;
and one is marked twice. The three bodies are those that the three cases of the
statement need. -/
theorem Rewrite.labels_resolved_circlingBody :
    (∃ final place,
      (run (frameOver circlingBody)).run { body := circlingBody, symbols := emptyProgram } =
        .ok [(.unusedLabel "idle", ⟨3⟩)] final ∧
      Resolved circlingBody
        [.mark ⟨1⟩ "top", .mark ⟨3⟩ "idle", .branch ⟨5⟩ .br "exit", .branch ⟨7⟩ .br "top",
          .mark ⟨9⟩ "exit"] [(.unusedLabel "idle", ⟨3⟩)] final.body place) ∧
    (∃ left, (run (frameOver strayingBody)).run
      { body := strayingBody, symbols := emptyProgram } =
        .error (.causedAt (.labelUndefined "exit") ⟨1⟩) left) ∧
    ∃ left, (run (frameOver remarkingBody)).run
      { body := remarkingBody, symbols := emptyProgram } =
        .error (.causedAt (.labelRepeated "exit") ⟨3⟩) left := by
  refine ⟨?_, ?_, ?_⟩
  · obtain ⟨resolved, -, -⟩ :=
      labels_resolved (frameOver circlingBody) circlingBody emptyProgram rfl
    obtain ⟨final, passed⟩ : ∃ final,
        (run (frameOver circlingBody)).run { body := circlingBody, symbols := emptyProgram } =
          .ok [(.unusedLabel "idle", ⟨3⟩)] final := exists_of_given? (by decide +kernel)
    have calls : labelCallsOf (frameOver circlingBody) circlingBody emptyProgram =
        [.mark ⟨1⟩ "top", .mark ⟨3⟩ "idle", .branch ⟨5⟩ .br "exit", .branch ⟨7⟩ .br "top",
          .mark ⟨9⟩ "exit"] := by decide +kernel
    obtain ⟨place, all⟩ := resolved _ _ passed
    exact ⟨final, place, passed, calls ▸ all⟩
  · obtain ⟨-, missing, -⟩ :=
      labels_resolved (frameOver strayingBody) strayingBody emptyProgram rfl
    obtain ⟨scanned, scanning⟩ : ∃ scanned, (scan (frameOver strayingBody)
        strayingBody.code.linked.length strayingBody.code.first?).run
          { body := strayingBody, symbols := emptyProgram } = .ok ⟨⟩ scanned :=
      exists_of_given? (by decide +kernel)
    have calls : labelCallsOf (frameOver strayingBody) strayingBody emptyProgram =
        [.branch ⟨1⟩ .br "exit"] := by decide +kernel
    rw [calls] at missing
    obtain ⟨name, first, _, found, uses, ran, rfl, -, -⟩ :=
      missing scanned "exit" ⟨1⟩ scanning (by decide) (by simp)
    obtain rfl : "exit" = name := Option.some.inj found
    obtain rfl : (⟨1⟩ : Place) = first := Option.some.inj uses
    exact ⟨scanned, ran⟩
  · obtain ⟨-, -, repeated⟩ :=
      labels_resolved (frameOver remarkingBody) remarkingBody emptyProgram rfl
    have calls : labelCallsOf (frameOver remarkingBody) remarkingBody emptyProgram =
        [.mark ⟨1⟩ "exit"] ++ .mark ⟨3⟩ "exit" :: [] := by decide +kernel
    obtain ⟨_, left, ran, rfl, -, -⟩ := repeated _ _ _ _ ⟨1⟩ calls (List.mem_singleton_self _)
    exact ⟨left, ran⟩

end InlineCil
