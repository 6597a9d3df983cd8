import InlineCil.Proofs.Arena.Edits

/-!
# One list of places

What a caller sees of an arena is one list of places without repetitions: its
ends, its length, the neighbours of each place and both walks are those of the
list. An edit that is accepted changes the list as its name says, an edit that is
refused changes nothing that is linked, and no place is handed out twice. So
callers may think of a body as a list, whatever edits it went through.

`Arena.Shows` lists everything that can be asked about the chain and has one list
answer all of it. What it says follows from the body that the arena stores, and
what an edit does to the list was proved for bodies; so nothing about slots is
left to prove here.

Runs are followed from the empty arena on. Their answers are part of the
comparison with the body, and the places among them are told to be new from the
number of slots, which never goes down.
-/

namespace InlineCil

/-- The arena shows the list of places, from both ends and at every place. Slots
of other places are detached and have no neighbours. -/
structure Arena.Shows (a : Arena) (places : List Place) : Prop where
  nodup : places.Nodup
  first : a.first? = places.head?
  last : a.last? = places.getLast?
  size : a.size = places.length
  contains : ∀ place, a.contains place = true ↔ place ∈ places
  forward : a.lines.map Line.place = places
  backward : a.backward = a.lines.reverse
  after : ∀ place next, a.after? place = some next ↔ [place, next] <:+: places
  before : ∀ place previous, a.before? place = some previous ↔ [previous, place] <:+: places
  alone : ∀ place ∉ places, ∀ slot, a.slot? place = some slot →
    slot.linked = false ∧ slot.before? = none ∧ slot.after? = none

/-- An arena shows the linked places of the body it stores. Each field is one
lemma on `Stores`; the lines read off in both directions are those of the body,
and so are the neighbours of each place. -/
theorem Stores.shows {a : Arena} {b : Body} (stores : Stores a b) : a.Shows b.code.places where
  nodup := b.code.nodup_linked
  first := by rw [stores.first, Code.first?, Code.places, List.head?_map]
  last := by rw [stores.last, Code.last?, Code.places, List.getLast?_map]
  size := by rw [stores.size, Code.places, List.length_map]
  contains place := by rw [stores.contains, Code.contains_iff]
  forward := by rw [stores.lines, Code.places]
  backward := by rw [stores.backward, stores.lines]
  after place next := by rw [stores.after?, Code.after?_eq_some_iff]
  before place previous := by rw [stores.before?, Code.before?_eq_some_iff]
  alone place outside slot held := by
    rw [← Code.contains_iff, Bool.not_eq_true] at outside
    rcases stores.slot_cases place with ⟨before, line, after, rfl, split, -⟩ |
      ⟨-, line, -, -, found⟩ | ⟨-, -, found⟩
    · rw [Code.contains_of_split split] at outside
      contradiction
    · obtain rfl := Option.some.inj (held.symm.trans found)
      exact ⟨rfl, rfl, rfl⟩
    · simp [found] at held

/-- The last edit of a run is done on what the others left, for any kind of
state. -/
theorem Edit.runWith_append {σ : Type} (apply : σ → Edit → Except Fault Answer × σ) (state : σ)
    (edits : List Edit) (edit : Edit) :
    Edit.runWith apply state (edits ++ [edit]) =
      ((Edit.runWith apply state edits).1 ++
          [(apply (Edit.runWith apply state edits).2 edit).1],
        (apply (Edit.runWith apply state edits).2 edit).2) := by
  induction edits generalizing state with
  | nil => rfl
  | cons first edits ih =>
    simp only [List.cons_append, Edit.runWith, ih]

namespace Arena

@[simp] theorem count_link (a : Arena) (left : Option Place) (place : Place)
    (right : Option Place) : (a.link left place right).slots.size = a.slots.size :=
  (tie_rest _ left right (some place) (some place)).1.trans (a.size_change place _)

@[simp] theorem count_unlink (a : Arena) (place : Place) :
    (a.unlink place).2.slots.size = a.slots.size := by
  unfold unlink
  split
  · rfl
  · next slot _ => exact (size_change _ place _).trans (tie_rest a _ _ _ _).1

@[simp] theorem count_retarget (a : Arena) (old : Place) (start stop : Option Place) :
    (a.retarget old start stop).slots.size = a.slots.size :=
  Array.size_map

/-- Linking adds no slot, whether it is accepted or refused: the line was given
one when it was created. -/
@[simp] theorem count_linkBefore (a : Arena) (anchor place : Place) :
    (a.linkBefore anchor place).2.slots.size = a.slots.size := by
  unfold linkBefore
  split
  · rfl
  · split
    · rfl
    · exact a.count_link _ _ _

theorem count_create (a : Arena) (i : Instruction) :
    (a.create i).2.slots.size = a.slots.size + 1 :=
  Array.size_push _

/-- Slots are never given back: an edit adds one if it hands out a place, and
none otherwise. Proof: by cases on the edit; linking, unlinking and retargeting
change slots in place, and only creating adds one. -/
theorem count_apply (a : Arena) (edit : Edit) :
    (a.apply edit).2.slots.size = a.slots.size + edit.handsOut.toNat := by
  cases edit with
  | push i => exact (count_link _ _ _ _).trans (a.count_create i)
  | create i => exact a.count_create i
  | insertBefore anchor i => exact (count_linkBefore _ _ _).trans (a.count_create i)
  | insertAfter anchor i =>
    simp only [apply, insertAfter]
    split
    · exact (count_linkBefore _ _ _).trans (a.count_create i)
    · split
      · exact a.count_create i
      · exact (count_link _ _ _ _).trans (a.count_create i)
  | linkBefore anchor place => exact a.count_linkBefore anchor place
  | replace place i =>
    simp only [apply, replace]
    split
    · exact a.size_change place _
    · rfl
  | replaceWith old new =>
    have linked := a.count_linkBefore old new
    simp only [apply, replaceWith]
    split
    · next outcome => rwa [outcome] at linked
    · next outcome =>
      rw [outcome] at linked
      exact ((count_unlink _ _).trans (count_retarget _ _ _ _)).trans linked
  | remove place =>
    simp only [apply, remove]
    split
    · rfl
    · split
      · rfl
      · exact (count_unlink _ _).trans (count_retarget _ _ _ _)
  | clear => exact Array.size_map

@[simp] theorem place?_taken (answer : Except Fault Instruction) :
    Answer.place? (answer.map .taken) = none := by
  cases answer <;> rfl

@[simp] theorem place?_done (answer : Except Fault Unit) :
    Answer.place? (answer.map fun _ => .done) = none := by
  cases answer <;> rfl

/-- A place that is handed out is the next one, or the last index if there are no
more. Which edits may hand one out is told by the edit alone, accepted or not. -/
theorem place_of_apply {a : Arena} {edit : Edit} {place : Place}
    (handed : Answer.place? (a.apply edit).1 = some place) :
    edit.handsOut = true ∧ place = ⟨min a.slots.size lastIndex⟩ := by
  have fresh {answer : Except Fault Unit}
      (found : Answer.place? ((answer.map fun _ => (⟨min a.slots.size lastIndex⟩ : Place)).map
        .handed) = some place) : place = ⟨min a.slots.size lastIndex⟩ := by
    cases answer with
    | ok done => exact (Option.some.inj found).symm
    | error fault => simp [Except.map, Answer.place?] at found
  cases edit with
  | push i => exact ⟨rfl, (Option.some.inj handed).symm⟩
  | create i => exact ⟨rfl, (Option.some.inj handed).symm⟩
  | insertBefore anchor i => exact ⟨rfl, fresh handed⟩
  | insertAfter anchor i =>
    refine ⟨rfl, ?_⟩
    simp only [apply, insertAfter] at handed
    split at handed
    · exact fresh handed
    · split at handed
      · simp [Except.map, Answer.place?] at handed
      · exact (Option.some.inj handed).symm
  | linkBefore anchor place => simp [apply] at handed
  | replace place i => simp [apply] at handed
  | replaceWith old new => simp [apply] at handed
  | remove place => simp [apply] at handed
  | clear => simp [apply, Answer.place?] at handed

/-- Places are handed out in order of their indices, so none is handed out twice.
By induction on the edits, the number of slots being above every place handed out
so far. -/
theorem handed_run {a : Arena} {edits : List Edit}
    (room : (a.run edits).2.slots.size ≤ lastIndex) :
    a.slots.size ≤ (a.run edits).2.slots.size ∧
      ((a.run edits).1.filterMap Answer.place?).Nodup ∧
      ∀ place ∈ (a.run edits).1.filterMap Answer.place?, a.slots.size ≤ place.index := by
  induction edits generalizing a with
  | nil => exact ⟨Nat.le_refl _, List.nodup_nil, by simp [run, Edit.runWith]⟩
  | cons edit edits ih =>
    have outcome : a.run (edit :: edits) =
        ((a.apply edit).1 :: ((a.apply edit).2.run edits).1, ((a.apply edit).2.run edits).2) := rfl
    have further : ((a.apply edit).2.run edits).2.slots.size ≤ lastIndex := room
    obtain ⟨grows, distinct, later⟩ := ih further
    have count := a.count_apply edit
    simp only [outcome, List.filterMap_cons]
    cases handed : Answer.place? (a.apply edit).1 with
    | none =>
      refine ⟨by omega, distinct, fun place member => ?_⟩
      have index := later place member
      omega
    | some place =>
      obtain ⟨fresh, rfl⟩ := place_of_apply handed
      rw [fresh, Bool.toNat_true] at count
      refine ⟨by omega, List.nodup_cons.2 ⟨fun again => ?_, distinct⟩, fun place member => ?_⟩
      · have index := later _ again
        simp only at index
        omega
      · rcases List.mem_cons.1 member with rfl | member
        · simp only
          omega
        · have index := later place member
          omega

end Arena

/-- An arena and the body it stores go through the same run, with the same
answers. By induction on the edits; there is room for each of them, since there
is for all in the end. -/
theorem Stores.run {a : Arena} {b : Body} (stores : Stores a b) {edits : List Edit}
    (room : (a.run edits).2.slots.size ≤ Arena.lastIndex) :
    (a.run edits).1 = (b.run edits).1 ∧ Stores (a.run edits).2 (b.run edits).2 := by
  induction edits generalizing a b with
  | nil => exact ⟨rfl, stores⟩
  | cons edit edits ih =>
    have further : ((a.apply edit).2.run edits).2.slots.size ≤ Arena.lastIndex := room
    obtain ⟨grows, -⟩ := Arena.handed_run further
    have count := a.count_apply edit
    obtain ⟨same, stored⟩ := stores.apply (by omega) edit
    obtain ⟨answers, last⟩ := ih stored further
    exact ⟨List.cons_eq_cons.2 ⟨same, answers⟩, last⟩

/-- An edit of an arena changes the list of places that the arena shows as it
should, and the clauses and debug points with it. -/
theorem Stores.edited {a : Arena} {b : Body} (stores : Stores a b)
    (room : a.slots.size ≤ Arena.lastIndex) (edit : Edit) :
    match (a.apply edit).1 with
    | .ok _ => edit.Fits a.slots.size a.refersTo b.code.places ∧
        (a.apply edit).2.Shows (edit.onPlaces ⟨a.slots.size⟩ b.code.places) ∧
        (a.apply edit).2.clauses = edit.onClauses b.code.places a.clauses ∧
        (a.apply edit).2.points = edit.onPoints a.points
    | .error _ => ¬ edit.Fits a.slots.size a.refersTo b.code.places ∧
        (a.apply edit).2.Shows b.code.places ∧ (a.apply edit).2.lines = a.lines ∧
        (a.apply edit).2.clauses = a.clauses ∧ (a.apply edit).2.points = a.points := by
  obtain ⟨answer, left⟩ := stores.apply room edit
  have obeys := b.obeys edit
  have refers : a.refersTo = b.refersTo := funext stores.refersTo
  rw [answer, stores.count, refers]
  cases outcome : b.apply edit with
  | mk answer after =>
    rw [outcome] at left obeys
    cases answer with
    | ok answer =>
      obtain ⟨fits, places, clauses, points⟩ := obeys
      exact ⟨fits, places ▸ left.shows, by rw [left.clauses, stores.clauses, clauses],
        by rw [left.points, stores.points, points]⟩
    | error fault =>
      obtain ⟨unfit, linked, clauses, points⟩ := obeys
      have places : after.code.places = b.code.places := congrArg (List.map Line.place) linked
      exact ⟨unfit, places ▸ left.shows, by rw [left.lines, stores.lines, linked],
        by rw [left.clauses, stores.clauses, clauses], by rw [left.points, stores.points, points]⟩

/-- An overwritten instruction is the only one that changes. The other lines keep
theirs, and all keep their places. -/
theorem Stores.lines_replace {a : Arena} {b : Body} (stores : Stores a b) (place : Place)
    (i : Instruction) : (a.apply (.replace place i)).2.lines = a.lines.map fun line =>
      ⟨line.place, if line.place = place then i else line.instruction⟩ := by
  have left := (stores.replace place i).2.lines
  refine left.trans ?_
  rw [stores.lines]
  cases contained : b.code.contains place with
  | true =>
    obtain ⟨before, line, after, rfl, split⟩ := Code.exists_split contained
    rw [Body.replace_of_split split]
    simp [Body.taking, Code.overwrite, Code.mapLinked, Line.isAt]
  | false =>
    have absent := Code.instruction?_of_absent contained
    have elsewhere : ∀ line ∈ b.code.linked, line.place ≠ place := by
      simpa [Code.contains, Line.isAt] using contained
    rw [Body.replace, absent]
    refine ((List.map_congr_left fun line member => ?_).trans (List.map_id b.code.linked)).symm
    simp [elsewhere line member]

/-- However a body is edited, its arena shows one list of places without
repetitions. An edit that is accepted changes the list as its name says, sends
the borders of clauses at a place that leaves or is replaced where the list
tells, and leaves debug points at their places. An edit that is refused leaves
the linked lines, the clauses and the debug points as they were, and no place is
handed out twice. All along, the arena holds the linked lines, the clauses and
the debug points of the body.

The arena is compared with the body that went through the same edits. What the
list says of an edit is proved on the body, and looking at the arena is looking
at the body. -/
theorem Arena.refines_list (edits : List Edit) (edit : Edit)
    (room : (({} : Arena).run (edits ++ [edit])).2.slots.size ≤ Arena.lastIndex) :
    let before := (({} : Arena).run edits).2
    let after := (before.apply edit).2
    let body := (({} : Body).run (edits ++ [edit])).2
    (∃ places, before.Shows places ∧
      match (before.apply edit).1 with
      | .ok _ => edit.Fits before.slots.size before.refersTo places ∧
          after.Shows (edit.onPlaces ⟨before.slots.size⟩ places) ∧
          after.clauses = edit.onClauses places before.clauses ∧
          after.points = edit.onPoints before.points
      | .error _ => ¬ edit.Fits before.slots.size before.refersTo places ∧ after.Shows places ∧
          after.lines = before.lines ∧ after.clauses = before.clauses ∧
          after.points = before.points) ∧
      (∀ place i, edit = .replace place i → after.lines = before.lines.map fun line =>
        ⟨line.place, if line.place = place then i else line.instruction⟩) ∧
      ((({} : Arena).run (edits ++ [edit])).1.filterMap Answer.place?).Nodup ∧
      (({} : Arena).run (edits ++ [edit])).1 = (({} : Body).run (edits ++ [edit])).1 ∧
      after.lines = body.code.linked ∧ after.clauses = body.clauses ∧ after.points = body.points := by
  intro before after body
  have last : (({} : Arena).run (edits ++ [edit])).2 = after :=
    congrArg Prod.snd (Edit.runWith_append Arena.apply {} edits edit)
  have start : before.slots.size ≤ Arena.lastIndex := by
    have count := before.count_apply edit
    rw [last] at room
    exact (count ▸ Nat.le_add_right _ _).trans room
  obtain ⟨-, stored⟩ := Stores.empty.run start
  obtain ⟨answers, left⟩ := Stores.empty.run room
  obtain ⟨-, distinct, -⟩ := Arena.handed_run room
  rw [last] at left
  refine ⟨⟨_, stored.shows, stored.edited start edit⟩, ?_, distinct, answers, left.lines,
    left.clauses, left.points⟩
  rintro place i rfl
  exact stored.lines_replace place i

/-- A line that was spliced in takes over from the one it replaced, which is not
removed again. -/
def splicing : List Edit :=
  [.push ⟨.nop, .none⟩, .push ⟨.br, .target ⟨0⟩⟩, .create ⟨.nop, .none⟩, .replaceWith ⟨0⟩ ⟨2⟩,
    .remove ⟨0⟩]

/-- The spliced line heads the list, and the next line comes in after it. By then
one place has been handed out that is linked no more, and it is not handed out
again. -/
theorem Arena.refines_list_splicing :
    (({} : Arena).run (splicing ++ [.insertAfter ⟨2⟩ ⟨.pop, .none⟩])).2.slots.size ≤
        Arena.lastIndex ∧
      ((({} : Arena).run splicing).2.apply (.insertAfter ⟨2⟩ ⟨.pop, .none⟩)).2.Shows
        [⟨2⟩, ⟨3⟩, ⟨1⟩] := by
  have room : (({} : Arena).run (splicing ++ [.insertAfter ⟨2⟩ ⟨.pop, .none⟩])).2.slots.size ≤
      Arena.lastIndex := by decide +kernel
  obtain ⟨⟨places, shows, obeyed⟩, -⟩ := refines_list splicing (.insertAfter ⟨2⟩ ⟨.pop, .none⟩) room
  have listed : (({} : Arena).run splicing).2.lines.map Line.place = [⟨2⟩, ⟨1⟩] := by
    decide +kernel
  have count : (({} : Arena).run splicing).2.slots.size = 3 := by decide +kernel
  have accepted : ((({} : Arena).run splicing).2.apply (.insertAfter ⟨2⟩ ⟨.pop, .none⟩)).1.isOk =
      true := by decide +kernel
  obtain rfl : places = [⟨2⟩, ⟨1⟩] := shows.forward.symm.trans listed
  cases answer : ((({} : Arena).run splicing).2.apply (.insertAfter ⟨2⟩ ⟨.pop, .none⟩)).1 with
  | error fault =>
    rw [answer] at accepted
    contradiction
  | ok handed =>
    rw [answer, count] at obeyed
    exact ⟨room, obeyed.2.1⟩

end InlineCil
