import InlineCil.Proofs.Arena

/-!
# Edits of an arena

Every edit of an arena that stores a body gives the answer that the body gives
and leaves an arena that stores what the edit leaves of the body. Linking and
unlinking a slot come first: both ends of the chain and the count are kept in
step there, and everything else is put together from them.

Each edit has a lemma of its own, in the form of a match on the outcome where it
can be refused. A refused edit has to be followed as well, since it may have
handed out a place before it failed.

Indices of places are bounded by the width of an index. The lemmas on edits that
hand out places assume that there is room; beyond it an arena hands out its last
index again, which a list of places could not describe.
-/

namespace InlineCil

namespace Stores

variable {a : Arena} {b : Body} {before after : List Line} {line : Line}

/-- A detached line comes in between two neighbours. This is the only place where
linking is unfolded: the caller says how the code of the body changes, and the
slots are compared with it. Proof: the slot is written first, then the two sides
of the gap are tied to it. -/
theorem link {new : Line} {code : Code} (stores : Stores a b)
    (split : b.code.linked = before ++ after) (waiting : new ∈ b.code.detached)
    (linked : code.linked = before ++ new :: after)
    (detached : code.detached = b.code.detached.filter (!·.isAt new.place))
    (next : code.next = b.code.next) :
    Stores (a.link (before.getLast?.map Line.place) new.place (after.head?.map Line.place))
      { b with code := code } := by
  let own : Slot → Slot := fun slot => { slot with
    before? := before.getLast?.map Line.place, after? := after.head?.map Line.place, linked := true }
  obtain ⟨count, size, clauses, points⟩ := (a.change new.place own).tie_rest
    (before.getLast?.map Line.place) (after.head?.map Line.place) (some new.place) (some new.place)
  have slots : (a.link (before.getLast?.map Line.place) new.place
      (after.head?.map Line.place)).slot? = tied (amend a.slot? (some new.place) own)
        (before.getLast?.map Line.place) (after.head?.map Line.place) (some new.place)
        (some new.place) := by
    rw [← Arena.slot?_change, ← Arena.slot?_tie]
    rfl
  have apart : ∀ other ∈ before ++ after, other.place ≠ new.place := fun other member =>
    Code.place_ne (split ▸ member) waiting
  refine ⟨?_, ?_, ?_, ?_, ?_, ?_, clauses.trans stores.clauses, points.trans stores.points⟩
  · rw [next, ← stores.count]
    exact count.trans (a.size_change new.place own)
  · -- The new slot belongs to neither stretch, so both are tied around it.
    have aside : ∀ other ∈ before ++ after,
        amend a.slot? (some new.place) own other.place = a.slot? other.place :=
      fun other member => amend_of_ne fun same => apart other member (Option.some.inj same).symm
    obtain ⟨front, rear⟩ := Threads.append.1 (split ▸ stores.threads)
    have around := Threads.tie
      (front.congr fun other member => aside other (List.mem_append_left after member))
      (rear.congr fun other member => aside other (List.mem_append_right before member))
      (split ▸ b.code.nodup_linked) (some new.place) (some new.place)
    rw [linked, slots]
    refine Threads.append.2 ⟨by simpa using around.1, ?_, by simpa using around.2⟩
    rw [tied_of_apart apart, amend_self, stores.apart new waiting]
    simp [own]
  · intro other member
    obtain ⟨inside, elsewhere⟩ := List.mem_filter.1 (detached ▸ member)
    have differ : other.place ≠ new.place := by simpa [Line.isAt] using elsewhere
    rw [slots, tied_of_apart fun line among => Code.place_ne (split ▸ among) inside,
      amend_of_ne fun same => differ (Option.some.inj same).symm, stores.apart other inside]
  · have first := stores.first
    rw [Code.first?, split] at first
    rw [Code.first?, linked]
    exact Arena.first_tie (a := a.change new.place own) (new :: after) _ _ first
  · have last := stores.last
    rw [Code.last?, split] at last
    rw [Code.last?, linked, List.append_cons]
    have tied := Arena.last_tie (a := a.change new.place own) (before ++ [new])
      (before.getLast?.map Line.place) (some new.place) last
    rw [List.getLast?_concat] at tied
    exact tied
  · have counted := stores.size
    rw [split, List.length_append] at counted
    refine (congrArg (· + 1) counted).trans ?_
    simp only [linked, List.length_append, List.length_cons]
    omega

/-- A linked line leaves the chain. Its neighbours come to be next to each other,
and an end of the chain that was at it moves. -/
theorem unlink (stores : Stores a b) (split : b.code.linked = before ++ line :: after) :
    (a.unlink line.place).1 = .ok line.instruction ∧
      Stores (a.unlink line.place).2 { b with code := b.code.unlink line.place } := by
  obtain ⟨count, size, clauses, points⟩ := a.tie_rest (before.getLast?.map Line.place)
    (after.head?.map Line.place) (after.head?.map Line.place) (before.getLast?.map Line.place)
  have linked := Code.linked_unlink split
  have outcome : a.unlink line.place = (.ok line.instruction,
      { (a.tie (before.getLast?.map Line.place) (after.head?.map Line.place)
          (after.head?.map Line.place) (before.getLast?.map Line.place)).change line.place
            Slot.released with size := a.size - 1 }) := by
    rw [Arena.unlink, stores.linkedSlot_of_split split]
    simp [Arena.change, size]
  have slots : (a.unlink line.place).2.slot? = amend (tied a.slot? (before.getLast?.map Line.place)
      (after.head?.map Line.place) (after.head?.map Line.place) (before.getLast?.map Line.place))
        (some line.place) Slot.released := by
    rw [← Arena.slot?_tie, ← Arena.slot?_change, outcome]
    rfl
  have apart : ∀ other ∈ before ++ after, other.place ≠ line.place := by
    obtain ⟨earlier, later⟩ := Code.apart split
    intro other member
    exact Line.isAt_eq_false.1 ((List.mem_append.1 member).elim (earlier other) (later other))
  refine ⟨by rw [outcome], ?_⟩
  refine ⟨?_, ?_, ?_, ?_, ?_, ?_, ?_, ?_⟩
  · rw [outcome]
    exact (Arena.size_change _ _ _).trans (count.trans stores.count)
  · have aside (other : Line) (member : other ∈ before ++ after) (slot? : Place → Option Slot) :
        amend slot? (some line.place) Slot.released other.place = slot? other.place :=
      amend_of_ne fun same => apart other member (Option.some.inj same).symm
    obtain ⟨front, -, rear⟩ := Threads.append.1 (split ▸ stores.threads)
    have around := Threads.tie front rear (linked ▸ (b.code.unlink line.place).nodup_linked)
      (after.head?.map Line.place) (before.getLast?.map Line.place)
    rw [linked, slots]
    refine Threads.append.2 ⟨?_, ?_⟩
    · simpa using around.1.congr fun other member =>
        aside other (List.mem_append_left after member) _
    · simpa using around.2.congr fun other member =>
        aside other (List.mem_append_right before member) _
  · intro other member
    have held := stores.slot_of_split split
    rw [Code.detached_unlink split, List.mem_cons] at member
    rcases member with rfl | member
    · rw [slots, amend_self, tied_of_apart apart, held]
      rfl
    · have among : ∀ linked ∈ before ++ after, linked.place ≠ other.place := fun near inside =>
        Code.place_ne (by rw [split]; simp at inside ⊢; tauto) member
      have elsewhere : line.place ≠ other.place := Code.place_ne (by simp [split]) member
      rw [slots, amend_of_ne fun same => elsewhere (Option.some.inj same), tied_of_apart among,
        stores.apart other member]
  · have first := stores.first
    rw [Code.first?, split] at first
    rw [outcome, Code.first?, linked]
    exact Arena.first_tie after _ _ first
  · have last := stores.last
    rw [Code.last?, split, List.append_cons] at last
    rw [outcome, Code.last?, linked]
    exact Arena.last_tie before _ _ last
  · have counted := stores.size
    rw [split, List.length_append, List.length_cons] at counted
    simp only [outcome, linked, counted, List.length_append]
    omega
  · rw [outcome]
    exact clauses.trans stores.clauses
  · rw [outcome]
    exact points.trans stores.points

/-- A place is handed out while indices last. The new slot is at the end and
every other slot is as it was, so nothing but the number of places changes. -/
theorem create (stores : Stores a b) (room : a.slots.size ≤ Arena.lastIndex) (i : Instruction) :
    (a.create i).1 = (b.create i).1 ∧ Stores (a.create i).2 (b.create i).2 := by
  have older {place : Place} (handed : place.index < b.code.next) :
      (a.create i).2.slot? place = a.slot? place := by
    have other : place.index ≠ a.slots.size := by
      have count := stores.count
      omega
    simp [Arena.create, Arena.slot?, Array.getElem?_push, other]
  have newest : (a.create i).2.slot? ⟨b.code.next⟩ = some ⟨i, none, none, false⟩ := by
    simp [Arena.create, Arena.slot?, stores.count.symm]
  constructor
  · have index : min a.slots.size Arena.lastIndex = b.code.next := by
      have count := stores.count
      omega
    simp [Arena.create, Body.create, index]
  · refine ⟨?_, ?_, ?_, stores.first, stores.last, stores.size, stores.clauses, stores.points⟩
    · simpa [Arena.create, Body.create, Code.create] using stores.count
    · exact stores.threads.congr fun line member =>
        older (Code.index_lt (List.mem_append_left b.code.detached member))
    · intro line member
      rcases List.mem_append.1 member with member | member
      · exact (older (Code.index_lt (List.mem_append_right b.code.linked member))).trans
          (stores.apart line member)
      · obtain rfl := List.mem_singleton.1 member
        exact newest

theorem linkLast {new : Line} (stores : Stores a b) (waiting : new ∈ b.code.detached) :
    Stores (a.link a.last? new.place none) { b with code := b.code.linkLast new.place } := by
  have split : b.code.linked = b.code.linked ++ [] := b.code.linked.append_nil.symm
  have linked := stores.link split waiting (Code.linked_linkLast waiting) rfl rfl
  rw [stores.last]
  exact linked

/-- A line is appended by creating it and linking it last, and both sides do the
one after the other. -/
theorem push (stores : Stores a b) (room : a.slots.size ≤ Arena.lastIndex) (i : Instruction) :
    (a.push i).1 = (b.push i).1 ∧ Stores (a.push i).2 (b.push i).2 := by
  obtain ⟨same, created⟩ := stores.create room i
  have outcome : a.push i = ((a.create i).1,
      (a.create i).2.link (a.create i).2.last? (a.create i).1 none) := rfl
  have linked := created.linkLast (b.mem_create i)
  rw [outcome, same]
  exact ⟨rfl, linked⟩

/-- A detached line comes in before a linked one, or the edit is refused as that
of the body is. A refusal leaves the arena itself unchanged and not only what it
stores. -/
theorem linkBefore (stores : Stores a b) (anchor place : Place) :
    match b.linkBefore anchor place with
    | .ok left => (a.linkBefore anchor place).1 = .ok () ∧
        Stores (a.linkBefore anchor place).2 left
    | .error fault => a.linkBefore anchor place = (.error fault, a) := by
  rw [Body.linkBefore, Arena.linkBefore, stores.contains, stores.detachedInstruction?,
    stores.before?]
  cases contained : b.code.contains anchor with
  | false => rfl
  | true =>
    cases found : b.code.detachedInstruction? place with
    | none => rfl
    | some i =>
      obtain ⟨before, line, after, rfl, split⟩ := Code.exists_split contained
      obtain ⟨new, waiting, rfl⟩ : ∃ new ∈ b.code.detached, new.place = place := by
        obtain ⟨new, here, -⟩ := Option.map_eq_some_iff.1 found
        exact ⟨new, List.mem_of_find?_eq_some here, by simpa [Line.isAt] using List.find?_some here⟩
      have linked := stores.link split waiting (Code.linked_linkBefore split waiting) rfl rfl
      refine ⟨rfl, ?_⟩
      rw [Code.before?_of_split split]
      exact linked

/-- A new line comes in before its anchor. A refused insertion still hands out
its place, and both sides then have one more place that waits. -/
theorem insertBefore (stores : Stores a b) (room : a.slots.size ≤ Arena.lastIndex)
    (anchor : Place) (i : Instruction) :
    (a.insertBefore anchor i).1 = (b.insertBefore anchor i).1 ∧
      Stores (a.insertBefore anchor i).2 (b.insertBefore anchor i).2 := by
  obtain ⟨same, created⟩ := stores.create room i
  have linked := created.linkBefore anchor (b.create i).1
  have outcome : a.insertBefore anchor i =
      (((a.create i).2.linkBefore anchor (a.create i).1).1.map fun _ => (a.create i).1,
        ((a.create i).2.linkBefore anchor (a.create i).1).2) := rfl
  rw [outcome, same]
  simp only [Body.insertBefore]
  cases answer : (b.create i).2.linkBefore anchor (b.create i).1 with
  | error fault =>
    simp only [answer] at linked
    rw [linked]
    exact ⟨rfl, created⟩
  | ok left =>
    simp only [answer] at linked
    rw [linked.1]
    exact ⟨rfl, linked.2⟩

/-- A new line comes in after its anchor. It is linked before the line after the
anchor, or at the end. Only in the second case is the anchor looked for, since a
place with a line after it is linked. -/
theorem insertAfter (stores : Stores a b) (room : a.slots.size ≤ Arena.lastIndex)
    (anchor : Place) (i : Instruction) :
    (a.insertAfter anchor i).1 = (b.insertAfter anchor i).1 ∧
      Stores (a.insertAfter anchor i).2 (b.insertAfter anchor i).2 := by
  obtain ⟨same, created⟩ := stores.create room i
  have waiting := b.mem_create i
  simp only [Body.insertAfter]
  cases next? : (b.create i).2.code.after? anchor with
  | none =>
    have outcome : a.insertAfter anchor i =
        if !(a.create i).2.contains anchor then (.error (.dangling anchor), (a.create i).2)
        else (.ok (a.create i).1, (a.create i).2.link (a.create i).2.last? (a.create i).1 none) := by
      simp only [Arena.insertAfter, created.after?, next?]
    rw [outcome, same, created.contains]
    cases contained : (b.create i).2.code.contains anchor with
    | false => exact ⟨rfl, created⟩
    | true =>
      have linked := created.linkLast waiting
      exact ⟨rfl, linked⟩
  | some next =>
    have outcome : a.insertAfter anchor i =
        (((a.create i).2.linkBefore next (a.create i).1).1.map fun _ => (a.create i).1,
          ((a.create i).2.linkBefore next (a.create i).1).2) := by
      simp only [Arena.insertAfter, created.after?, next?]
    have linked := created.linkBefore next (b.create i).1
    rw [Body.linkBefore_eq_ok.2 ⟨Code.contains_of_after? next?, ⟨_, waiting, rfl⟩, rfl⟩] at linked
    obtain ⟨accepted, stored⟩ := linked
    have contained : (b.create i).2.code.contains anchor = true := by
      by_contra absent
      simp [Code.after?_of_absent (Bool.eq_false_iff.2 absent)] at next?
    rw [outcome, same, contained]
    exact ⟨congrArg (Except.map fun _ => (b.create i).1) accepted, stored⟩

/-- References are moved in the slots as in the code. The links between slots
stay, so the stretch is the same with other instructions; detached lines keep
their targets on both sides. -/
theorem retarget (stores : Stores a b) (old : Place) (start stop : Option Place) :
    Stores (a.retarget old start stop) (b.retarget old (start.getD old) stop) := by
  have changed (place : Place) : (a.retarget old start stop).slot? place =
      (a.slot? place).map fun slot => if slot.linked then
        { slot with instruction := slot.instruction.retarget old (start.getD old) } else slot := by
    simp [Arena.retarget, Arena.slot?]
  refine ⟨?_, ?_, ?_, ?_, ?_, ?_, ?_, stores.points⟩
  · exact Array.size_map.trans stores.count
  · exact stores.threads.map (Instruction.retarget old (start.getD old)) changed
  · intro line member
    rw [changed, stores.apart line member]
    rfl
  · exact stores.first.trans (by simp [Body.retarget, Code.retarget, Code.mapLinked, Code.first?,
      Function.comp_def])
  · exact stores.last.trans (by simp [Body.retarget, Code.retarget, Code.mapLinked, Code.last?,
      Function.comp_def])
  · exact stores.size.trans (by simp [Body.retarget, Code.retarget, Code.mapLinked])
  · exact congrArg (List.map (Clause.retarget old (start.getD old) stop)) stores.clauses

/-- An instruction is overwritten in its slot, and the one before it is given
back. Neither the links nor the other slots change, and an edit of a place that
is not linked is refused alike. -/
theorem replace (stores : Stores a b) (place : Place) (i : Instruction) :
    (a.replace place i).1.map .taken = (b.taking (b.replace place i)).1 ∧
      Stores (a.replace place i).2 (b.taking (b.replace place i)).2 := by
  cases contained : b.code.contains place with
  | false =>
    rw [Arena.replace, stores.linkedSlot_of_absent contained, Body.replace,
      Code.instruction?_of_absent contained]
    exact ⟨rfl, stores⟩
  | true =>
    obtain ⟨before, line, after, rfl, split⟩ := Code.exists_split contained
    have overwritten := Code.linked_overwrite split i
    rw [Arena.replace, stores.linkedSlot_of_split split, Body.replace_of_split split]
    refine ⟨rfl, ?_, ?_, ?_, ?_, ?_, ?_, stores.clauses, stores.points⟩
    · exact (a.size_change _ _).trans stores.count
    · rw [Body.taking, overwritten, Arena.slot?_change]
      exact (split ▸ stores.threads).overwrite (split ▸ b.code.nodup_linked) i
    · intro other member
      have waiting : other ∈ b.code.detached := member
      have elsewhere : line.place ≠ other.place := Code.place_ne (by simp [split]) waiting
      rw [Arena.slot?_change, amend_of_ne fun same => elsewhere (Option.some.inj same)]
      exact stores.apart other waiting
    · refine stores.first.trans ?_
      rw [Body.taking, Code.first?, Code.first?, overwritten, split]
      cases before <;> rfl
    · refine stores.last.trans ?_
      rw [Body.taking, Code.last?, Code.last?, overwritten, split]
      cases after with
      | nil => simp
      | cons head after => simp [List.getLast?_append, List.getLast?_cons]
    · refine stores.size.trans ?_
      simp [Body.taking, overwritten, split]

/-- A linked line leaves after the references to it were moved, those in its own
instruction included. -/
theorem shed (stores : Stores a b) (split : b.code.linked = before ++ line :: after)
    (start stop : Option Place) :
    ∃ i, (b.retarget line.place (start.getD line.place) stop).instruction line.place = .ok i ∧
      ((a.retarget line.place start stop).unlink line.place).1 = .ok i ∧
      Stores ((a.retarget line.place start stop).unlink line.place).2
        { b.retarget line.place (start.getD line.place) stop with
          code := (b.retarget line.place (start.getD line.place) stop).code.unlink line.place } := by
  have moved := Body.split_retarget split (start.getD line.place) stop
  have found := Code.instruction?_of_split moved
  have gone := (stores.retarget line.place start stop).unlink moved
  rw [Line.place_moveTargets] at found gone
  exact ⟨_, Body.instruction_eq_ok.2 found, gone⟩

/-- A waiting line takes the position of a linked one: it is linked in front of it,
references are moved, and the other one is unlinked. -/
theorem replaceWith (stores : Stores a b) (old new : Place) :
    (a.replaceWith old new).1.map .taken = (b.taking (b.replaceWith old new)).1 ∧
      Stores (a.replaceWith old new).2 (b.taking (b.replaceWith old new)).2 := by
  have linked := stores.linkBefore old new
  cases answer : b.linkBefore old new with
  | error fault =>
    simp only [answer] at linked
    simp only [Arena.replaceWith, linked, Body.replaceWith, answer, bind, Except.bind]
    exact ⟨rfl, stores⟩
  | ok middle =>
    simp only [answer] at linked
    obtain ⟨contained, ⟨line, waiting, rfl⟩, rfl⟩ := Body.linkBefore_eq_ok.1 answer
    obtain ⟨before, old, after, rfl, split⟩ := Code.exists_split contained
    have placed : { b with code := b.code.linkBefore old.place line.place : Body }.code.linked =
        (before ++ [line]) ++ old :: after := by
      simpa using Code.linked_linkBefore split waiting
    obtain ⟨accepted, stored⟩ := linked
    obtain ⟨i, found, taken, left⟩ := stored.shed placed (some line.place) (some line.place)
    have outcome : a.replaceWith old.place line.place =
        ((a.linkBefore old.place line.place).2.retarget old.place (some line.place)
          (some line.place)).unlink old.place := by
      rw [Arena.replaceWith, ← Prod.eta (a.linkBefore old.place line.place), accepted]
    simp only [Option.getD_some] at found left
    simp only [outcome, taken, Body.replaceWith, answer, bind, Except.bind, found]
    exact ⟨rfl, left⟩

/-- Moving references from a place that nothing names moves none, not even ends
of regions. So the arena may always move references before it unlinks a line,
where the body does so only when there is another line. -/
theorem retarget_unnamed {place : Place} (unnamed : b.refersTo place = false) :
    b.retarget place place none = b := by
  obtain ⟨-, borders⟩ := Body.not_named unnamed
  have still : single place place = id := funext fun other => by
    by_cases here : other = place <;> simp [single, here]
  have code : b.code.retarget place place = b.code := by
    have linked : (b.code.retarget place place).linked = b.code.linked := by
      rw [Code.linked_retarget, still,
        show Line.moveTargets id = id from funext Line.moveTargets_id, List.map_id]
    cases found : b.code with
    | mk => simpa [found, Code.retarget, Code.mapLinked] using linked
  have clauses : b.clauses.map (Clause.retarget place place none) = b.clauses := by
    refine (List.map_congr_left fun clause member => ?_).trans (List.map_id b.clauses)
    rw [Clause.retarget_eq_moveBorders, still]
    refine (Clause.moveBorders_congr (fun _ _ => rfl) fun border named => ?_).trans
      clause.moveBorders_id
    have apart : border ≠ place := fun same =>
      borders clause member (same ▸ Clause.mem_borders.2 (.inr named))
    simp [singleEnd, apart]
  rw [Body.retarget, code, clauses]

/-- A line leaves and its references go to a neighbour. If it is the only one, it
leaves only if nothing refers to it, so that no reference has to be moved. -/
theorem remove (stores : Stores a b) (place : Place) :
    (a.remove place).1.map .taken = (b.taking (b.remove place)).1 ∧
      Stores (a.remove place).2 (b.taking (b.remove place)).2 := by
  cases contained : b.code.contains place with
  | false =>
    simp only [Arena.remove, Body.remove, stores.contains, contained]
    exact ⟨rfl, stores⟩
  | true =>
    obtain ⟨before, line, after, rfl, split⟩ := Code.exists_split contained
    simp only [Arena.remove, stores.contains, contained, stores.after?, stores.before?,
      stores.refersTo, Body.remove, Code.after?_of_split split, Code.before?_of_split split]
    cases heir : (after.head?.map Line.place).or (before.getLast?.map Line.place) with
    | none =>
      cases referred : b.refersTo line.place with
      | true => exact ⟨rfl, stores⟩
      | false =>
        obtain ⟨noNext, -⟩ := Option.or_eq_none_iff.1 heir
        obtain ⟨i, found, taken, left⟩ := stores.shed split none none
        rw [Option.getD_none, retarget_unnamed referred] at found left
        simp only [noNext, found, bind, Except.bind]
        exact ⟨congrArg (Except.map Answer.taken) taken, left⟩
    | some start =>
      obtain ⟨i, found, taken, left⟩ := stores.shed split (some start) (after.head?.map Line.place)
      rw [Option.getD_some] at found left
      simp only [found, bind, Except.bind]
      exact ⟨congrArg (Except.map Answer.taken) taken, left⟩

/-- Clearing an arena leaves nothing linked, no clauses and no points. The slots
stay, with their links released, so the places handed out before are not handed
out again. -/
theorem clear (stores : Stores a b) : Stores a.clear b.clear := by
  have released (place : Place) : a.clear.slot? place = (a.slot? place).map Slot.released := by
    simp [Arena.clear, Arena.slot?]
  refine ⟨Array.size_map.trans stores.count, trivial, ?_, rfl, rfl, rfl, rfl, rfl⟩
  intro line member
  rcases List.mem_append.1 member with linked | waiting
  · obtain ⟨before, after, split⟩ := List.mem_iff_append.1 linked
    rw [released, stores.slot_of_split split]
    rfl
  · rw [released, stores.apart line waiting]
    rfl

/-- An edit of an arena answers like the edit of the body it stores, and what is
left of the body is stored in what is left of the arena. -/
theorem apply (stores : Stores a b) (room : a.slots.size ≤ Arena.lastIndex) (edit : Edit) :
    (a.apply edit).1 = (b.apply edit).1 ∧ Stores (a.apply edit).2 (b.apply edit).2 := by
  cases edit with
  | push i =>
    obtain ⟨same, stored⟩ := stores.push room i
    exact ⟨congrArg (Except.ok ∘ Answer.handed) same, stored⟩
  | create i =>
    obtain ⟨same, stored⟩ := stores.create room i
    exact ⟨congrArg (Except.ok ∘ Answer.handed) same, stored⟩
  | insertBefore anchor i =>
    obtain ⟨same, stored⟩ := stores.insertBefore room anchor i
    exact ⟨congrArg (Except.map Answer.handed) same, stored⟩
  | insertAfter anchor i =>
    obtain ⟨same, stored⟩ := stores.insertAfter room anchor i
    exact ⟨congrArg (Except.map Answer.handed) same, stored⟩
  | linkBefore anchor place =>
    have linked := stores.linkBefore anchor place
    simp only [Body.apply, Arena.apply]
    cases answer : b.linkBefore anchor place with
    | error fault =>
      simp only [answer] at linked
      rw [linked]
      exact ⟨rfl, stores⟩
    | ok left =>
      simp only [answer] at linked
      rw [linked.1]
      exact ⟨rfl, linked.2⟩
  | replace place i => exact stores.replace place i
  | replaceWith old new => exact stores.replaceWith old new
  | remove place => exact stores.remove place
  | clear => exact ⟨rfl, stores.clear⟩

end Stores

end InlineCil
