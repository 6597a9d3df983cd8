import InlineCil.Proofs.Edits
import InlineCil.Proofs.Pass
import Mathlib.Data.List.Find

/-!
# What upkeep does to debug points

Two operations change debug points. Collapsing a site takes the points off it and
leaves one of them to what is left in its position; the points off the site stay,
and at most one of them is widened. Finishing drops the points off the code and
brings the others into program order. Seen from a place off the site, neither
does anything but widen the first point there: this is what a place keeps from
beginning to end.

`PointMap.Collapses` says what collapsing may come to, in three cases: all points
of the site are dropped, one of them is moved to the target, or one is merged
into the point of an instruction that modifies the target. The later modules use
these cases and not the operation.

The first point at a place is the one that counts, as finishing drops all others
there. `first?` looks it up, and each step is shown to leave it or to widen it.
Widening is expressed by `DebugPoint.Covers`, a preorder, so what a whole pass
does to a point is composed of what its steps do.
-/

namespace InlineCil

/-- Sorting leaves elements that are level with one another in their order.
Proof: they are a sorted part of the list before, and sorting keeps sorted parts. -/
theorem filter_mergeSort_of_level {α : Type} {le : α → α → Bool} {keep : α → Bool}
    (trans : ∀ a b c, le a b = true → le b c = true → le a c = true)
    (total : ∀ a b, (le a b || le b a) = true)
    (level : ∀ a, keep a = true → ∀ b, keep b = true → le a b = true) (items : List α) :
    (items.mergeSort le).filter keep = items.filter keep := by
  have ordered : (items.filter keep).Pairwise fun a b => le a b = true :=
    List.pairwise_of_forall_mem_list fun a here b there =>
      level a (List.mem_filter.1 here).2 b (List.mem_filter.1 there).2
  have part := (List.sublist_mergeSort trans total ordered List.filter_sublist).filter keep
  simp only [List.filter_filter, Bool.and_self] at part
  have count := ((List.mergeSort_perm items le).filter keep).length_eq
  exact (part.eq_of_length count.symm).symm

/-- The point covers what another one covers, in the same document. -/
structure DebugPoint.Covers (q p : DebugPoint) : Prop where
  document : q.document = p.document
  start : p.start.before q.start = false
  stop : q.stop.before p.stop = false

namespace SourcePosition

variable {a b c : SourcePosition}

theorem before_iff : a.before b = true ↔ a.line < b.line ∨ a.line = b.line ∧ a.column < b.column := by
  simp [before]

/-- One position is not before another if it is at the other or after it. -/
theorem before_eq_false_iff :
    a.before b = false ↔ b.line < a.line ∨ b.line = a.line ∧ b.column ≤ a.column := by
  rw [← Bool.not_eq_true, before_iff]
  omega

theorem before_eq_false_of_before (earlier : a.before b = true) : b.before a = false := by
  rw [before_iff] at earlier
  rw [before_eq_false_iff]
  omega

theorem not_before_trans (first : a.before b = false) (second : b.before c = false) :
    a.before c = false := by
  rw [before_eq_false_iff] at *
  omega

end SourcePosition

namespace DebugPoint

variable {p q r : DebugPoint}

theorem Covers.refl (p : DebugPoint) : p.Covers p :=
  have same (a : SourcePosition) : a.before a = false :=
    SourcePosition.before_eq_false_iff.2 (.inr ⟨rfl, Nat.le_refl _⟩)
  ⟨rfl, same _, same _⟩

/-- Covering is transitive, so a point may be widened more than once. -/
theorem Covers.trans (first : q.Covers p) (second : r.Covers q) : r.Covers p where
  document := second.document.trans first.document
  start := SourcePosition.not_before_trans first.start second.start
  stop := SourcePosition.not_before_trans second.stop first.stop

@[simp] theorem place_extended (p other : DebugPoint) : (p.extended other).place = p.place := by
  unfold extended
  split <;> rfl

/-- A widened point covers what it covered: its start goes back and its stop goes
on, if at all. The place and the document stay in every case. -/
theorem covers_extended (p other : DebugPoint) : (p.extended other).Covers p := by
  unfold extended
  split
  · exact .refl p
  · refine ⟨rfl, ?_, ?_⟩
    · dsimp only
      split
      · next earlier => exact SourcePosition.before_eq_false_of_before earlier
      · exact (Covers.refl p).start
    · dsimp only
      split
      · next later => exact SourcePosition.before_eq_false_of_before later
      · exact (Covers.refl p).stop

end DebugPoint

namespace PointMap

/-- The points that are not on a site. -/
def offSite (site : List Place) (points : List DebugPoint) : List DebugPoint :=
  points.filter fun p => !site.contains p.place

/-- The instruction at a place modifies the one at the target right after it. -/
def Modifies (b : Body) (place target : Place) : Prop :=
  b.code.before? target = some place ∧
    ∃ i, b.code.instruction? place = some i ∧ i.opcode.modifiesNext = true

/-- What becomes of points when a site is collapsed onto a target. Those off the
site stay. Those on it are dropped, unless one of them is moved to the target,
which is on the site or has no point, or merged into the point of an instruction
that modifies the target. -/
inductive Collapses (b : Body) (site : List Place) (target : Option Place)
    (points : List DebugPoint) : List DebugPoint → Prop where
  | dropped (needless : ∀ p ∈ points, p.place ∈ site → ∀ place, target = some place →
      place ∉ site ∧ ∃ own ∈ points, own.place = place) :
      Collapses b site target points (offSite site points)
  | moved {p : DebugPoint} {place : Place} (among : p ∈ points) (onSite : p.place ∈ site)
      (left : target = some place)
      (free : place ∈ site ∨ ∀ own ∈ points, own.place ≠ place) :
      Collapses b site target points (offSite site points ++ [p.movedTo place])
  | merged {p point : DebugPoint} {place : Place} {front back : List DebugPoint}
      (among : p ∈ points) (onSite : p.place ∈ site) (left : target = some place)
      (modifies : Modifies b point.place place)
      (parts : offSite site points = front ++ point :: back) :
      Collapses b site target points (front ++ point.extended p :: back)

variable {b : Body} {site : List Place} {target : Option Place} {place x : Place}
  {points result : List DebugPoint} {p q other : DebugPoint}

theorem mem_offSite : p ∈ offSite site points ↔ p ∈ points ∧ p.place ∉ site := by
  simp [offSite]

/-- The point that stands for a site is one of its points. It is the first of
all, or found among the visible ones by keeping the better of two at each step. -/
theorem mem_of_earliest? (found : earliest? points = some p) : p ∈ points := by
  have chosen (best : DebugPoint) (rest : List DebugPoint) :
      rest.foldl (fun best p => if p.start.before best.start then p else best) best ∈
        best :: rest := by
    induction rest generalizing best with
    | nil => exact List.mem_singleton_self _
    | cons next rest ih =>
      rw [List.foldl_cons]
      split
      · exact List.mem_cons_of_mem _ (ih next)
      · exact List.mem_cons.2 ((List.mem_cons.1 (ih best)).imp_right (List.mem_cons_of_mem _))
  unfold earliest? at found
  split at found
  · exact List.mem_of_head? found
  · next visible rest visibles =>
    obtain rfl := Option.some.inj found
    exact List.mem_of_mem_filter (visibles ▸ chosen visible rest)

theorem eq_nil_of_earliest? (missing : earliest? points = none) : points = [] := by
  unfold earliest? at missing
  split at missing
  · exact List.head?_eq_none_iff.1 missing
  · simp at missing

/-- If there is a point at the place, widening acts on the first one of them and
on no other. -/
theorem widen_eq (carries : ∃ own ∈ points, own.place = place) (other : DebugPoint) :
    ∃ front point back, points = front ++ point :: back ∧ point.place = place ∧
      widen place other points = front ++ point.extended other :: back := by
  induction points with
  | nil => simp at carries
  | cons p rest ih =>
    unfold widen
    split
    · next here => exact ⟨[], p, rest, rfl, here, rfl⟩
    · next elsewhere =>
      obtain ⟨front, point, back, rfl, there, widened⟩ := ih (by simpa [elsewhere] using carries)
      exact ⟨p :: front, point, back, rfl, there, by rw [widened]; rfl⟩

/-- What is looked up before a target modifies it and has a point. -/
theorem modifies_of_prefixWithPoint? {target : Place}
    (found : prefixWithPoint? b target = some place) :
    Modifies b place target ∧ ∃ own ∈ b.points, own.place = place := by
  obtain ⟨nearest, fits⟩ := Option.filter_eq_some_iff.1 found
  obtain ⟨modifies, carries⟩ := Bool.and_eq_true_iff.1 fits
  exact ⟨⟨nearest, (Option.any_eq_true _ _).1 modifies⟩, by simpa using carries⟩

/-- Collapsing does what it is meant to do, in one of the three cases: the points
of the site are dropped, one of them is moved to the target, or one is merged
into a prefix. -/
theorem collapses_collapse (b : Body) (site : List Place) (target : Option Place) :
    Collapses b site target b.points (collapse b site target).points := by
  unfold collapse
  dsimp only
  split
  · next place p standing =>
    obtain ⟨among, onSite⟩ := List.mem_filter.1 (mem_of_earliest? standing)
    replace onSite : p.place ∈ site := by simpa using onSite
    split
    · next owned =>
      have owned : place ∉ site ∧ ∃ own ∈ b.points, own.place ∉ site ∧ own.place = place := by
        simpa [and_assoc] using owned
      obtain ⟨outside, own, held, -, here⟩ := owned
      refine .dropped fun _ _ _ _ left => ?_
      obtain rfl := Option.some.inj left
      exact ⟨outside, own, held, here⟩
    next free =>
    split
    · next before found =>
      obtain ⟨modifies, carries⟩ := modifies_of_prefixWithPoint? found
      obtain ⟨front, point, back, parts, rfl, widened⟩ := widen_eq carries p
      dsimp only at parts widened ⊢
      rw [widened]
      exact .merged among onSite rfl modifies parts
    · next nothing =>
      refine .moved among onSite rfl ?_
      by_cases inside : place ∈ site
      · exact .inl inside
      · refine .inr fun own held here => free ?_
        simpa [inside] using ⟨own, held, here ▸ inside, here⟩
  · next absent =>
    refine .dropped fun p among onSite place left => ?_
    cases standing : earliest? (b.points.filter fun p => site.contains p.place) with
    | some point => exact (absent place point left standing).elim
    | none =>
      have here : p ∈ b.points.filter fun p => site.contains p.place := by
        simpa using ⟨among, onSite⟩
      rw [eq_nil_of_earliest? standing] at here
      simp at here

/-- Only what is on the site matters, not in which order. The rules list the
places of a site in different orders, depending on what they remove first. -/
theorem Collapses.congr {order : List Place} (collapses : Collapses b order target points result)
    (same : ∀ place, place ∈ order ↔ place ∈ site) : Collapses b site target points result := by
  have stay : offSite order points = offSite site points :=
    List.filter_congr fun p _ => by simp [same]
  cases collapses with
  | dropped needless =>
    rw [stay]
    refine .dropped fun p among onSite place left => ?_
    obtain ⟨outside, owned⟩ := needless p among ((same _).2 onSite) place left
    exact ⟨fun inside => outside ((same _).2 inside), owned⟩
  | moved among onSite left free =>
    rw [stay]
    exact .moved among ((same _).1 onSite) left (free.imp_left (same _).1)
  | merged among onSite left modifies parts =>
    exact .merged among ((same _).1 onSite) left modifies (stay ▸ parts)

theorem Collapses.of_code {left : Body} (collapses : Collapses b site target points result)
    (code : left.code = b.code) : Collapses left site target points result := by
  cases collapses with
  | dropped needless => exact .dropped needless
  | moved among onSite there free => exact .moved among onSite there free
  | merged among onSite there modifies parts =>
    exact .merged among onSite there (by simpa [Modifies, code] using modifies) parts

/-- A site that carries a point leaves one at its target, or right before it at an
instruction that modifies the target. -/
theorem Collapses.carries (collapses : Collapses b site target points result) (among : p ∈ points)
    (onSite : p.place ∈ site) (left : target = some place) :
    ∃ q ∈ result, q.place = place ∨ Modifies b q.place place := by
  cases collapses with
  | dropped needless =>
    obtain ⟨outside, own, held, rfl⟩ := needless p among onSite place left
    exact ⟨own, mem_offSite.2 ⟨held, outside⟩, .inl rfl⟩
  | @moved other there _ _ also _ =>
    obtain rfl := Option.some.inj (left.symm.trans also)
    exact ⟨_, List.mem_append_right _ (List.mem_singleton_self _), .inl rfl⟩
  | @merged other point there front back _ _ also modifies _ =>
    obtain rfl := Option.some.inj (left.symm.trans also)
    exact ⟨_, List.mem_append_right _ List.mem_cons_self, .inr (by simpa using modifies)⟩

/-- The first point at a place. -/
def first? (x : Place) (points : List DebugPoint) : Option DebugPoint :=
  points.find? (·.place = x)

theorem place_of_first? (found : first? x points = some p) : p.place = x := by
  simpa using List.find?_some found

/-- The first point of two lists is the first one of the first list that has any. -/
theorem first?_append (points more : List DebugPoint) :
    first? x (points ++ more) = (first? x points).or (first? x more) := List.find?_append

/-- Dropping points at other places leaves the first one at a place. The filter
has to keep every point that is there. -/
theorem first?_filter {keep : DebugPoint → Bool} (keeps : ∀ p, p.place = x → keep p = true) :
    first? x (points.filter keep) = first? x points := by
  unfold first?
  rw [List.find?_filter]
  refine List.find?_congr fun p _ => ?_
  by_cases here : p.place = x
  · simp [here, keeps p here]
  · simp [here]

/-- Widening a point leaves the first point at each place, or widens it. So what
was the first point at a place is covered by what is first there now. -/
theorem first?_widened {front back : List DebugPoint} {point : DebugPoint}
    (found : first? x (front ++ point :: back) = some p) (other : DebugPoint) :
    ∃ q, first? x (front ++ point.extended other :: back) = some q ∧ q.Covers p := by
  rw [first?_append] at found ⊢
  cases earlier : first? x front with
  | some q =>
    rw [earlier, Option.some_or] at found
    rw [Option.some_or]
    exact ⟨q, rfl, Option.some.inj found ▸ .refl q⟩
  | none =>
    rw [earlier, Option.none_or] at found
    rw [Option.none_or]
    unfold first? at found ⊢
    by_cases here : point.place = x
    · rw [List.find?_cons_of_pos (by simpa using here)] at found
      obtain rfl := Option.some.inj found
      exact ⟨_, List.find?_cons_of_pos (by simpa using here), point.covers_extended other⟩
    · rw [List.find?_cons_of_neg (by simpa using here)] at found ⊢
      exact ⟨p, found, .refl p⟩

/-- The first point at a place off the site stays the first one, and covers what it
covered. A point that is moved comes last, and only to a target that has none. -/
theorem Collapses.first? (collapses : Collapses b site target points result) (outside : x ∉ site)
    (found : first? x points = some p) : ∃ q, first? x result = some q ∧ q.Covers p := by
  have stays : PointMap.first? x (offSite site points) = some p :=
    (first?_filter fun p here => by simp [here, outside]).trans found
  cases collapses with
  | dropped => exact ⟨p, stays, .refl p⟩
  | moved => exact ⟨p, by rw [first?_append, stays, Option.some_or], .refl p⟩
  | @merged other point _ front back =>
    next parts =>
    rw [parts] at stays
    exact first?_widened stays other

/-- Dropping repeats drops points and keeps the order of the others. By induction
on the points, from the last one forward. -/
theorem withoutRepeats_sublist (points : List DebugPoint) :
    (withoutRepeats points).Sublist points := by
  induction points with
  | nil => exact List.Sublist.slnil
  | cons p rest ih =>
    unfold withoutRepeats
    split
    · exact List.Sublist.cons_cons p (List.nil_sublist _)
    · next q others same =>
      rw [same] at ih
      split
      · exact ((List.sublist_cons_self q others).trans ih).cons_cons p
      · exact ih.cons_cons p

/-- The first point at each place is not dropped. Repeats are dropped from the
end forward, and of two neighbours at one place the earlier stays. -/
theorem first?_withoutRepeats (points : List DebugPoint) (x : Place) :
    first? x (withoutRepeats points) = first? x points := by
  induction points with
  | nil => rfl
  | cons p rest ih =>
    unfold first? at ih ⊢
    rw [List.find?_cons, ← ih, withoutRepeats]
    split
    · next nothing => rw [nothing, List.find?_cons]
    · next q others same =>
      rw [same]
      split
      · next together =>
        rw [List.find?_cons, List.find?_cons, together]
        cases decide (q.place = x) <;> rfl
      · rw [List.find?_cons]

/-- The positions of sorted points ascend once repeats are dropped, if two points
have the same position exactly if they have the same place. -/
theorem ascending_withoutRepeats {position : DebugPoint → Nat} {points : List DebugPoint}
    (faithful : ∀ p ∈ points, ∀ q ∈ points, position p = position q ↔ p.place = q.place)
    (sorted : points.Pairwise fun p q => position p ≤ position q) :
    (withoutRepeats points).Pairwise fun p q => position p < position q := by
  induction points with
  | nil => exact List.Pairwise.nil
  | cons p rest ih =>
    obtain ⟨least, sorted⟩ := List.pairwise_cons.1 sorted
    have rises := ih (fun a inside b among =>
      faithful a (List.mem_cons_of_mem _ inside) b (List.mem_cons_of_mem _ among)) sorted
    have part := withoutRepeats_sublist rest
    rw [withoutRepeats]
    split
    · exact List.pairwise_singleton _ _
    · next q others same =>
      rw [same] at rises part
      obtain ⟨next, rises⟩ := List.pairwise_cons.1 rises
      have among : q ∈ rest := part.subset List.mem_cons_self
      have level := faithful p List.mem_cons_self q (List.mem_cons_of_mem _ among)
      split
      · next together =>
        exact List.pairwise_cons.2 ⟨fun r later => level.2 together ▸ next r later, rises⟩
      · next elsewhere =>
        have below : position p < position q :=
          Nat.lt_of_le_of_ne (least q among) fun even => elsewhere (level.1 even)
        refine List.pairwise_cons.2 ⟨fun r later => ?_, List.pairwise_cons.2 ⟨next, rises⟩⟩
        rcases List.mem_cons.1 later with rfl | later
        · exact below
        · exact Nat.lt_trans below (next r later)

/-- The points that are on the code. -/
def onCode (b : Body) : List DebugPoint := b.points.filter (b.code.contains ·.place)

/-- Where a point is in the code. -/
def rank (b : Body) (p : DebugPoint) : Nat := b.code.places.idxOf p.place

theorem mem_onCode : p ∈ onCode b ↔ p ∈ b.points ∧ p.place ∈ b.code.places := by
  simp [onCode, Code.contains_iff]

/-- Finishing sorts the points that are on the code and drops repeats. The rank
of a point is the position of its place, which every point on the code has. -/
theorem points_finish (b : Body) :
    (finish b).points = withoutRepeats ((onCode b).mergeSort fun p q => rank b p ≤ rank b q) := by
  have position {p : DebugPoint} (among : p ∈ onCode b) :
      (b.position? p.place).getD 0 = rank b p := by
    have linked : (b.code.places.idxOf? p.place).isSome := List.isSome_idxOf?.2 (mem_onCode.1 among).2
    obtain ⟨i, found⟩ := Option.isSome_iff_exists.1 linked
    rw [Body.position?, rank, List.idxOf_eq_getD_idxOf?, found]
    rfl
  have alone : ((onCode b).map fun p => (b.position? p.place, p)).map Prod.snd = onCode b := by
    simp [Function.comp_def]
  refine congrArg withoutRepeats ?_
  have sorted := @List.map_mergeSort _ _ (fun a b => a.1.getD 0 ≤ b.1.getD 0)
    (fun p q => rank b p ≤ rank b q) Prod.snd ((onCode b).map fun p => (b.position? p.place, p)) ?_
  · rw [alone] at sorted
    exact sorted
  · intro one member other among
    obtain ⟨p, here, rfl⟩ := List.mem_map.1 member
    obtain ⟨q, there, rfl⟩ := List.mem_map.1 among
    rw [position here, position there]

theorem rank_trans (b : Body) (p q r : DebugPoint) (first : decide (rank b p ≤ rank b q) = true)
    (second : decide (rank b q ≤ rank b r) = true) : decide (rank b p ≤ rank b r) = true := by
  simp only [decide_eq_true_eq] at *
  exact Nat.le_trans first second

theorem rank_total (b : Body) (p q : DebugPoint) :
    (decide (rank b p ≤ rank b q) || decide (rank b q ≤ rank b p)) = true := by
  simpa using Nat.le_total (rank b p) (rank b q)

theorem mem_places_of_finish (among : p ∈ (finish b).points) : p.place ∈ b.code.places := by
  rw [points_finish] at among
  have sorted := (withoutRepeats_sublist _).subset among
  exact (mem_onCode.1 ((List.mergeSort_perm _ _).mem_iff.1 sorted)).2

/-- It is in the order of the code, one point to a place. Sorting brings points
at one place together, and then repeats are neighbours. -/
theorem ascending_finish (b : Body) :
    (finish b).points.Pairwise fun p q => rank b p < rank b q := by
  rw [points_finish]
  refine ascending_withoutRepeats (fun p here q _ => ?_) ?_
  · have linked := mem_onCode.1 ((List.mergeSort_perm _ _).mem_iff.1 here)
    exact List.idxOf_inj linked.2
  · have sorted := List.pairwise_mergeSort (rank_trans b) (rank_total b) (onCode b)
    simpa using sorted

/-- The first point at each place of the code is kept: sorting leaves points at
one place in their order, and dropping repeats leaves the first of them. -/
theorem first?_finish (linked : x ∈ b.code.places) :
    first? x (finish b).points = first? x b.points := by
  -- The points at the place are level with one another, so sorting leaves them in their order.
  have level (p : DebugPoint) (here : decide (p.place = x) = true) (q : DebugPoint)
      (there : decide (q.place = x) = true) : decide (rank b p ≤ rank b q) = true := by
    simp only [decide_eq_true_eq] at here there
    simp [rank, here, there]
  have same := filter_mergeSort_of_level (rank_trans b) (rank_total b) level (onCode b)
  rw [points_finish, first?_withoutRepeats]
  calc first? x ((onCode b).mergeSort fun p q => rank b p ≤ rank b q)
      = first? x (onCode b) := by
        unfold first?
        rw [← List.head?_filter, same, List.head?_filter]
    _ = first? x b.points := first?_filter fun p here => Code.contains_iff.2 (here ▸ linked)

end PointMap

end InlineCil
