import InlineCil.Proofs.Outcome
import InlineCil.Proofs.Points
import Mathlib.Data.List.Induction

/-!
# Locating diagnostics

A diagnostic about an instruction points to the nearest visible debug point at or
before it. The locator sorts the points once, before anything is rewritten, and a
search in it halves its way to a position. What it finds is what a plain scan of
the points in their stored order finds: sorting keeps points at one place in
their order, so the last one stored stays the last one there. The diagnostics of
a method are located in its body as it was before the pass, whatever has become
of the body since.

Scanning is treated first, on entries of any kind. `Nearest` says which entry is
meant without an order of search, and a scan is shown to find it; hence sorting
makes no difference. For sorted entries the same one is the last of those at or
before the limit, which is what halving finds.

`Body.Heads` states the result for debug points themselves: visible, at or before
the position, none farther on, and the last one stored of those at the same
place. A hidden point or one that is off the code locates nothing.
-/

namespace InlineCil

namespace SourceLocator

variable {α : Type} {limit : Nat} {e : Nat × α} {entries : List (Nat × α)}

/-- One step of a scan: an entry at or before the limit takes the place of what
was found so far, unless that is farther on. -/
def nearer (limit : Nat) (found : Option (Nat × α)) (e : Nat × α) : Option (Nat × α) :=
  if e.1 ≤ limit ∧ ∀ best ∈ found, best.1 ≤ e.1 then some e else found

/-- The entry that a scan ends with. -/
def nearest? (limit : Nat) (entries : List (Nat × α)) : Option (Nat × α) :=
  entries.foldl (nearer limit) none

/-- No entry at or before the limit is farther on than this one, and none at the
same position comes after it. -/
structure Nearest (limit : Nat) (entries : List (Nat × α)) (e : Nat × α) : Prop where
  within : e.1 ≤ limit
  greatest : ∀ other ∈ entries, other.1 ≤ limit → other.1 ≤ e.1
  last : (entries.filter (·.1 = e.1)).getLast? = some e

theorem nearest?_concat (limit : Nat) (entries : List (Nat × α)) (e : Nat × α) :
    nearest? limit (entries ++ [e]) = nearer limit (nearest? limit entries) e := by
  simp [nearest?, List.foldl_append]

theorem Nearest.mem (nearest : Nearest limit entries e) : e ∈ entries :=
  List.mem_of_mem_filter (List.mem_of_getLast? nearest.last)

/-- There is one nearest entry at most: two would be at one position, and both
would be the last one there. -/
theorem Nearest.unique {other : Nat × α} (first : Nearest limit entries e)
    (second : Nearest limit entries other) : e = other := by
  have level : e.1 = other.1 :=
    Nat.le_antisymm (second.greatest e first.mem first.within)
      (first.greatest other second.mem second.within)
  have last := first.last
  rw [level, second.last] at last
  exact (Option.some.inj last).symm

/-- A later entry that is at least as far on becomes the nearest one. At the same
position it comes after the former, and the last one counts. -/
theorem Nearest.concat (within : e.1 ≤ limit)
    (behind : ∀ other ∈ entries, other.1 ≤ limit → other.1 ≤ e.1) :
    Nearest limit (entries ++ [e]) e where
  within := within
  greatest := by
    intro other among below
    rcases List.mem_append.1 among with earlier | last
    · exact behind other earlier below
    · obtain rfl := List.mem_singleton.1 last
      exact Nat.le_refl _
  last := by simp

/-- A later entry that is beyond the limit or behind the nearest one changes
nothing. An entry at the same position would replace it, as later entries win. -/
theorem Nearest.skip {other : Nat × α} (nearest : Nearest limit entries e)
    (passed : limit < other.1 ∨ other.1 < e.1) : Nearest limit (entries ++ [other]) e where
  within := nearest.within
  greatest := by
    intro third among below
    rcases List.mem_append.1 among with earlier | last
    · exact nearest.greatest third earlier below
    · obtain rfl := List.mem_singleton.1 last
      omega
  last := by
    have within := nearest.within
    have elsewhere : other.1 ≠ e.1 := by omega
    simpa [List.filter_append, elsewhere] using nearest.last

/-- What a scan has found is nearest, and if it has found nothing it has passed
nothing at or before the limit. By induction on the entries passed. -/
theorem nearest?_spec (limit : Nat) (entries : List (Nat × α)) :
    match nearest? limit entries with
    | some e => Nearest limit entries e
    | none => ∀ other ∈ entries, limit < other.1 := by
  induction entries using List.reverseRecOn with
  | nil =>
    intro other among
    simp at among
  | append_singleton entries e ih =>
    rw [nearest?_concat, nearer]
    cases found : nearest? limit entries with
    | none =>
      rw [found] at ih
      by_cases within : e.1 ≤ limit
      · rw [if_pos (by simpa using within)]
        refine .concat within fun other among below => ?_
        have beyond : limit < other.1 := ih other among
        omega
      · rw [if_neg (by simpa using within)]
        intro other among
        rcases List.mem_append.1 among with earlier | last
        · exact ih other earlier
        · obtain rfl := List.mem_singleton.1 last
          omega
    | some best =>
      rw [found] at ih
      have nearest : Nearest limit entries best := ih
      by_cases takes : e.1 ≤ limit ∧ best.1 ≤ e.1
      · rw [if_pos (by simpa using takes)]
        exact .concat takes.1 fun other among below =>
          Nat.le_trans (nearest.greatest other among below) takes.2
      · rw [if_neg (by simpa using takes)]
        exact nearest.skip (by omega)

/-- So a scan finds exactly the nearest entry. There is at most one, since of
several at the greatest position the last one is meant. -/
theorem nearest?_eq_some_iff : nearest? limit entries = some e ↔ Nearest limit entries e := by
  have spec := nearest?_spec limit entries
  constructor
  · intro found
    rwa [found] at spec
  · intro nearest
    cases found : nearest? limit entries with
    | none =>
      rw [found] at spec
      have beyond : limit < e.1 := spec e nearest.mem
      have within := nearest.within
      omega
    | some other =>
      rw [found] at spec
      rw [nearest.unique spec]

/-- Sorting by position changes nothing of what a scan finds, for it keeps
entries at one position in their order. -/
theorem nearest?_mergeSort (limit : Nat) (entries : List (Nat × α)) :
    nearest? limit (entries.mergeSort fun a b => a.1 ≤ b.1) = nearest? limit entries := by
  have trans (a b c : Nat × α) (first : decide (a.1 ≤ b.1) = true)
      (second : decide (b.1 ≤ c.1) = true) : decide (a.1 ≤ c.1) = true := by
    simp only [decide_eq_true_eq] at *
    omega
  have total (a b : Nat × α) : (decide (a.1 ≤ b.1) || decide (b.1 ≤ a.1)) = true := by
    simpa using Nat.le_total a.1 b.1
  have level (position : Nat) (a : Nat × α) (here : decide (a.1 = position) = true) (b : Nat × α)
      (there : decide (b.1 = position) = true) : decide (a.1 ≤ b.1) = true := by
    simp only [decide_eq_true_eq] at *
    omega
  refine Option.ext fun e => ?_
  have stays := filter_mergeSort_of_level trans total (level e.1) entries
  rw [nearest?_eq_some_iff, nearest?_eq_some_iff]
  constructor
  · intro nearest
    exact ⟨nearest.within, fun other among => nearest.greatest other (List.mem_mergeSort.2 among),
      stays ▸ nearest.last⟩
  · intro nearest
    exact ⟨nearest.within, fun other among => nearest.greatest other (List.mem_mergeSort.1 among),
      stays.symm ▸ nearest.last⟩

/-- Sorting by position gives entries in the order of their positions. -/
theorem sorted_mergeSort (entries : List (Nat × α)) :
    (entries.mergeSort fun a b => a.1 ≤ b.1).Pairwise fun a b => a.1 ≤ b.1 := by
  have sorted := @List.pairwise_mergeSort _ (fun a b : Nat × α => decide (a.1 ≤ b.1))
    (by
      intro a b c first second
      simp only [decide_eq_true_eq] at *
      omega)
    (by
      intro a b
      simpa using Nat.le_total a.1 b.1) entries
  simpa using sorted

/-- Sorted entries at or before a limit come before those beyond it. So taking
entries while they are within the limit takes all that are. -/
theorem exists_parts_of_sorted (sorted : entries.Pairwise fun a b => a.1 ≤ b.1) (limit : Nat) :
    ∃ near far, entries = near ++ far ∧ (entries.takeWhile fun e => e.1 ≤ limit) = near ∧
      (∀ e ∈ near, e.1 ≤ limit) ∧ ∀ e ∈ far, limit < e.1 := by
  induction entries with
  | nil => exact ⟨[], [], rfl, rfl, by simp, by simp⟩
  | cons first rest ih =>
    obtain ⟨least, sorted⟩ := List.pairwise_cons.1 sorted
    by_cases within : first.1 ≤ limit
    · obtain ⟨near, far, parts, front, close, beyond⟩ := ih sorted
      refine ⟨first :: near, far, by rw [parts, List.cons_append], ?_, ?_, beyond⟩
      · rw [List.takeWhile_cons_of_pos (by simpa using within), front]
      · exact List.forall_mem_cons.2 ⟨within, close⟩
    · refine ⟨[], first :: rest, rfl, ?_, by simp, ?_⟩
      · rw [List.takeWhile_cons_of_neg (by simpa using within)]
      · refine List.forall_mem_cons.2 ⟨by omega, fun other later => ?_⟩
        have after := least other later
        omega

/-- Of sorted entries, the last one at or before a limit is what a scan finds.
Proof: the scan goes over the near entries, ends with the last of them, and
passes over the far ones. -/
theorem getLast?_takeWhile_of_sorted (sorted : entries.Pairwise fun a b => a.1 ≤ b.1)
    (limit : Nat) : (entries.takeWhile fun e => e.1 ≤ limit).getLast? = nearest? limit entries := by
  obtain ⟨near, far, parts, front, close, beyond⟩ := exists_parts_of_sorted sorted limit
  rw [front]
  symm
  cases ends : near.getLast? with
  | none =>
    obtain rfl := List.getLast?_eq_none_iff.1 ends
    have spec := nearest?_spec limit entries
    cases found : nearest? limit entries with
    | none => rfl
    | some e =>
      rw [found] at spec
      have nearest : Nearest limit entries e := spec
      have passed := beyond e (by simpa [parts] using nearest.mem)
      have within := nearest.within
      omega
  | some e =>
    obtain ⟨before, rfl⟩ := List.getLast?_eq_some_iff.1 ends
    rw [nearest?_eq_some_iff]
    refine ⟨close e (by simp), fun other among below => ?_, ?_⟩
    · rw [parts] at among
      rcases List.mem_append.1 among with inside | outside
      · rcases List.mem_append.1 inside with earlier | last
        · rw [parts, List.pairwise_append, List.pairwise_append] at sorted
          exact sorted.1.2.2 other earlier e (by simp)
        · obtain rfl := List.mem_singleton.1 last
          exact Nat.le_refl _
      · have passed := beyond other outside
        omega
    · have nothing : far.filter (·.1 = e.1) = [] := by
        refine List.filter_eq_nil_iff.2 fun other among => ?_
        have passed := beyond other among
        have within := close e (by simp)
        simp only [decide_eq_true_eq]
        omega
      simp [parts, List.filter_append, nothing]

/-- Halve a stretch of indices until one is left. The condition holds of the
indices before some index and of none from it on; this is the index that is
found. -/
def halve (holds : Nat → Bool) (start : Nat) : (size : Nat) → Nat
  | 0 => start
  | 1 => if holds start then start + 1 else start
  | size + 2 =>
      let half := (size + 2) / 2
      if holds (start + half) then halve holds (start + half) (size + 2 - half)
      else halve holds start (size + 2 - half)
termination_by size => size
decreasing_by all_goals omega

/-- The stretch always holds the index that is looked for. By induction on its
size, which is halved: the entry in the middle decides which half it is in. -/
theorem halve_eq {holds : Nat → Bool} {parting : Nat}
    (parts : ∀ i, holds i = true ↔ i < parting) {start size : Nat} (above : start ≤ parting)
    (below : parting ≤ start + size) : halve holds start size = parting := by
  fun_induction halve holds start size with
  | case1 start => omega
  | case2 start more =>
    have passed := (parts start).1 more
    omega
  | case3 start stops =>
    have kept := mt (parts start).2 stops
    omega
  | case4 start size half more ih =>
    have passed := (parts _).1 more
    exact ih (by omega) (by omega)
  | case5 start size half stops ih =>
    have kept := mt (parts _).2 stops
    exact ih above (by omega)

/-- The nearest visible location at or before a place, found by halving. -/
def locateByHalves (l : SourceLocator) (place : Place) : Option SourceLocation := do
  let position ← l.places.idxOf? place
  match halve (fun i => l.points[i]?.any (·.1 ≤ position)) 0 l.points.length with
  | 0 => none
  | last + 1 => l.points[last]?.map Prod.snd

/-- Halving sorted entries finds the last one at or before a limit. The index
that is looked for is the number of entries within the limit, and the entry is
the one before it. -/
theorem halved_of_sorted (sorted : entries.Pairwise fun a b => a.1 ≤ b.1) (limit : Nat) :
    (match halve (fun i => entries[i]?.any (·.1 ≤ limit)) 0 entries.length with
      | 0 => none
      | last + 1 => entries[last]?) = (entries.takeWhile fun e => e.1 ≤ limit).getLast? := by
  obtain ⟨near, far, parts, front, close, beyond⟩ := exists_parts_of_sorted sorted limit
  rw [front]
  have parted (i : Nat) : entries[i]?.any (·.1 ≤ limit) = true ↔ i < near.length := by
    by_cases inside : i < near.length
    · have here := close _ (List.getElem_mem inside)
      simp [parts, List.getElem?_append_left inside, inside, here]
    · rw [parts, List.getElem?_append_right (by omega)]
      cases there : far[i - near.length]? with
      | none => simp [inside]
      | some e =>
        have passed := beyond e (List.mem_of_getElem? there)
        simp [inside, passed]
  have size : near.length ≤ entries.length := by simp [parts]
  rw [halve_eq parted (Nat.zero_le _) (by omega), List.getLast?_eq_getElem?]
  cases count : near.length with
  | zero =>
    obtain rfl := List.length_eq_zero_iff.1 count
    rfl
  | succ last =>
    dsimp only
    rw [parts, List.getElem?_append_left (by omega), Nat.add_sub_cancel]

end SourceLocator

namespace Body

variable {b : Body} {limit position : Nat} {p : DebugPoint} {place : Place}
  {location : SourceLocation}

/-- The position of a point that is visible and on the code. -/
def visibleAt? (b : Body) (p : DebugPoint) : Option Nat :=
  if p.isHidden then none else b.position? p.place

/-- The visible points on the code with their positions, in the order in which
they are stored. -/
def visible (b : Body) : List (Nat × DebugPoint) :=
  b.points.filterMap fun p => (b.visibleAt? p).map (·, p)

/-- The location that a scan of all points finds for a place. -/
def scanned (b : Body) (place : Place) : Option SourceLocation := do
  let limit ← b.position? place
  let (_, p) ← SourceLocator.nearest? limit b.visible
  return SourceLocation.ofPoint p

/-- The point that stands for a position of the code: a visible point at or
before it, with none farther on, and the last one stored of those at the same
place. -/
structure Heads (b : Body) (limit position : Nat) (p : DebugPoint) : Prop where
  visible : b.visibleAt? p = some position
  within : position ≤ limit
  greatest : ∀ q ∈ b.points, ∀ other, b.visibleAt? q = some other → other ≤ limit →
    other ≤ position
  last : ∃ earlier later, b.points = earlier ++ p :: later ∧
    ∀ q ∈ later, b.visibleAt? q ≠ some position

/-- A point counts at a position if it is visible there. Hidden points and those
off the code are visible nowhere. -/
theorem mem_visible : (position, p) ∈ b.visible ↔ p ∈ b.points ∧ b.visibleAt? p = some position := by
  simp only [visible, List.mem_filterMap, Option.map_eq_some_iff, Prod.mk.injEq]
  constructor
  · rintro ⟨q, among, other, there, rfl, rfl⟩
    exact ⟨among, there⟩
  · rintro ⟨among, there⟩
    exact ⟨p, among, position, there, rfl, rfl⟩

/-- The entries at a position are the points that are visible there, in their
order. Points that are hidden or off the code have no entry. -/
theorem filter_visible (b : Body) (position : Nat) :
    b.visible.filter (·.1 = position) =
      (b.points.filter fun p => b.visibleAt? p = some position).map (position, ·) := by
  unfold visible
  induction b.points with
  | nil => rfl
  | cons p rest ih =>
    rw [List.filterMap_cons]
    cases there : b.visibleAt? p with
    | none => simpa [there] using ih
    | some other =>
      by_cases here : other = position
      · subst here
        simpa [there] using ih
      · simpa [there, here] using ih

/-- A scan ends with the point that stands for the position: the last one visible
there, of the positions at or before the limit the greatest. -/
theorem nearest_visible_iff :
    SourceLocator.Nearest limit b.visible (position, p) ↔ b.Heads limit position p := by
  have last : (b.visible.filter (·.1 = position)).getLast? = some (position, p) ↔
      b.visibleAt? p = some position ∧ ∃ earlier later, b.points = earlier ++ p :: later ∧
        ∀ q ∈ later, b.visibleAt? q ≠ some position := by
    rw [filter_visible, List.getLast?_map, Option.map_eq_some_iff, List.getLast?_filter]
    simp only [Prod.mk.injEq, true_and, exists_eq_right, List.find?_eq_some_iff_append,
      decide_eq_true_eq]
    refine and_congr_right fun _ => ?_
    constructor
    · rintro ⟨later, earlier, parts, others⟩
      refine ⟨earlier.reverse, later.reverse, ?_, ?_⟩
      · have stored := congrArg List.reverse parts
        simpa using stored
      · simpa using others
    · rintro ⟨earlier, later, parts, others⟩
      exact ⟨later.reverse, earlier.reverse, by simp [parts], by simpa using others⟩
  constructor
  · intro nearest
    obtain ⟨visible, stored⟩ := last.1 nearest.last
    refine ⟨visible, nearest.within, fun q among other there below => ?_, stored⟩
    exact nearest.greatest (other, q) (mem_visible.2 ⟨among, there⟩) below
  · intro heads
    refine ⟨heads.within, fun (other, q) among below => ?_, last.2 ⟨heads.visible, heads.last⟩⟩
    obtain ⟨stored, there⟩ := mem_visible.1 among
    exact heads.greatest q stored other there below

/-- A place is given the location of the point that stands for its position. A
place off the code is given none, and neither is one before all visible points. -/
theorem scanned_eq_some_iff :
    b.scanned place = some location ↔ ∃ limit position p, b.position? place = some limit ∧
      b.Heads limit position p ∧ location = .ofPoint p := by
  simp only [scanned, Option.bind_eq_bind, Option.bind_eq_some_iff, Option.pure_def,
    Option.some.injEq]
  constructor
  · rintro ⟨limit, linked, ⟨position, p⟩, found, rfl⟩
    rw [SourceLocator.nearest?_eq_some_iff, nearest_visible_iff] at found
    exact ⟨limit, position, p, linked, found, rfl⟩
  · rintro ⟨limit, position, p, linked, heads, rfl⟩
    refine ⟨limit, linked, (position, p), ?_, rfl⟩
    rw [SourceLocator.nearest?_eq_some_iff, nearest_visible_iff]
    exact heads

/-- The locator of a body holds its visible points, sorted by position. Sorting
is stable, so points at one position stay in their order. -/
theorem points_ofBody (b : Body) :
    (SourceLocator.ofBody b).points =
      (b.visible.mergeSort fun a b => a.1 ≤ b.1).map fun (position, p) =>
        (position, SourceLocation.ofPoint p) := by
  have same : ((b.points.filter (!·.isHidden)).filterMap fun p =>
      (b.position? p.place).map fun position => (position, SourceLocation.ofPoint p)) =
        b.visible.map fun (position, p) => (position, SourceLocation.ofPoint p) := by
    rw [List.filterMap_filter, visible, List.map_filterMap]
    refine List.filterMap_congr fun p _ => ?_
    unfold visibleAt?
    cases p.isHidden <;> simp [Function.comp_def]
  have sorted := @List.map_mergeSort _ _ (fun a b : Nat × DebugPoint => decide (a.1 ≤ b.1))
    (fun a b : Nat × SourceLocation => decide (a.1 ≤ b.1))
    (fun (position, p) => (position, SourceLocation.ofPoint p)) b.visible (fun _ _ _ _ => rfl)
  rw [sorted, ← same]
  rfl

theorem sorted_ofBody (b : Body) :
    (SourceLocator.ofBody b).points.Pairwise fun a b => a.1 ≤ b.1 := by
  rw [points_ofBody, List.pairwise_map]
  exact SourceLocator.sorted_mergeSort b.visible

/-- The locator finds what a scan of the points finds. Only the positions matter
for what is found, so the locations may be made before or after the search. -/
theorem locate_ofBody (b : Body) (place : Place) :
    (SourceLocator.ofBody b).locate place = b.scanned place := by
  change (b.position? place).bind _ = (b.position? place).bind _
  refine congrArg _ (funext fun limit => ?_)
  rw [points_ofBody, List.takeWhile_map, List.getLast?_map]
  have last := SourceLocator.getLast?_takeWhile_of_sorted
    (SourceLocator.sorted_mergeSort b.visible) limit
  rw [SourceLocator.nearest?_mergeSort] at last
  change ((List.takeWhile (fun e : Nat × DebugPoint => decide (e.1 ≤ limit)) _).getLast?.map _).bind
    _ = _
  rw [last]
  cases SourceLocator.nearest? limit b.visible <;> rfl

/-- Halving finds what the locator finds in order. The points of a locator are
sorted, which is all that halving needs. -/
theorem locateByHalves_ofBody (b : Body) (place : Place) :
    (SourceLocator.ofBody b).locateByHalves place = (SourceLocator.ofBody b).locate place := by
  unfold SourceLocator.locateByHalves SourceLocator.locate
  refine congrArg _ (funext fun limit => ?_)
  change _ = ((SourceLocator.ofBody b).points.takeWhile fun e => decide (e.1 ≤ limit)).getLast?.bind _
  rw [← SourceLocator.halved_of_sorted (sorted_ofBody b) limit]
  cases SourceLocator.halve _ 0 (SourceLocator.ofBody b).points.length with
  | zero => rfl
  | succ last =>
    dsimp only
    cases (SourceLocator.ofBody b).points[last]? <;> rfl

end Body

namespace Weave

variable {settings : Settings} {j : Job} {optimized : Bool} {symbols : Symbols} {outcome : Outcome}

/-- The places that the pass over a body blames: one for each warning if it comes
to its end, and otherwise the one it stopped at. -/
def blamedBy (settings : Settings) (j : Job) (optimized : Bool) (symbols : Symbols) :
    List (Option Place) :=
  let frame : Frame :=
    { settings, method := j.method, blocks := Blocks.ofBody j.body,
      mapsPoints := settings.points.enabled optimized }
  match (Rewrite.run frame).run { body := j.body, symbols } with
  | .ok warnings _ => warnings.map fun (_, place) => some place
  | .error failure _ => [failure.place?]

/-- The places that the diagnostics of a method are about. -/
def blamed (settings : Settings) (j : Job) (symbols : Symbols) : List (Option Place) :=
  if j.usesMarkers settings.markerNamespace then
    match symbols.currentModule with
    | .error _ => []
    | .ok current => blamedBy settings j current.optimized symbols
  else []

/-- A body that is given up is told with the diagnostics that it was given up
for. -/
theorem diagnostics_of_givenUp {name : String} {diagnostics : List Diagnostic} {b : Body}
    (gave : (givenUp name diagnostics b symbols).result = .ok outcome) :
    outcome.diagnostics = diagnostics := by
  unfold givenUp at gave
  split at gave
  · obtain rfl := by simpa using gave
    rfl
  · simp at gave

/-- A warning is located in the body that the locator was made of. -/
theorem location_diagnosed (name : String) (severity : Severity) (b : Body)
    (warnings : List (Warning × Place)) :
    (diagnosed name severity (SourceLocator.ofBody b) warnings).map Diagnostic.location =
      (warnings.map fun (_, place) => some place).map fun place => place.bind b.scanned := by
  rw [diagnosed, List.map_map, List.map_map]
  refine List.map_congr_left ?_
  rintro ⟨warning, place⟩ -
  exact Body.locate_ofBody b place

theorem location_refusal (name : String) (b : Body) (failure : Failure) :
    (refusal name (SourceLocator.ofBody b) failure).location = failure.place?.bind b.scanned :=
  congrArg failure.place?.bind (funext (Body.locate_ofBody b))

/-- The diagnostics of a pass are located in the body as it was before the pass,
from which the locator is made. This holds for warnings and for the refusal
alike, and for warnings that count as errors. -/
theorem located_of_rewritten (gave : (rewritten settings j optimized symbols).result = .ok outcome) :
    outcome.diagnostics.map Diagnostic.location =
      (blamedBy settings j optimized symbols).map fun place => place.bind j.body.scanned := by
  unfold rewritten at gave
  unfold blamedBy
  dsimp only at gave ⊢
  generalize (Rewrite.run _).run _ = result at gave ⊢
  cases result with
  | ok warnings state =>
    dsimp only at gave ⊢
    generalize (if settings.warningsAsErrors then Severity.error else .warning) = severity at gave
    have located := location_diagnosed j.displayName severity j.body warnings
    split at gave
    · rw [diagnostics_of_givenUp gave, located]
    · obtain rfl := Except.ok.inj gave
      exact located
  | error failure state =>
    dsimp only at gave ⊢
    split at gave
    · rw [diagnostics_of_givenUp gave, List.map_singleton, List.map_singleton, location_refusal]
    · simp at gave

/-- So are those of a method, and one that is left alone has none. A method whose
module is not registered has no outcome, so nothing is located. -/
theorem located_of_method (gave : (method settings j symbols).result = .ok outcome) :
    outcome.diagnostics.map Diagnostic.location =
      (blamed settings j symbols).map fun place => place.bind j.body.scanned := by
  unfold method at gave
  unfold blamed
  cases used : j.usesMarkers settings.markerNamespace with
  | false =>
    simp only [used, Bool.not_false, if_true] at gave
    obtain rfl := Except.ok.inj gave
    rfl
  | true =>
    simp only [used, Bool.not_true, Bool.false_eq_true, if_false, if_true] at gave ⊢
    cases found : symbols.currentModule with
    | error failure =>
      rw [found] at gave
      simp at gave
    | ok current =>
      rw [found] at gave
      exact located_of_rewritten gave

/-- A place is located by a plain scan of the points of its body, in whatever
order they are stored: the visible point that is farthest on of those at or
before it, the last one stored of those at the same position, and nothing if
there is none or the place is not on the code. A search by halves in the sorted
points finds the same.

Every diagnostic of a method that is woven is located so in the body as it was
before, whatever the pass has done to it. -/
theorem located_by_scan (b : Body) :
    (∀ place, (SourceLocator.ofBody b).locate place = b.scanned place ∧
      (SourceLocator.ofBody b).locateByHalves place = b.scanned place) ∧
    (∀ place location, b.scanned place = some location ↔
      ∃ limit position p, b.position? place = some limit ∧ b.Heads limit position p ∧
        location = .ofPoint p) ∧
    ∀ settings j symbols outcome, j.body = b → (method settings j symbols).result = .ok outcome →
      outcome.diagnostics.map Diagnostic.location =
        (blamed settings j symbols).map fun place => place.bind b.scanned := by
  refine ⟨fun place => ?_, fun place location => Body.scanned_eq_some_iff, ?_⟩
  · have found := Body.locate_ofBody b place
    exact ⟨found, (Body.locateByHalves_ofBody b place).trans found⟩
  · rintro settings j symbols outcome rfl gave
    exact located_of_method gave

/-- A method that claims to be unreachable but returns, with an instruction
before its code that is newer than the code. Of its points one is hidden, one is
off the code and two are at the same place. -/
def pointedJob : Job :=
  let point (place : Place) (line : Nat) : DebugPoint :=
    ⟨place, "Run.cs", ⟨line, 1⟩, ⟨line, 9⟩⟩
  { returningJob with
    body :=
      { (returningJob.body.insertBefore ⟨0⟩ ⟨.nop, .none⟩).2 with
        points := [point ⟨1⟩ 30, .hidden ⟨0⟩ "Run.cs", point ⟨2⟩ 20, point ⟨7⟩ 50, point ⟨2⟩ 10] } }

/-- The error is about the call. The point that was stored last for the new
instruction stands for it, as the point at the call itself is hidden. -/
theorem located_by_scan_pointedJob :
    ∃ outcome, (method {} pointedJob emptyProgram).result = .ok outcome ∧
      outcome.diagnostics.map Diagnostic.location =
        [some ⟨"Run.cs", ⟨10, 1⟩, ⟨10, 9⟩⟩] := by
  obtain ⟨-, -, located⟩ := located_by_scan pointedJob.body
  exact ⟨_, rfl, located {} pointedJob emptyProgram _ rfl rfl⟩

end Weave

end InlineCil
