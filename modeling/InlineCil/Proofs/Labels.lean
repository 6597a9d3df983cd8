import InlineCil.Proofs.Encoding.Labels

/-!
# Mentions of labels

A pass meets the names of labels one by one: a branch uses a label, a call marks
it. All that the label table holds in the end, and all that is said about it, can
be read off these mentions: the names in the order of their first mention, the
first branch to each, and the call that marks it.

The questions about a list of mentions are functions that look at the list from
its beginning, and each has a lemma for one more mention at the end.
`LabelTable.Records` says that the table answers them, and that no label was
marked twice, which is refused when it happens.

Closing the table is then described by the mentions alone. A label that is
branched to and not marked is refused, the first one in order of mention, at the
first branch to it. If there is none, there is a warning for each label that is
marked and not branched to, in the same order.
-/

namespace InlineCil

/-- One mention of a label: a branch to it, or the call that marks it. -/
inductive Mention where
  | use (name : String) (branch : Place)
  | mark (name : String) (call : Place)
  deriving DecidableEq, Repr

namespace Mention

/-- The name of the label. -/
def name : Mention → String
  | .use name _ | .mark name _ => name

/-- The name that is branched to. -/
def uses : Mention → List String
  | .use name _ => [name]
  | .mark _ _ => []

/-- The name that is marked. -/
def marks : Mention → List String
  | .use _ _ => []
  | .mark name _ => [name]

/-- The branch, if it goes to the label. -/
def branchTo? (label : String) : Mention → Option Place
  | .use name branch => if name = label then some branch else none
  | .mark _ _ => none

/-- The call, if it marks the label. -/
def markOf? (label : String) : Mention → Option Place
  | .use _ _ => none
  | .mark name call => if name = label then some call else none

end Mention

/-- The names of labels in the order of their first mention. -/
def labelNames (mentions : List Mention) : List String := (mentions.map Mention.name).eraseDups

/-- The first branch to a label. -/
def firstUse? (mentions : List Mention) (name : String) : Option Place :=
  mentions.findSome? (·.branchTo? name)

/-- The call that marks a label. -/
def markedAt? (mentions : List Mention) (name : String) : Option Place :=
  mentions.findSome? (·.markOf? name)

/-- The label is branched to and never marked. -/
def isMissing (mentions : List Mention) (name : String) : Bool :=
  (firstUse? mentions name).isSome && (markedAt? mentions name).isNone

/-- The warning about a label that is marked and never branched to. -/
def idleWarning? (mentions : List Mention) (name : String) : Option (Warning × Place) :=
  match firstUse? mentions name, markedAt? mentions name with
  | none, some call => some (.unusedLabel name, call)
  | _, _ => none

section Lists

variable {mentions : List Mention} {m : Mention} {name : String}

theorem mem_labelNames : name ∈ labelNames mentions ↔ ∃ m ∈ mentions, m.name = name := by
  simp [labelNames]

theorem labelNames_of_mem (known : m.name ∈ labelNames mentions) :
    labelNames (mentions ++ [m]) = labelNames mentions := by
  have among : ∃ other ∈ mentions, other.name = m.name := mem_labelNames.1 known
  simp [labelNames, List.eraseDups_append, List.removeAll, among]

theorem labelNames_of_not_mem (new : m.name ∉ labelNames mentions) :
    labelNames (mentions ++ [m]) = labelNames mentions ++ [m.name] := by
  have never : ¬∃ other ∈ mentions, other.name = m.name := fun among => new (mem_labelNames.2 among)
  simp [labelNames, List.eraseDups_append, List.removeAll, never, List.eraseDups_cons]

/-- One more mention is the first branch to a label only if there was none
before. -/
theorem firstUse?_concat (mentions : List Mention) (m : Mention) (name : String) :
    firstUse? (mentions ++ [m]) name = (firstUse? mentions name).or (m.branchTo? name) := by
  rw [firstUse?, List.findSome?_append, List.findSome?_singleton, firstUse?]

/-- One more mention is the mark of a label only if there was none before. -/
theorem markedAt?_concat (mentions : List Mention) (m : Mention) (name : String) :
    markedAt? (mentions ++ [m]) name = (markedAt? mentions name).or (m.markOf? name) := by
  rw [markedAt?, List.findSome?_append, List.findSome?_singleton, markedAt?]

/-- Names that were never mentioned are not branched to. So a label that is new
in the table has no first use to record. -/
theorem firstUse?_of_not_mem (new : name ∉ labelNames mentions) :
    firstUse? mentions name = none := by
  refine List.findSome?_eq_none_iff.2 fun m member => ?_
  have other : m.name ≠ name := fun same => new (mem_labelNames.2 ⟨m, member, same⟩)
  cases m with
  | use _ branch => exact if_neg other
  | mark _ call => rfl

/-- Names that were never mentioned are not marked. So a label that is new in the
table has no mark to record. -/
theorem markedAt?_of_not_mem (new : name ∉ labelNames mentions) :
    markedAt? mentions name = none := by
  refine List.findSome?_eq_none_iff.2 fun m member => ?_
  have other : m.name ≠ name := fun same => new (mem_labelNames.2 ⟨m, member, same⟩)
  cases m with
  | use _ branch => rfl
  | mark _ call => exact if_neg other

/-- Where a label is said to be marked, there is a mention that marks it. -/
theorem mem_of_markedAt? {call : Place} (marked : markedAt? mentions name = some call) :
    .mark name call ∈ mentions := by
  obtain ⟨m, member, found⟩ := List.exists_of_findSome?_eq_some marked
  cases m with
  | use _ branch => simp [Mention.markOf?] at found
  | mark other there =>
    obtain ⟨rfl, rfl⟩ := by simpa [Mention.markOf?] using found
    exact member

theorem isSome_markedAt? {call : Place} (member : .mark name call ∈ mentions) :
    (markedAt? mentions name).isSome := by
  rw [markedAt?, List.findSome?_isSome_iff]
  exact ⟨_, member, by simp [Mention.markOf?]⟩

theorem isSome_firstUse? {branch : Place} (member : .use name branch ∈ mentions) :
    (firstUse? mentions name).isSome := by
  rw [firstUse?, List.findSome?_isSome_iff]
  exact ⟨_, member, by simp [Mention.branchTo?]⟩

end Lists

namespace LabelTable

variable {t : LabelTable} {names : List String} {mentions : List Mention} {name : String}

/-- The table holds labels of the names, with what was mentioned about them; and
no label was marked twice. -/
structure Records (t : LabelTable) (names : List String) (mentions : List Mention) : Prop where
  names : t.labels.map Label.name = names
  uses : ∀ label ∈ t.labels, label.firstUse = firstUse? mentions label.name
  marks : ∀ label ∈ t.labels, label.definedAt = markedAt? mentions label.name
  once : ∀ name call, .mark name call ∈ mentions →
    mentions.filter (name ∈ ·.marks) = [.mark name call]

/-- The table has no label of a name exactly if the name is none of its names. -/
theorem find?_eq_none_iff : t.find? name = none ↔ name ∉ t.labels.map Label.name := by
  simp [find?]

namespace Records

theorem initial : ({} : LabelTable).Records [] [] where
  names := rfl
  uses := by simp
  marks := by simp
  once := by simp

/-- A label of a new name was neither branched to nor marked. Its name comes
last, as it will be mentioned last, and what is recorded of the others is still
so. -/
theorem add (records : t.Records (labelNames mentions) mentions) (missing : t.find? name = none)
    (place : Place) : (t.add name place).Records (labelNames mentions ++ [name]) mentions where
  names := by simp [LabelTable.add, records.names]
  uses label member := by
    rcases List.mem_append.1 member with member | member
    · exact records.uses label member
    · obtain rfl := List.mem_singleton.1 member
      exact (firstUse?_of_not_mem (records.names ▸ find?_eq_none_iff.1 missing)).symm
  marks label member := by
    rcases List.mem_append.1 member with member | member
    · exact records.marks label member
    · obtain rfl := List.mem_singleton.1 member
      exact (markedAt?_of_not_mem (records.names ▸ find?_eq_none_iff.1 missing)).symm
  once := records.once

/-- A branch to a label counts if it is the first one. Later ones change nothing,
neither in the table nor in what the mentions say of the first. -/
theorem use (records : t.Records names mentions) (name : String) (branch : Place) :
    (t.use name branch).Records names (mentions ++ [.use name branch]) where
  names := by
    rw [← records.names, LabelTable.use, update, List.map_map]
    refine List.map_congr_left fun label _ => ?_
    by_cases here : label.name = name <;> simp [here]
  uses label member := by
    obtain ⟨old, earlier, rfl⟩ := List.mem_map.1 member
    have before := records.uses old earlier
    rw [firstUse?_concat]
    obtain rfl | other := eq_or_ne old.name name
    · simp [before, Mention.branchTo?]
    · simp [other, other.symm, before, Mention.branchTo?]
  marks label member := by
    obtain ⟨old, earlier, rfl⟩ := List.mem_map.1 member
    have before := records.marks old earlier
    rw [markedAt?_concat]
    obtain rfl | other := eq_or_ne old.name name
    · simp [before, Mention.markOf?]
    · simp [other, before, Mention.markOf?]
  once other call member := by
    have earlier : .mark other call ∈ mentions := by simpa using member
    simpa [Mention.marks] using records.once other call earlier

/-- A label is marked that was not marked before, so it has one mark. The table
would let a second one replace it, which is why marking checks for one. -/
theorem define (records : t.Records names mentions)
    (unmarked : markedAt? mentions name = none) (call : Place) :
    (t.define name call).Records names (mentions ++ [.mark name call]) where
  names := by
    rw [← records.names, LabelTable.define, update, List.map_map]
    refine List.map_congr_left fun label _ => ?_
    by_cases here : label.name = name <;> simp [here]
  uses label member := by
    obtain ⟨old, earlier, rfl⟩ := List.mem_map.1 member
    have before := records.uses old earlier
    rw [firstUse?_concat]
    obtain rfl | other := eq_or_ne old.name name
    · simp [before, Mention.branchTo?]
    · simp [other, before, Mention.branchTo?]
  marks label member := by
    obtain ⟨old, earlier, rfl⟩ := List.mem_map.1 member
    have before := records.marks old earlier
    rw [markedAt?_concat]
    obtain rfl | other := eq_or_ne old.name name
    · simp [unmarked, Mention.markOf?]
    · simp [other, other.symm, before, Mention.markOf?]
  once other there member := by
    have never : mentions.filter (name ∈ ·.marks) = [] := by
      refine List.filter_eq_nil_iff.2 fun m among => ?_
      cases m with
      | use _ branch => simp [Mention.marks]
      | mark label there =>
        rintro marks
        obtain rfl : name = label := by simpa [Mention.marks] using marks
        simpa [unmarked] using isSome_markedAt? among
    rw [List.filter_append]
    rcases List.mem_append.1 member with earlier | new
    · have apart : other ≠ name := by
        rintro rfl
        simpa [unmarked] using isSome_markedAt? earlier
      simpa [Mention.marks, apart] using records.once other there earlier
    · obtain ⟨rfl, rfl⟩ := by simpa using new
      simpa [Mention.marks] using never

theorem exists_find? (records : t.Records names mentions) (known : name ∈ names) :
    ∃ label, t.find? name = some label ∧ label ∈ t.labels ∧ label.name = name := by
  cases found : t.find? name with
  | some label => exact ⟨label, rfl, mem_of_find? found⟩
  | none => exact absurd known (records.names ▸ find?_eq_none_iff.1 found)

end Records

/-- What is said about a label that is missing, and about any other one, told by the
mentions. -/
theorem verdict_of_records {label : Label} (records : t.Records names mentions)
    (member : label ∈ t.labels) :
    (∀ branch, firstUse? mentions label.name = some branch → isMissing mentions label.name = true →
      verdict label = .error (.causedAt (.labelUndefined label.name) branch)) ∧
    (isMissing mentions label.name = false →
      verdict label = .ok (idleWarning? mentions label.name)) := by
  unfold verdict idleWarning? isMissing
  rw [records.uses label member, records.marks label member]
  cases firstUse? mentions label.name <;> cases markedAt? mentions label.name <;> simp

/-- What is said about labels of which those that are branched to are marked:
warnings, in the order of first mention. -/
theorem finish_of_records (records : t.Records (labelNames mentions) mentions)
    (complete : ∀ name ∈ labelNames mentions, isMissing mentions name = false) :
    t.finish = .ok ((labelNames mentions).filterMap (idleWarning? mentions)) := by
  have verdicts : t.labels.mapM verdict =
      .ok (t.labels.map fun label => idleWarning? mentions label.name) :=
    Steps.mapM_eq_ok fun label member => (verdict_of_records records member).2
      (complete _ (records.names ▸ List.mem_map_of_mem member))
  have warnings : (t.labels.map fun label => idleWarning? mentions label.name).filterMap id =
      (labelNames mentions).filterMap (idleWarning? mentions) := by
    rw [← records.names, List.filterMap_map, List.filterMap_map]
    rfl
  rw [finish, verdicts, ← warnings]
  rfl

/-- The first label that is branched to and never marked is refused, at the first
branch. Labels before it may have warnings, which are lost. -/
theorem finish_of_missing (records : t.Records (labelNames mentions) mentions)
    (missing : (labelNames mentions).find? (isMissing mentions) = some name) :
    ∃ branch, firstUse? mentions name = some branch ∧
      t.finish = .error (.causedAt (.labelUndefined name) branch) := by
  rw [← records.names, List.find?_map, Option.map_eq_some_iff] at missing
  obtain ⟨label, found, rfl⟩ := missing
  obtain ⟨absent, before, after, split, earlier⟩ := List.find?_eq_some_iff_append.1 found
  have used : (firstUse? mentions label.name).isSome := (Bool.and_eq_true_iff.1 absent).1
  obtain ⟨branch, uses⟩ := Option.isSome_iff_exists.1 used
  have member {other : Label} (among : other ∈ before ++ label :: after) : other ∈ t.labels :=
    split ▸ among
  refine ⟨branch, uses, ?_⟩
  have refused := (verdict_of_records records (member (by simp))).1 branch uses absent
  have ends : (before ++ label :: after).mapM verdict =
      .error (.causedAt (.labelUndefined label.name) branch) :=
    Steps.mapM_eq_error_iff.2 ⟨before, label, after, rfl, fun other among =>
      ⟨_, (verdict_of_records records (member (by simp [among]))).2
        (by simpa using earlier other among)⟩, refused⟩
  rw [finish, split, ends]
  rfl

end LabelTable

end InlineCil
