import InlineCil.Proofs.Resolution
import Mathlib.Data.List.DropRight
import Mathlib.Data.List.TakeWhile

/-!
# Names that lead back

A type that a module finds is bound to a name that the same module finds it by:
the written name is read into the namespace and the names around the type, and
these are written as they were read, with slashes. The name also says which
module that is. So from the bound name alone the definition is found again,
whatever assembly the type was looked for in, as long as modules stay registered.

The first part is about texts. Names are read by splitting them at separators and
written by joining the parts, and `Module.Binds` is what this comes to for a type
that a module finds.

The second part is about symbols. A type leads back if the module that its name
is bound to is registered and has it. What a search finds leads back, and so does
what is kept, unless a module was replaced since. Replacing a module makes what
was kept of it stale, and an old find of the name in the module it is bound to is
answered instead of the new definition. That is why the theorem speaks of types
of which nothing was kept yet under the assemblies that matter, and the last
example shows that this cannot be left out.
-/

namespace InlineCil

namespace Text

variable {isSeparator : Char → Bool}

/-- A text has at least one segment, if only the empty one. So a written name
always has an outermost type. -/
theorem segments_ne_nil (cs : List Char) : segments isSeparator cs ≠ [] := by
  cases cs with
  | nil => simp [segments]
  | cons c rest =>
    unfold segments
    split
    · simp
    · split <;> simp

/-- The segments with a mark between them are the text with the mark for each
separator. So cutting a written name and joining it with slashes writes it with
slashes only. -/
theorem intercalate_segments (mark : Char) (cs : List Char) :
    [mark].intercalate (segments isSeparator cs) =
      cs.map fun c => if isSeparator c then mark else c := by
  induction cs with
  | nil => rfl
  | cons c rest ih =>
    obtain ⟨first, others, parts⟩ : ∃ first others, segments isSeparator rest = first :: others :=
      List.exists_cons_of_ne_nil (segments_ne_nil rest)
    rw [List.map_cons, ← ih, parts]
    unfold segments
    by_cases separates : isSeparator c = true
    · rw [if_pos separates, if_pos separates, parts]
      simp [List.intercalate]
    · rw [if_neg separates, if_neg separates, parts]
      cases others <;> simp [List.intercalate]

/-- Exchanging separators for separators does not matter, and neither does any
change of characters that leaves all others alone. -/
theorem segments_map {change : Char → Char}
    (same : ∀ c, isSeparator (change c) = isSeparator c)
    (still : ∀ c, isSeparator c = false → change c = c) (cs : List Char) :
    segments isSeparator (cs.map change) = segments isSeparator cs := by
  induction cs with
  | nil => rfl
  | cons c rest ih =>
    rw [List.map_cons, segments, segments, ih, same]
    split
    · rfl
    · next joins => rw [still c (by simpa using joins)]

end Text

/-- The name of a type that a module finds is bound to that module, is written as
it was looked for but with slashes, and is found again. -/
structure Module.Binds (m : Module) (fullName : String) (found : BoundType) : Prop where
  scope : found.name.scope = m.assembly
  fullName : found.name.fullName = Text.exchanged '+' '/' fullName
  isValueType : found.name.isValueType = found.definition.isValueType
  again : m.findType found.name.fullName = some found

theorem TypeName.fullName_nested (n : TypeName) (inner : String) (isValueType : Bool) :
    (n.nested inner isValueType).fullName = n.fullName ++ "/" ++ inner := by
  unfold nested fullName
  dsimp only
  rw [String.intercalate_append_of_ne_nil (by simp) (by simp), String.intercalate_singleton]
  simp [String.append_assoc]

/-- Going down into nested types writes the names that it goes along, by
induction on them. The scope stays, and the name is that of a value type if and
only if its definition is one. -/
theorem BoundType.name_of_descend {t found : BoundType} {path : List String}
    (alike : t.name.isValueType = t.definition.isValueType) (down : t.descend path = some found) :
    found.name.scope = t.name.scope ∧
      found.name.isValueType = found.definition.isValueType ∧
      found.name.fullName = "/".intercalate (t.name.fullName :: path) := by
  induction path generalizing t with
  | nil =>
    obtain rfl := Option.some.inj down
    exact ⟨rfl, alike, by simp⟩
  | cons inner rest ih =>
    unfold descend at down
    split at down
    · cases down
    · next definition there =>
      have named : definition.name = inner := by simpa using List.find?_some there
      obtain ⟨scope, isValueType, written⟩ := ih rfl down
      refine ⟨scope, isValueType, ?_⟩
      rw [written, TypeName.fullName_nested, named, String.append_assoc,
        String.intercalate_cons_append, String.intercalate_cons_append,
        String.intercalate_cons_cons, String.append_assoc]

namespace Module

variable {m : Module} {fullName : String} {found : BoundType}

/-- A definition is bound to a name that is written as its own. -/
theorem fullName_bind (m : Module) (definition : TypeDef) :
    (m.bind definition).name.fullName = definition.fullName := by
  unfold bind TypeName.fullName TypeDef.fullName
  split <;> simp

/-- Which of the two separators is written does not matter to what a module
finds. Lookups exchange one for the other, to keep both spellings under one key. -/
theorem findType_exchanged (m : Module) (fullName : String) :
    m.findType (Text.exchanged '+' '/' fullName) = m.findType fullName := by
  have same (c : Char) : isNesting (if c = '+' then '/' else c) = isNesting c := by
    split
    · next plus => simp [plus, isNesting]
    · rfl
  have still (c : Char) (joins : isNesting c = false) : (if c = '+' then '/' else c) = c := by
    rw [if_neg]
    rintro rfl
    cases joins
  unfold findType Text.exchanged
  rw [String.toList_ofList, Text.segments_map same still]

/-- What a module finds is bound to it, and is found again by its bound name. The
bound name is the written one with slashes, so the module is asked the same
question. -/
theorem binds_of_findType (finds : m.findType fullName = some found) : m.Binds fullName found := by
  have written : found.name.scope = m.assembly ∧
      found.name.isValueType = found.definition.isValueType ∧
      found.name.fullName = Text.exchanged '+' '/' fullName := by
    have whole := @Text.intercalate_segments isNesting '/' fullName.toList
    unfold findType at finds
    split at finds
    · cases finds
    next top path parts =>
    split at finds
    · cases finds
    next definition there =>
    have named : definition.fullName = String.ofList top := by simpa using List.find?_some there
    obtain ⟨scope, isValueType, name⟩ := BoundType.name_of_descend rfl finds
    refine ⟨scope, isValueType, String.toList_inj.1 ?_⟩
    have slashes (c : Char) : (if isNesting c then '/' else c) = if c = '+' then '/' else c := by
      unfold isNesting
      grind
    rw [name, fullName_bind, named, String.toList_intercalate, Text.exchanged, String.toList_ofList]
    rw [parts] at whole
    simpa [slashes, Function.comp_def] using whole
  obtain ⟨scope, isValueType, name⟩ := written
  exact ⟨scope, name, isValueType, by rw [name, findType_exchanged, finds]⟩

end Module

/-- Text that was trimmed has no blanks at its ends, so trimming it again changes
nothing. -/
theorem Text.trimmedList_trimmedList (cs : List Char) :
    trimmedList (trimmedList cs) = trimmedList cs := by
  have front : (trimmedList cs).dropWhile isBlank = trimmedList cs := by
    refine List.dropWhile_eq_self_iff.2 fun nonempty => ?_
    have beginning : trimmedList cs <+: cs.dropWhile isBlank := List.rdropWhile_prefix isBlank _
    rw [beginning.getElem nonempty]
    exact List.dropWhile_get_zero_not isBlank cs (Nat.lt_of_lt_of_le nonempty beginning.length_le)
  have rear : (trimmedList cs).rdropWhile isBlank = trimmedList cs :=
    List.rdropWhile_idempotent isBlank (cs.dropWhile isBlank)
  change ((trimmedList cs).dropWhile isBlank).rdropWhile isBlank = trimmedList cs
  rw [front, rear]

/-- Lowered text has no capitals left, so lowering it again changes nothing. -/
theorem Text.lowered_lowered (text : String) : lowered (lowered text) = lowered text := by
  have small (c : Char) : c.toLower.toLower = c.toLower := by
    refine Char.toNat_inj.1 ?_
    rw [Symbols.toNat_toLower, Symbols.toNat_toLower]
    grind
  simp [lowered, Function.comp_def, small]

namespace Symbols

variable {s left : Symbols} {modules other : List (String × Module)} {type assembly fullName : String}
  {asked : List String} {module : Module} {found : BoundType} {steps : Nat} {call : Call} {calls : List Call}

/-- A simple name is its own simple name: it has no comma and no blanks at its
ends. Display names have parts after a comma, which are dropped once and for all. -/
theorem simpleName_simpleName (assembly : String) :
    simpleName (simpleName assembly) = simpleName assembly := by
  have commaless : Text.firstSegment (· = ',') (simpleName assembly).toList =
      (simpleName assembly).toList := by
    refine List.takeWhile_eq_self_iff.2 fun c member => ?_
    have inside : c ∈ Text.firstSegment (· = ',') assembly.toList := by
      unfold simpleName at member
      rw [String.toList_ofList] at member
      have beginning := (List.rdropWhile_prefix Text.isBlank _).subset member
      exact (List.dropWhile_sublist _).subset beginning
    exact List.mem_takeWhile_imp (p := fun c => !decide (c = ',')) inside
  rw [simpleName, commaless, simpleName, String.toList_ofList, Text.trimmedList_trimmedList]

/-- Every module is registered under its own assembly. -/
def Registered (modules : List (String × Module)) : Prop :=
  ∀ key module, modules.lookup key = some module → key = Text.lowered module.assembly

/-- A module that an assembly finds is found by its own assembly too, since it is
registered under that. -/
theorem moduleOf?_self (registered : Registered modules)
    (finds : moduleOf? modules assembly = some module) :
    moduleOf? modules module.assembly = some module := by
  have named : Text.lowered (simpleName assembly) = Text.lowered module.assembly :=
    registered _ _ finds
  have simple : Text.lowered (simpleName module.assembly) = Text.lowered (simpleName assembly) := by
    rw [← simpleName_lowered, ← named, simpleName_lowered, simpleName_simpleName]
  unfold moduleOf? at finds ⊢
  rw [simple, finds]

/-- A type leads back in modules if the first module that is asked for it has no
other one, and the module that its name is bound to has it. -/
structure LeadsBack (modules : List (String × Module)) (type assembly : String)
    (found : BoundType) : Prop where
  asked : ∃ first, moduleOf? modules assembly = some first ∧
    ∀ other, first.findType type = some other → other = found
  bound : ∃ home, moduleOf? modules found.name.scope = some home ∧
    home.findType type = some found

/-- What a search finds is what the module has that its name is bound to, by
induction on the number of modules asked. -/
theorem bound_of_searched (registered : Registered modules)
    (finds : searched modules type steps assembly = .ok found) :
    ∃ home, moduleOf? modules found.name.scope = some home ∧
      home.findType type = some found := by
  induction steps generalizing assembly with
  | zero => cases finds
  | succ steps ih =>
    rw [searched_succ] at finds
    split at finds
    · cases finds
    next module there =>
    split at finds
    · next defines =>
      obtain rfl := Except.ok.inj finds
      refine ⟨module, ?_, defines⟩
      rw [(Module.binds_of_findType defines).scope]
      exact moduleOf?_self registered there
    · split at finds
      · exact ih finds
      · cases finds

/-- What a search finds leads back. Only the first module that is asked may have
another type of the name, and then it would have been found. -/
theorem leadsBack_of_searched (registered : Registered modules)
    (finds : searched modules type steps assembly = .ok found) :
    LeadsBack modules type assembly found := by
  refine ⟨?_, bound_of_searched registered finds⟩
  cases steps with
  | zero => cases finds
  | succ steps =>
    rw [searched_succ] at finds
    split at finds
    · cases finds
    next module there =>
    refine ⟨module, there, fun other defines => ?_⟩
    rw [defines] at finds
    exact Except.ok.inj finds

/-- Further modules do not matter, as long as those there are stay registered.
Only modules for the two assemblies are asked, so others may come in anywhere. -/
theorem LeadsBack.mono (leads : LeadsBack modules type assembly found)
    (still : ∀ assembly module, moduleOf? modules assembly = some module →
      moduleOf? other assembly = some module) : LeadsBack other type assembly found where
  asked := by
    obtain ⟨first, there, only⟩ := leads.asked
    exact ⟨first, still _ _ there, only⟩
  bound := by
    obtain ⟨home, there, defines⟩ := leads.bound
    exact ⟨home, still _ _ there, defines⟩

theorem LeadsBack.lowered (leads : LeadsBack modules type assembly found) :
    LeadsBack modules type (Text.lowered assembly) found where
  asked := by
    rw [moduleOf?_congr (Text.lowered_lowered assembly)]
    exact leads.asked
  bound := leads.bound

/-- The call registers another module for an assembly that has one. -/
def Call.Replaces (s : Symbols) : Call → Prop
  | .add module => ∃ old, s.registered? module.assembly = some old ∧ old ≠ module
  | _ => False

/-- No module is replaced in a sequence of calls. -/
def Unreplaced : List Call → Symbols → Prop
  | [], _ => True
  | call :: rest, s => ¬call.Replaces s ∧ Unreplaced rest (call.after s)

/-- Symbols without a loader in which what is kept of a type for the asked
assemblies leads back. What is kept for other assemblies may be stale: no lookup
in an asked assembly reads it. -/
structure Faithful (asked : List String) (type : String) (s : Symbols) : Prop where
  unloaded : s.loader = none
  registered : Registered s.modules
  kept : ∀ assembly ∈ asked, ∀ found, s.types.lookup (assembly, type) = some found →
    LeadsBack s.modules type assembly found

/-- Registering a module registers it under its own assembly. The others were
registered under theirs before and still are, unless it replaces them. -/
theorem registered_add (registered : Registered s.modules) (module : Module) :
    Registered (s.add module).modules := by
  intro key other there
  unfold add at there
  dsimp only at there
  rw [Steps.lookup_cons] at there
  split at there
  · next same =>
    obtain rfl := Option.some.inj there
    exact same
  · exact registered key other there

/-- A module that is registered for an assembly stays so, unless it is replaced
by a call that registers another one for the same assembly. -/
theorem moduleOf?_add (still : ¬(Call.add module).Replaces s) {former : Module}
    (there : moduleOf? s.modules assembly = some former) :
    moduleOf? (s.add module).modules assembly = some former := by
  unfold moduleOf? add at *
  dsimp only
  rw [Steps.lookup_cons]
  split
  · next same =>
    by_contra differs
    refine still ⟨former, ?_, fun equal => differs (by rw [equal])⟩
    rw [registered?, ← same, there]
  · exact there

/-- A lookup registers no module and sets no loader; it keeps a type at most. -/
theorem modules_lookup (unloaded : s.loader = none) (assembly fullName : String) :
    (leftBy (lookup assembly fullName) s).modules = s.modules ∧
      (leftBy (lookup assembly fullName) s).loader = none := by
  unfold leftBy
  rw [run_lookup unloaded]
  cases s.types.lookup (key assembly fullName) with
  | some found => exact ⟨rfl, unloaded⟩
  | none =>
    cases searched s.modules (key assembly fullName).2 forwardingLimit assembly <;>
      exact ⟨rfl, unloaded⟩

/-- All modules are registered under their own assemblies after any call. Without
a loader only one of the calls registers any. -/
theorem registered_after (unloaded : s.loader = none) (registered : Registered s.modules)
    (call : Call) : Registered (call.after s).modules := by
  cases looks : call.lookup? s with
  | none =>
    cases call with
    | add module => exact registered_add registered module
    | _ => cases looks
  | some asked =>
    obtain ⟨assembly, fullName⟩ := asked
    rw [after_of_lookup looks, (modules_lookup unloaded assembly fullName).1]
    exact registered

/-- And so they are after any calls, by induction. -/
theorem registered_afterAll (unloaded : s.loader = none) (registered : Registered s.modules)
    (calls : List Call) : Registered (afterAll calls s).modules := by
  induction calls generalizing s with
  | nil => exact registered
  | cons call rest ih =>
    exact ih (kept_after unloaded call).1 (registered_after unloaded registered call)

namespace Faithful

/-- A lookup keeps a type that leads back, if it finds one, and leaves the
modules alone. What it found is bound to the module where the search ended, which
is registered under that name. -/
theorem lookup (faithful : Faithful asked type s) (assembly fullName : String) :
    Faithful asked type (leftBy (Symbols.lookup assembly fullName) s) := by
  unfold leftBy
  rw [run_lookup faithful.unloaded]
  cases s.types.lookup (key assembly fullName) with
  | some found => exact faithful
  | none =>
    cases told : searched s.modules (key assembly fullName).2 forwardingLimit assembly with
    | error failure => exact faithful
    | ok found =>
      refine ⟨faithful.unloaded, faithful.registered, fun name among held there => ?_⟩
      dsimp only at there
      rw [Steps.lookup_cons] at there
      split at there
      · next same =>
        obtain ⟨rfl, rfl⟩ := Prod.mk.inj same
        obtain rfl := Option.some.inj there
        exact (leadsBack_of_searched faithful.registered told).lowered
      · exact faithful.kept name among held there

/-- A call that replaces no module keeps everything leading back. Registering a
module for an assembly that had none changes no answer that was given before. -/
theorem after (faithful : Faithful asked type s) (still : ¬call.Replaces s) :
    Faithful asked type (call.after s) := by
  cases looks : call.lookup? s with
  | none =>
    cases call with
    | add module =>
      refine ⟨faithful.unloaded, registered_add faithful.registered module,
        fun name among held there => ?_⟩
      exact (faithful.kept name among held there).mono fun _ _ => moduleOf?_add still
    | _ => cases looks
  | some asked =>
    obtain ⟨assembly, fullName⟩ := asked
    rw [after_of_lookup looks]
    exact faithful.lookup assembly fullName

/-- So do calls one after the other, by induction. -/
theorem afterAll (faithful : Faithful asked type s) (unreplaced : Unreplaced calls s) :
    Faithful asked type (Symbols.afterAll calls s) := by
  induction calls generalizing s with
  | nil => exact faithful
  | cons call rest ih => exact ih (faithful.after unreplaced.1) unreplaced.2

/-- A type that leads back is resolved by its name, if what is kept for the
assembly in the name leads back as well. -/
theorem tells_resolve (faithful : Faithful asked type s)
    (among : Text.lowered found.name.scope ∈ asked)
    (normal : Text.exchanged '+' '/' type = type)
    (leads : LeadsBack s.modules type assembly found) :
    Tells (Symbols.resolve found.name) s (some found.definition) := by
  obtain ⟨home, there, defines⟩ := leads.bound
  have written : key found.name.scope found.name.fullName = (Text.lowered found.name.scope, type) := by
    rw [key, (Module.binds_of_findType defines).fullName, normal, normal]
  have expected : (s.types.lookup (key found.name.scope found.name.fullName)).or
      (firstDefined s.modules (key found.name.scope found.name.fullName).2 found.name.scope) =
        some found := by
    rw [written]
    cases kept : s.types.lookup (Text.lowered found.name.scope, type) with
    | some other =>
      obtain ⟨first, known, only⟩ := (faithful.kept _ among other kept).asked
      rw [moduleOf?_congr (Text.lowered_lowered found.name.scope), there] at known
      obtain rfl := Option.some.inj known
      rw [only found defines]
      rfl
    | none =>
      have finds : searched s.modules type forwardingLimit found.name.scope = .ok found := by
        rw [forwardingLimit, searched_succ, there]
        dsimp only
        rw [defines]
      have first := toOption_searched s.modules type forwardingLimit found.name.scope
      rw [finds] at first
      exact first.symm
  have tells := tells_lookup faithful.unloaded found.name.scope found.name.fullName
  rw [expected] at tells
  exact (answers_of_tells tells).resolve found.name rfl rfl

end Faithful

/-- Calls replace nothing if neither the first nor the later ones do. Whether a
later one replaces something is judged in the symbols that the first ones leave. -/
theorem unreplaced_append {later : List Call} (unreplaced : Unreplaced (calls ++ later) s) :
    Unreplaced calls s ∧ Unreplaced later (afterAll calls s) := by
  induction calls generalizing s with
  | nil => exact ⟨trivial, unreplaced⟩
  | cons call rest ih =>
    obtain ⟨first, others⟩ := unreplaced
    exact ⟨⟨first, (ih others).1⟩, (ih others).2⟩

/-- What a lookup answers is kept, whether it was found now or before. So the
next one under the same key is answered alike. -/
theorem lookup_kept (unloaded : s.loader = none)
    (ran : (lookup assembly fullName).run s = .ok found left) :
    left.types.lookup (key assembly fullName) = some found := by
  rw [run_lookup unloaded] at ran
  split at ran
  · next kept =>
    obtain ⟨rfl, rfl⟩ := by simpa using ran
    exact kept
  · split at ran
    · obtain ⟨rfl, rfl⟩ := by simpa using ran
      exact (Steps.lookup_cons _ _ _ _).trans (if_pos rfl)
    · cases ran

theorem exchanged_exchanged (fullName : String) :
    Text.exchanged '+' '/' (Text.exchanged '+' '/' fullName) = Text.exchanged '+' '/' fullName := by
  have again (c : Char) : (if (if c = '+' then '/' else c) = '+' then '/'
      else if c = '+' then '/' else c) = if c = '+' then '/' else c := by grind
  simp only [Text.exchanged, String.toList_ofList, List.map_map, Function.comp_def, again]

/-- Whatever has been called since nothing was kept for the asked assemblies,
what is kept for them leads back, as long as no module was replaced. -/
theorem faithful_afterAll (current : Module) (coreLibrary : String) (before : List Call)
    (unreplaced : Unreplaced calls (afterAll before (ofCurrent current coreLibrary)))
    (new : ∀ entry ∈ history before (ofCurrent current coreLibrary),
      ∀ assembly ∈ asked, entry.1 ≠ (assembly, type)) :
    Faithful asked type (afterAll calls (afterAll before (ofCurrent current coreLibrary))) := by
  have registered : Registered (ofCurrent current coreLibrary).modules :=
    registered_add (s := { current := current.assembly, coreLibrary }) (fun _ _ kept => by cases kept)
      current
  obtain ⟨unloaded, kept⟩ := kept_afterAll (s := ofCurrent current coreLibrary) rfl before
  have faithful : Faithful asked type (afterAll before (ofCurrent current coreLibrary)) := by
    refine ⟨unloaded, registered_afterAll rfl registered before,
      fun assembly among found there => ?_⟩
    rw [kept] at there
    obtain ⟨earlier, others, parts, -⟩ := List.lookup_eq_some_iff.1 there
    exact absurd rfl (new _ (parts ▸ List.mem_append_right _ List.mem_cons_self) assembly among)
  exact faithful.afterAll unreplaced

/-- Bound names are faithful. A module binds what it finds to itself and finds it
again by its bound name. And take any symbols without a loader in which nothing
was found of a type yet under the assembly that is asked or under the one that
the name says. As long as no module is replaced from then on, a name that is
found for the type is resolved to the definition that was found with it, now and
later, whatever else is called.

Everything that is kept since then under either of the two assemblies leads back
to the module that the name is bound to, by induction on the calls; resolving
reads nothing else. -/
theorem names_lead_back :
    (∀ (m : Module) (fullName : String) (found : BoundType), m.findType fullName = some found →
      m.Binds fullName found) ∧
    ∀ (current : Module) (coreLibrary : String) (before earlier later : List Call)
      (assembly fullName : String) (name : TypeName) (left : Symbols),
      let start := ofCurrent current coreLibrary
      let since := afterAll before start
      (∀ entry ∈ history before start,
        entry.1 ≠ key assembly fullName ∧ entry.1 ≠ key name.scope fullName) →
      Unreplaced (earlier ++ .findType assembly fullName :: later) since →
      (Symbols.findType assembly fullName).run (afterAll earlier since) = .ok (.named name) left →
      ∃ found, found.name = name ∧
        (lookup assembly fullName).run (afterAll earlier since) = .ok found left ∧
        Tells (Symbols.resolve name) (afterAll later left) (some found.definition) := by
  refine ⟨fun m fullName found finds => Module.binds_of_findType finds, ?_⟩
  intro current coreLibrary before earlier later assembly fullName name left start since new
    unreplaced ran
  obtain ⟨found, reached, looked, told⟩ := Steps.run_bind_ok.1 ran
  obtain ⟨same, there⟩ : found.name = name ∧ reached = left := by simpa using told
  rw [there] at looked
  subst same
  obtain ⟨still, -⟩ := unreplaced_append unreplaced
  have after : (Call.findType assembly fullName).after (afterAll earlier since) = left := by
    rw [after_of_lookup rfl, leftBy, looked]
  have missing : ∀ entry ∈ history before start,
      ∀ asked ∈ [Text.lowered assembly, Text.lowered found.name.scope],
        entry.1 ≠ (asked, (key assembly fullName).2) := by
    intro entry among asked member
    rcases List.mem_cons.1 member with rfl | member
    · exact (new entry among).1
    · exact List.mem_singleton.1 member ▸ (new entry among).2
  have now : Faithful [Text.lowered assembly, Text.lowered found.name.scope]
      (key assembly fullName).2 (afterAll later left) := by
    have whole := faithful_afterAll current coreLibrary before unreplaced missing
    rw [afterAll, List.foldl_append, List.foldl_cons] at whole
    exact after ▸ whole
  have unloaded : (afterAll earlier since).loader = none :=
    (kept_afterAll (kept_afterAll (s := start) rfl before).1 earlier).1
  have held : (afterAll later left).types.lookup (key assembly fullName) = some found := by
    have stays : left.loader = none := by
      rw [← after]
      exact (kept_after unloaded _).1
    rw [(kept_afterAll stays later).2, lookup_kept unloaded looked]
    rfl
  exact ⟨found, rfl, looked, now.tells_resolve (by simp) (exchanged_exchanged fullName)
    (now.kept _ List.mem_cons_self found held)⟩

/-- A module from which a type has moved with the type nested in it. -/
def formerHome : Module :=
  { name := "Facade.dll", assembly := "Facade", forwards := [("Lib.Outer", "Home")] }

/-- The module that the types have moved to. -/
def presentHome : Module where
  name := "Home.dll"
  assembly := "Home"
  types := [{
    nameSpace := "Lib"
    name := "Outer"
    nestedTypes := [{ name := "Inner", isValueType := true }] }]

/-- The nested type. -/
def innerType : BoundType where
  name := {
    scope := "Home"
    nameSpace := "Lib"
    enclosing := ["Outer"]
    name := "Inner"
    isValueType := true }
  definition := { name := "Inner", isValueType := true }

/-- The nested type is found through its former module, which is given by a
display name in another letter case. Its name leads to it, also after another
module was registered. -/
theorem names_lead_back_innerType :
    presentHome.Binds "Lib.Outer+Inner" innerType ∧ ∃ left,
      (Symbols.findType "FACADE, Version=1.0.0.0" "Lib.Outer+Inner").run
        (afterAll [.add presentHome] (ofCurrent formerHome "Home")) = .ok (.named innerType.name) left ∧
      Tells (Symbols.resolve innerType.name)
        (afterAll [.add { name := "Other.dll", assembly := "Other" }] left)
        (some innerType.definition) := by
  refine ⟨names_lead_back.1 presentHome "Lib.Outer+Inner" innerType rfl, _, rfl, ?_⟩
  have unreplaced : Unreplaced [.findType "FACADE, Version=1.0.0.0" "Lib.Outer+Inner",
      .add { name := "Other.dll", assembly := "Other" }]
        (afterAll [.add presentHome] (ofCurrent formerHome "Home")) := by
    refine ⟨id, ?_, trivial⟩
    rintro ⟨_, there, -⟩
    exact Option.some_ne_none _ (there.symm.trans rfl)
  obtain ⟨found, -, looked, tells⟩ := names_lead_back.2 formerHome "Home" [.add presentHome] []
    [.add { name := "Other.dll", assembly := "Other" }] "FACADE, Version=1.0.0.0" "Lib.Outer+Inner"
    innerType.name _ (fun entry among => by cases among) unreplaced rfl
  have finds : (lookup "FACADE, Version=1.0.0.0" "Lib.Outer+Inner").run
      (afterAll [.add presentHome] (ofCurrent formerHome "Home")) = .ok innerType _ := rfl
  obtain ⟨rfl, -⟩ := EStateM.Result.ok.inj (finds.symm.trans looked)
  exact tells

/-- The module that the types have moved to, built again: there is no nested type
any more. -/
def rebuiltHome : Module where
  name := "Home.dll"
  assembly := "Home"
  types := [{ nameSpace := "Lib", name := "Outer" }]

/-- That no module is replaced after the name was found is not enough. The outer
type is found in its module, which is then replaced, and is found again through
its former module. That gives the definition in the new module, but the name that
it is bound to is still kept with the old one. -/
theorem names_lead_astray_rebuiltHome :
    ¬ ∀ (current : Module) (coreLibrary : String) (before later : List Call)
      (assembly fullName : String) (name : TypeName) (left : Symbols),
      let since := afterAll before (ofCurrent current coreLibrary)
      Unreplaced (.findType assembly fullName :: later) since →
      (Symbols.findType assembly fullName).run since = .ok (.named name) left →
      ∃ found, found.name = name ∧ (lookup assembly fullName).run since = .ok found left ∧
        Tells (Symbols.resolve name) (afterAll later left) (some found.definition) := by
  intro claimed
  obtain ⟨found, -, looked, _, resolved⟩ := claimed formerHome "Home"
    [.add presentHome, .findType "Home" "Lib.Outer", .add rebuiltHome] [] "Facade" "Lib.Outer"
    { scope := "Home", nameSpace := "Lib", name := "Outer" } _ ⟨id, trivial⟩ rfl
  have definition : found.definition = { nameSpace := "Lib", name := "Outer" } :=
    congrArg BoundType.definition (EStateM.Result.ok.inj (looked.symm.trans rfl)).1
  have kept : found.definition = presentHome.types.head (by decide) :=
    (EStateM.Result.ok.inj (resolved.symm.trans rfl)).1
  have nested := congrArg TypeDef.nestedTypes (definition.symm.trans kept)
  cases nested

end Symbols

end InlineCil
