import InlineCil.Proofs.Lookups
import Mathlib.Data.List.Basic
import Mathlib.Data.Set.Basic

/-!
# Looking types up without a loader

Where nothing loads modules, looking a type up is a function of the registered
modules and of what was found before. The search goes along a chain of modules,
from the named assembly to where each module says that the type has moved, and
the first module that defines the type answers, if it is among those that are
asked. What was found for a key once is answered again for ever.

The specification has no recursion on the search. `chain` gives the module that
is reached after some number of moves, and `firstDefined` the first of them that
has the type, up to the limit. `searched` is the program's search as a function,
kept general in how modules are asked for, so that it serves symbols that load
modules as well.

Calls are data, and `history` lists what they have found, each with the key it is
kept under. What symbols keep after calls is what they kept before and, for other
keys, the first find in the history. The theorem about lookups puts this together
with the chain.
-/

namespace InlineCil

namespace Symbols

/-- What a type found is kept under: the lowered assembly, and the written name
with slashes. -/
def key (assembly fullName : String) : String × String :=
  (Text.lowered assembly, Text.exchanged '+' '/' fullName)

/-- The registered module of an assembly, which may be given by its display name. -/
def moduleOf? (modules : List (String × Module)) (assembly : String) : Option Module :=
  modules.lookup (Text.lowered (simpleName assembly))

/-- The module that is reached from an assembly after so many moves of a type. -/
def chain (modules : List (String × Module)) (type assembly : String) :
    (moves : Nat) → Option Module
  | 0 => moduleOf? modules assembly
  | moves + 1 =>
      ((chain modules type assembly moves).bind (·.forwardedTo type)).bind (moduleOf? modules)

/-- The type as the first module of the chain defines it, of as many modules as
are asked. -/
def firstDefined (modules : List (String × Module)) (type assembly : String) : Option BoundType :=
  (List.range forwardingLimit).findSome? fun moves =>
    (chain modules type assembly moves).bind (·.findType type)

/-- What a search for a type comes to, by what asking for modules comes to. -/
def searchedBy (find : String → Except Failure Module) (type : String) :
    (steps : Nat) → (assembly : String) → Except Failure BoundType
  | 0, _ => .error (.ofCause (.forwardingTooLong type))
  | steps + 1, assembly =>
      match find assembly with
      | .error failure => .error (toldOfType type assembly failure)
      | .ok module =>
          match module.findType type with
          | some found => .ok found
          | none =>
              match module.forwardedTo type with
              | some target => searchedBy find type steps target
              | none => .error (.ofCause (.typeMissing type module.assembly))

/-- What asking for a module comes to where none is loaded. -/
def moduleIn (modules : List (String × Module)) (assembly : String) : Except Failure Module :=
  match moduleOf? modules assembly with
  | some module => .ok module
  | none => .error (.ofCause (.assemblyUnresolved (simpleName assembly)))

/-- What a search for a type comes to where no module is loaded. -/
def searched (modules : List (String × Module)) :
    (type : String) → (steps : Nat) → (assembly : String) → Except Failure BoundType :=
  searchedBy (moduleIn modules)

variable {s : Symbols} {modules : List (String × Module)} {type assembly fullName : String}
  {steps moves : Nat} {module : Module} {found : BoundType}

/-- A search asks one module and goes on where the type has moved from there. The
number of steps is the number of modules that may still be asked. -/
theorem searched_succ (modules : List (String × Module)) (type : String) (steps : Nat)
    (assembly : String) :
    searched modules type (steps + 1) assembly =
      match moduleOf? modules assembly with
      | none => .error (.ofCause (.typeWithoutAssembly type assembly))
      | some module =>
          match module.findType type with
          | some found => .ok found
          | none =>
              match module.forwardedTo type with
              | some target => searched modules type steps target
              | none => .error (.ofCause (.typeMissing type module.assembly)) := by
  rw [searched, searchedBy, moduleIn]
  cases moduleOf? modules assembly <;> rfl

/-- Where asking for a module keeps to something and comes to what is said, so
does a search, as long as types move to assemblies that may be asked for. By
induction on the number of modules it may ask. -/
theorem run_search_by {find : String → Except Failure Module} {keeps : Symbols → Prop}
    {names : Set String}
    (asks : ∀ s, keeps s → ∀ assembly ∈ names, ∃ left, keeps left ∧
      (Symbols.module assembly).run s = (liftExcept (find assembly) : Resolving Module).run left)
    (follows : ∀ assembly ∈ names, ∀ module, find assembly = .ok module →
      ∀ target, module.forwardedTo type = some target → target ∈ names)
    (kept : keeps s) (asked : assembly ∈ names) :
    ∃ left, keeps left ∧ (search type steps assembly).run s =
      (liftExcept (searchedBy find type steps assembly) : Resolving BoundType).run left := by
  induction steps generalizing s assembly with
  | zero => exact ⟨s, kept, rfl⟩
  | succ steps ih =>
    obtain ⟨left, still, ran⟩ := asks s kept assembly asked
    rw [search, Steps.run_bind, Steps.run_tryCatch, ran, searchedBy]
    cases told : find assembly with
    | error failure => exact ⟨left, still, rfl⟩
    | ok module =>
      rw [Steps.run_liftExcept_ok]
      dsimp only
      cases module.findType type with
      | some found => exact ⟨left, still, rfl⟩
      | none =>
        cases moved : module.forwardedTo type with
        | some target => exact ih still (follows assembly asked module told target moved)
        | none => exact ⟨left, still, rfl⟩

/-- Without a loader, asking for a module looks among the registered ones and
changes nothing. So it is a function of the modules, lifted to a step. -/
theorem run_module (unloaded : s.loader = none) (assembly : String) :
    (Symbols.module assembly).run s =
      (liftExcept (moduleIn s.modules assembly) : Resolving Module).run s := by
  have nowhere (simple : String) : s.candidate? simple = none := by
    unfold candidate?
    rw [unloaded]
  unfold Symbols.module
  rw [Steps.run_bind, Steps.run_get]
  dsimp only
  rw [nowhere, moduleIn]
  change (match moduleOf? s.modules assembly with | some _ => _ | none => _ :
    Resolving Module).run s = _
  cases moduleOf? s.modules assembly <;> rfl

/-- Without a loader a search changes nothing, and finds what it finds as a
function of the modules. It is an instance of the general lemma on searches, with
symbols that stay the same. -/
theorem run_search (unloaded : s.loader = none) (type : String) (steps : Nat) (assembly : String) :
    (search type steps assembly).run s =
      (liftExcept (searched s.modules type steps assembly) : Resolving BoundType).run s := by
  have asks (now : Symbols) (same : now = s) (asked : String) (_ : asked ∈ Set.univ) :
      ∃ left, left = s ∧ (Symbols.module asked).run now =
        (liftExcept (moduleIn s.modules asked) : Resolving Module).run left := by
    subst same
    exact ⟨now, rfl, run_module unloaded asked⟩
  have searches : ∃ left, left = s ∧ (search type steps assembly).run s =
      (liftExcept (searched s.modules type steps assembly) : Resolving BoundType).run left :=
    run_search_by asks (fun _ _ _ _ _ _ => trivial) rfl (Set.mem_univ assembly)
  obtain ⟨_, rfl, ran⟩ := searches
  exact ran

/-- A type that was found before is not looked for; one that is found is kept.
This holds with a loader too, where the search may leave other symbols behind. -/
theorem run_lookup_by (s : Symbols) (assembly fullName : String) :
    (lookup assembly fullName).run s =
      match s.types.lookup (key assembly fullName) with
      | some found => .ok found s
      | none =>
          match (search (key assembly fullName).2 forwardingLimit assembly).run s with
          | .ok found left =>
              .ok found { left with types := (key assembly fullName, found) :: left.types }
          | .error failure left => .error failure left := by
  unfold lookup
  rw [Steps.run_bind, Steps.run_get]
  change (match s.types.lookup (key assembly fullName) with | some _ => _ | none => _ :
    Resolving BoundType).run s = _
  cases s.types.lookup (key assembly fullName) with
  | some found => rfl
  | none =>
    dsimp only
    rw [Steps.run_bind]
    simp only [key]
    cases (search (Text.exchanged '+' '/' fullName) forwardingLimit assembly).run s <;> rfl

/-- Without a loader, a lookup answers what was found before or what the search
comes to, and only a find changes the symbols. -/
theorem run_lookup (unloaded : s.loader = none) (assembly fullName : String) :
    (lookup assembly fullName).run s =
      match s.types.lookup (key assembly fullName) with
      | some found => .ok found s
      | none =>
          match searched s.modules (key assembly fullName).2 forwardingLimit assembly with
          | .ok found => .ok found { s with types := (key assembly fullName, found) :: s.types }
          | .error failure => .error failure s := by
  rw [run_lookup_by, run_search unloaded]
  cases searched s.modules (key assembly fullName).2 forwardingLimit assembly <;> rfl

/-- The chain from where a type has moved to is the rest of the chain. It is
defined from its far end, and searches go along it from the near one. -/
theorem chain_succ (there : moduleOf? modules assembly = some module) (moves : Nat) :
    chain modules type assembly (moves + 1) =
      (module.forwardedTo type).bind fun target => chain modules type target moves := by
  induction moves with
  | zero => cases moved : module.forwardedTo type <;> simp [chain, there, moved]
  | succ moves ih =>
    rw [chain, ih]
    cases module.forwardedTo type <;> rfl

theorem chain_of_missing (missing : moduleOf? modules assembly = none) (moves : Nat) :
    chain modules type assembly moves = none := by
  induction moves with
  | zero => exact missing
  | succ moves ih => rw [chain, ih]; rfl

/-- The search finds what the first module of the chain that defines the type
has. By induction on the number of modules it may ask. -/
theorem toOption_searched (modules : List (String × Module)) (type : String) (steps : Nat)
    (assembly : String) :
    (searched modules type steps assembly).toOption =
      (List.range steps).findSome? fun moves =>
        (chain modules type assembly moves).bind (·.findType type) := by
  induction steps generalizing assembly with
  | zero => rfl
  | succ steps ih =>
    rw [searched_succ, List.range_succ_eq_map, List.findSome?_cons, List.findSome?_map]
    cases there : moduleOf? modules assembly with
    | none =>
      simp only [chain_of_missing there, Option.bind_none, Function.comp_def]
      exact (List.findSome?_eq_none_iff.2 fun _ _ => rfl).symm
    | some module =>
      rw [chain, there]
      dsimp only [Option.bind_some]
      cases module.findType type with
      | some found => rfl
      | none =>
        simp only [Function.comp_def, Nat.succ_eq_add_one, chain_succ there]
        cases module.forwardedTo type with
        | some target => exact ih target
        | none => exact (List.findSome?_eq_none_iff.2 fun _ _ => rfl).symm

/-- A search that fails has not found, for whichever of the reasons there are: an
assembly that is unknown, a type that its module does not have, or too many
moves. -/
theorem kind_of_searched {failure : Failure}
    (failed : searched modules type steps assembly = .error failure) :
    failure.kind? = some .notFound := by
  induction steps generalizing assembly with
  | zero =>
    obtain rfl := Except.error.inj failed
    rfl
  | succ steps ih =>
    rw [searched_succ] at failed
    split at failed
    · obtain rfl := Except.error.inj failed
      rfl
    · split at failed
      · cases failed
      · split at failed
        · exact ih failed
        · obtain rfl := Except.error.inj failed
          rfl

/-- A small letter of a capital is 32 code points after it, and all else stays.
Lowering once is therefore lowering for good. -/
theorem toNat_toLower (c : Char) :
    c.toLower.toNat = if 65 ≤ c.toNat ∧ c.toNat ≤ 90 then c.toNat + 32 else c.toNat := by
  have bounds : (c.val ≥ 'A'.val ∧ c.val ≤ 'Z'.val) ↔ 65 ≤ c.toNat ∧ c.toNat ≤ 90 := Iff.rfl
  unfold Char.toLower
  split
  · next upper =>
    have high : c.val.toNat ≤ 90 := (bounds.1 upper).2
    rw [if_pos (bounds.1 upper)]
    change (c.val + 32).toNat = c.val.toNat + 32
    rw [UInt32.toNat_add]
    exact Nat.mod_eq_of_lt (by change c.val.toNat + 32 < 4294967296; omega)
  · next lower => rw [if_neg (mt bounds.2 lower)]

theorem isBlank_toLower (c : Char) : Text.isBlank c.toLower = Text.isBlank c := by
  unfold Text.isBlank
  rw [toNat_toLower]
  grind

theorem toLower_eq_comma (c : Char) : c.toLower = ',' ↔ c = ',' := by
  have same (d : Char) : d = ',' ↔ d.toNat = 44 := by
    constructor
    · rintro rfl
      rfl
    · intro code
      exact Char.toNat_inj.1 code
  rw [same, same, toNat_toLower]
  grind

/-- The simple name of an assembly in small letters is its simple name, in small
letters. -/
theorem simpleName_lowered (assembly : String) :
    simpleName (Text.lowered assembly) = Text.lowered (simpleName assembly) := by
  have stops : (fun c : Char => !decide (c = ',')) ∘ Char.toLower = fun c => !decide (c = ',') := by
    funext c
    simp [toLower_eq_comma]
  have blank : Text.isBlank ∘ Char.toLower = Text.isBlank := funext isBlank_toLower
  simp only [simpleName, Text.lowered, Text.firstSegment, Text.trimmedList, String.toList_ofList,
    List.takeWhile_map, List.dropWhile_map, ← List.map_reverse, stops, blank]

/-- Spellings that differ in letter case only find the same module. -/
theorem moduleOf?_congr {other : String} (same : Text.lowered assembly = Text.lowered other) :
    moduleOf? modules assembly = moduleOf? modules other := by
  unfold moduleOf?
  rw [← simpleName_lowered, ← simpleName_lowered, same]

/-- A search finds the same from however the assembly is spelled. What it fails
with may still differ, since messages quote the spelling. -/
theorem toOption_searched_congr {other : String}
    (same : Text.lowered assembly = Text.lowered other) :
    (searched modules type steps assembly).toOption =
      (searched modules type steps other).toOption := by
  cases steps with
  | zero => rfl
  | succ steps =>
    rw [searched_succ, searched_succ, moduleOf?_congr same]
    cases moduleOf? modules other with
    | none => rfl
    | some module => rfl

/-- What is asked of symbols: registering a module, and the three ways to look a
type up. -/
inductive Call where
  | add (module : Module)
  | findType (assembly fullName : String)
  | resolve (name : TypeName)
  | coreType (nameSpace name : String)

/-- The symbols that a step leaves behind. -/
def leftBy {α : Type} (step : Resolving α) (s : Symbols) : Symbols :=
  match step.run s with
  | .ok _ left => left
  | .error _ left => left

namespace Call

/-- The assembly and the type that a call looks up. -/
def lookup? (s : Symbols) : Call → Option (String × String)
  | .add _ => none
  | .findType assembly fullName => some (assembly, fullName)
  | .resolve name => some (name.scope, name.fullName)
  | .coreType nameSpace name => some (s.coreLibrary, nameSpace ++ "." ++ name)

/-- The symbols after a call. -/
def after (s : Symbols) : Call → Symbols
  | .add module => s.add module
  | .findType assembly fullName => leftBy (Symbols.findType assembly fullName) s
  | .resolve name => leftBy (Symbols.resolve name) s
  | .coreType nameSpace name => leftBy (Symbols.coreType nameSpace name) s

/-- What the lookup of a call finds, with its key. -/
def found? (s : Symbols) (call : Call) : Option ((String × String) × BoundType) :=
  (call.lookup? s).bind fun (assembly, fullName) =>
    match (Symbols.lookup assembly fullName).run s with
    | .ok found _ => some (key assembly fullName, found)
    | .error _ _ => none

end Call

/-- The symbols after calls, one after the other. -/
def afterAll (calls : List Call) (s : Symbols) : Symbols := calls.foldl Call.after s

/-- The lookups that were successful in a sequence of calls, in their order, each
with its key. -/
def history : List Call → Symbols → List ((String × String) × BoundType)
  | [], _ => []
  | call :: rest, s => (call.found? s).toList ++ history rest (call.after s)

variable {call : Call} {calls : List Call}

/-- A step tells a value, or that it has not found, and then it has left the
symbols alone. -/
def Tells {α : Type} (step : Resolving α) (s : Symbols) (told : Option α) : Prop :=
  match told with
  | some value => ∃ left, step.run s = .ok value left
  | none => ∃ failure, step.run s = .error failure s ∧ failure.kind? = some .notFound

/-- The ways to look a type up tell what is expected: its name, its definition,
and for a type of the core library its name in any case. -/
structure Answers (s : Symbols) (assembly fullName : String) (expected : Option BoundType) :
    Prop where
  findType : Tells (Symbols.findType assembly fullName) s
    (expected.map fun found => .named found.name)
  resolve : ∀ name : TypeName, name.scope = assembly → name.fullName = fullName →
    Tells (Symbols.resolve name) s (expected.map BoundType.definition)
  coreType : ∀ nameSpace name, s.coreLibrary = assembly → nameSpace ++ "." ++ name = fullName →
    Tells (Symbols.coreType nameSpace name) s
      (some ((expected.map fun found => .named found.name).getD
        (s.undefinedCoreType nameSpace name)))

/-- A lookup tells what was kept, or what the first module of the chain defines,
or that it has not found. -/
theorem tells_lookup (unloaded : s.loader = none) (assembly fullName : String) :
    Tells (lookup assembly fullName) s ((s.types.lookup (key assembly fullName)).or
      (firstDefined s.modules (key assembly fullName).2 assembly)) := by
  unfold Tells firstDefined
  rw [run_lookup unloaded, ← toOption_searched]
  cases s.types.lookup (key assembly fullName) with
  | some found => exact ⟨s, rfl⟩
  | none =>
    cases result : searched s.modules (key assembly fullName).2 forwardingLimit assembly with
    | ok found => exact ⟨_, rfl⟩
    | error failure => exact ⟨failure, rfl, kind_of_searched result⟩

/-- The three ways to look a type up come down to one lookup. Finding a type
forgets its definition and resolving a name forgets its name, and the third falls
back where the lookup fails. -/
theorem answers_of_tells {expected : Option BoundType}
    (tells : Tells (lookup assembly fullName) s expected) :
    Answers s assembly fullName expected := by
  unfold Tells at tells
  cases expected with
  | some found =>
    obtain ⟨left, ran⟩ := tells
    refine ⟨⟨left, Steps.run_bind_ok.2 ⟨found, left, ran, rfl⟩⟩, ?_, ?_⟩
    · rintro name rfl rfl
      exact ⟨left, Steps.run_bind_ok.2 ⟨found, left, ran, rfl⟩⟩
    · rintro nameSpace name rfl rfl
      refine ⟨left, ?_⟩
      have telling : (Symbols.findType s.coreLibrary (nameSpace ++ "." ++ name)).run s =
          .ok (.named found.name) left := Steps.run_bind_ok.2 ⟨found, left, ran, rfl⟩
      unfold Symbols.coreType
      rw [Steps.run_bind, Steps.run_get]
      dsimp only
      rw [Steps.run_tryCatch, telling]
      rfl
  | none =>
    obtain ⟨failure, ran, kind⟩ := tells
    refine ⟨⟨failure, ?_, kind⟩, ?_, ?_⟩
    · unfold Symbols.findType
      rw [Steps.run_bind, ran]
    · rintro name rfl rfl
      refine ⟨failure, ?_, kind⟩
      unfold Symbols.resolve
      rw [Steps.run_bind, ran]
    · rintro nameSpace name rfl rfl
      refine ⟨s, ?_⟩
      have telling : (Symbols.findType s.coreLibrary (nameSpace ++ "." ++ name)).run s =
          .error failure s := by
        unfold Symbols.findType
        rw [Steps.run_bind, ran]
      unfold Symbols.coreType
      rw [Steps.run_bind, Steps.run_get]
      dsimp only
      rw [Steps.run_tryCatch, telling]
      rfl

/-- What a call leaves behind is what its lookup leaves behind. Calls that
register a module have no lookup and are told apart. -/
theorem after_of_lookup (looks : call.lookup? s = some (assembly, fullName)) :
    call.after s = leftBy (lookup assembly fullName) s := by
  cases call with
  | add module => cases looks
  | findType _ _ =>
    obtain ⟨rfl, rfl⟩ := Prod.mk.inj (Option.some.inj looks)
    simp only [Call.after, leftBy, Symbols.findType, Steps.run_bind]
    cases (lookup _ _).run s <;> rfl
  | resolve name =>
    obtain ⟨rfl, rfl⟩ := Prod.mk.inj (Option.some.inj looks)
    simp only [Call.after, leftBy, Symbols.resolve, Steps.run_bind]
    cases (lookup _ _).run s <;> rfl
  | coreType nameSpace name =>
    obtain ⟨rfl, rfl⟩ := Prod.mk.inj (Option.some.inj looks)
    simp only [Call.after, leftBy, Symbols.coreType, Symbols.findType, Steps.run_bind,
      Steps.run_get, Steps.run_tryCatch]
    cases (lookup _ _).run s <;> rfl

/-- A call keeps what was kept and adds what it has found, if that is new.
Registering a module makes nothing forgotten. -/
theorem kept_after (unloaded : s.loader = none) (call : Call) :
    (call.after s).loader = none ∧ ∀ key, (call.after s).types.lookup key =
      (s.types.lookup key).or ((call.found? s).toList.lookup key) := by
  cases looks : call.lookup? s with
  | none =>
    cases call with
    | add module => exact ⟨unloaded, fun key => by simp [Call.after, add, Call.found?, looks]⟩
    | _ => cases looks
  | some asked =>
    obtain ⟨assembly, fullName⟩ := asked
    rw [after_of_lookup looks]
    simp only [Call.found?, looks, Option.bind_some, leftBy]
    rw [run_lookup unloaded]
    cases kept : s.types.lookup (key assembly fullName) with
    | some found =>
      refine ⟨unloaded, fun other => ?_⟩
      dsimp only
      rw [Option.toList_some, Steps.lookup_cons]
      split
      · next same => simp [same, kept]
      · simp
    | none =>
      cases searched s.modules (key assembly fullName).2 forwardingLimit assembly with
      | error failure => exact ⟨unloaded, fun other => by simp⟩
      | ok found =>
        refine ⟨unloaded, fun other => ?_⟩
        dsimp only
        rw [Option.toList_some, Steps.lookup_cons, Steps.lookup_cons]
        split
        · next same => simp [same, kept]
        · simp

/-- What calls have found is found first by the first ones and then by the later
ones, which may ask in symbols that have changed. -/
theorem history_append (calls later : List Call) (s : Symbols) :
    history (calls ++ later) s = history calls s ++ history later (afterAll calls s) := by
  induction calls generalizing s with
  | nil => rfl
  | cons call calls ih =>
    rw [List.cons_append, history, history, ih, List.append_assoc]
    rfl

/-- What is kept after calls is what was kept before, and else what was found
first. By induction on the calls. -/
theorem kept_afterAll (unloaded : s.loader = none) (calls : List Call) :
    (afterAll calls s).loader = none ∧ ∀ key, (afterAll calls s).types.lookup key =
      (s.types.lookup key).or ((history calls s).lookup key) := by
  induction calls generalizing s with
  | nil => exact ⟨unloaded, fun key => by simp [afterAll, history]⟩
  | cons call calls ih =>
    obtain ⟨still, kept⟩ := kept_after unloaded call
    obtain ⟨left, all⟩ := ih still
    refine ⟨left, fun key => ?_⟩
    change (afterAll calls (call.after s)).types.lookup key = _
    rw [all, kept, history, List.lookup_append, Option.or_assoc]

/-- After any calls, a lookup answers the type that was found first for its key.
If none was, it answers the type that the first module of the chain from its
assembly defines, of those that are asked in the modules as they are then; if
none of them does, it fails and is not remembered.

What was answered once is answered from then on, whatever else is called. -/
theorem lookups_remembered (s : Symbols) (unloaded : s.loader = none) (unused : s.types = [])
    (calls : List Call) (assembly fullName : String) :
    let now := afterAll calls s
    let expected := ((history calls s).lookup (key assembly fullName)).or
      (firstDefined now.modules (key assembly fullName).2 assembly)
    Answers now assembly fullName expected ∧
    ∀ found, expected = some found → ∀ call : Call, call.lookup? now = some (assembly, fullName) →
      ∀ later other name, key other name = key assembly fullName →
        Answers (afterAll (calls ++ call :: later) s) other name (some found) := by
  intro now expected
  obtain ⟨still, kept⟩ := kept_afterAll unloaded calls
  have tells := tells_lookup still assembly fullName
  rw [kept, unused] at tells
  change Tells _ now expected at tells
  refine ⟨answers_of_tells tells, fun found expects call looks later other name same => ?_⟩
  have remembered : (history (calls ++ call :: later) s).lookup (key other name) = some found := by
    rw [expects] at tells
    obtain ⟨left, ran⟩ := tells
    have finds : call.found? now = some (key assembly fullName, found) := by
      simp only [Call.found?, looks, Option.bind_some, ran]
    rw [history_append, history, finds, same, List.lookup_append, List.lookup_append]
    cases before : (history calls s).lookup (key assembly fullName) with
    | none => simp
    | some first =>
      obtain rfl : first = found := by simpa [expected, before] using expects
      simp
  obtain ⟨left, all⟩ := kept_afterAll unloaded (calls ++ call :: later)
  have tells_later := tells_lookup left other name
  rw [all, unused, remembered] at tells_later
  exact answers_of_tells tells_later

/-- A module that says a type has moved to another one. -/
def forwardingSymbols : Symbols :=
  (ofCurrent { name := "Facade.dll", assembly := "Facade", forwards := [("Lib.Moved", "Home")] }
    "Home").add
      { name := "Home.dll", assembly := "Home", types := [{ nameSpace := "Lib", name := "Moved" }] }

/-- The type that has moved. -/
def movedType : BoundType where
  name := { scope := "Home", nameSpace := "Lib", name := "Moved" }
  definition := { nameSpace := "Lib", name := "Moved" }

/-- The type is still answered when its module has been replaced by an empty one. -/
theorem lookups_remembered_forwarding :
    forwardingSymbols.loader = none ∧ forwardingSymbols.types = [] ∧
      Answers (afterAll [.findType "FACADE" "Lib.Moved",
        .add { name := "Home.dll", assembly := "Home" }] forwardingSymbols) "facade" "Lib.Moved" (some movedType) := by
  refine ⟨rfl, rfl, ?_⟩
  have answers := (lookups_remembered forwardingSymbols rfl rfl [.findType "FACADE" "Lib.Moved",
    .add { name := "Home.dll", assembly := "Home" }] "facade" "Lib.Moved").1
  have expected : ((history [.findType "FACADE" "Lib.Moved",
      .add { name := "Home.dll", assembly := "Home" }] forwardingSymbols).lookup
        (key "facade" "Lib.Moved")) = some movedType := by rfl
  rw [expected] at answers
  exact answers

end Symbols

end InlineCil
