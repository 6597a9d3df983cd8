import InlineCil.Proofs.Resolution
import Mathlib.Data.Set.Insert

/-!
# Looking up where modules are loaded

Modules are loaded on demand: a file is looked for under the name that is asked
for, as it is spelled, and the module that it holds is registered under the name
that it declares, whatever the letter case. Where these namings agree, what was
asked before makes no difference: every name finds the module that it finds at
first, and every type is the one that is found at first.

`Coherent` is this agreement, stated for the symbols before anything was loaded
and for a set of names that may be asked for. It is needed: a file may hold an
assembly of another name, which is then found although no file has its name.

`Grown` is the invariant of requests. It compares the symbols now with those at
the start: what is registered for a name is what it was or what the name loads at
first, the files read so far are kept as the reader told them, and the types
found are those that a search finds at first. Every request keeps it and is
answered as it would have been at first, so two histories are compared through
their common start.
-/

namespace InlineCil

namespace FileTree

variable {t : FileTree} {path content : String} {canonical : List String}

/-- A walk that ends at a file ends where the file lies. By induction on the
parts of the path, as links may lead elsewhere. -/
theorem entry_of_walk {here parts : List String}
    (walked : t.walk here parts = .ok (canonical, .file content)) :
    t.entry? canonical = some (.file content) := by
  induction parts generalizing here with
  | nil =>
    unfold walk at walked
    split at walked
    · next entry there =>
      obtain ⟨rfl, rfl⟩ := by simpa using walked
      exact there
    · simp at walked
  | cons part rest ih =>
    unfold walk at walked
    split at walked
    · simp at walked
    · simp at walked
    · split at walked
      · exact ih walked
      · split at walked
        · unfold walkOutside at walked
          split at walked <;> simp at walked
        · exact ih walked
      · split at walked
        · simp at walked
        · exact ih walked

/-- A path that leads to a file leads to where the file lies. What a walk returns
is the entry at the canonical path where it ends, and outside the tree there are
no files. -/
theorem entry_of_find (found : t.find path = .ok (canonical, .file content)) :
    t.entry? canonical = some (.file content) := by
  unfold find at found
  split at found
  · simp at found
  · split at found
    · next way led =>
      obtain rfl := Except.ok.inj found
      split at led
      · unfold walkOutside at led
        split at led <;> simp at led
      · exact entry_of_walk led
    · simp at found

end FileTree

namespace ModuleCache

/-- What is kept is what the reader says of the files. -/
def Faithful (c : ModuleCache) : Prop :=
  ∀ canonical module, c.modules.lookup canonical = some module → ∃ content,
    c.tree.entry? canonical = some (.file content) ∧ content.isEmpty = false ∧
      c.reader (FileTree.pathText canonical) content = .ok module

/-- The cache before anything was read. -/
def unread (c : ModuleCache) : ModuleCache := { tree := c.tree, reader := c.reader }

/-- What the reader tells of a file is kept under the place where the file lies. -/
theorem read_of_told {c : ModuleCache} {canonical : List String} {content : String}
    {module : Module} (full : content.isEmpty = false)
    (told : c.reader (FileTree.pathText canonical) content = .ok module) :
    c.read canonical content = (.ok module,
      { c with modules := c.modules ++ [(canonical, module)], reads := c.reads + 1 }) := by
  simp only [read, full, told, Bool.false_eq_true, if_false]

/-- Loading from a path that leads to a file recalls the module that was read
there, or reads it. -/
theorem load_of_file {c : ModuleCache} {path content : String} {canonical : List String}
    (led : c.tree.find path = .ok (canonical, .file content)) :
    c.load path =
      match c.modules.lookup canonical with
      | some module => (.ok module, c)
      | none => c.read canonical content := by
  cases kept : c.modules.lookup canonical <;> simp only [load, led, kept]

/-- Reading a file tells what the reader says of it, and keeps that. The reader
is a function of the path and the content, so asking it again would tell the
same. -/
theorem read_of_faithful {c : ModuleCache} (faithful : c.Faithful) {canonical : List String}
    {content : String} (lies : c.tree.entry? canonical = some (.file content)) :
    (c.read canonical content).1 = (c.unread.read canonical content).1 ∧
      (c.read canonical content).2.unread = c.unread ∧ (c.read canonical content).2.Faithful := by
  cases full : content.isEmpty with
  | true =>
    simp only [read, full, if_true]
    exact ⟨trivial, trivial, faithful⟩
  | false =>
    cases told : c.reader (FileTree.pathText canonical) content with
    | error failure =>
      have told' : c.unread.reader (FileTree.pathText canonical) content = .error failure := told
      simp only [read, full, told, told', Bool.false_eq_true, if_false]
      exact ⟨trivial, rfl, faithful⟩
    | ok module =>
      rw [read_of_told full told, read_of_told (c := c.unread) full told]
      refine ⟨rfl, rfl, fun other kept held => ?_⟩
      dsimp only at held
      rw [List.lookup_append, Option.or_eq_some_iff] at held
      rcases held with held | ⟨-, held⟩
      · exact faithful other kept held
      · rw [Steps.lookup_cons] at held
        split at held
        · next same =>
          subst same
          obtain rfl := Option.some.inj held
          exact ⟨content, lies, full, told⟩
        · cases held

/-- Loading comes to what it comes to at first, and what is kept stays faithful
to the files. Proof: by what the path leads to; only a file with content comes to
the reader. -/
theorem load_of_faithful {c : ModuleCache} (faithful : c.Faithful) (path : String) :
    (c.load path).1 = (c.unread.load path).1 ∧ (c.load path).2.unread = c.unread ∧
      (c.load path).2.Faithful := by
  cases led : c.tree.find path with
  | error refusal =>
    have led' : c.unread.tree.find path = .error refusal := led
    rw [load, load, led, led']
    exact ⟨rfl, rfl, faithful⟩
  | ok found =>
    obtain ⟨canonical, _ | content⟩ := found
    · next content =>
      have lies := FileTree.entry_of_find led
      rw [load_of_file led, load_of_file (c := c.unread) led]
      cases kept : c.modules.lookup canonical with
      | none => exact read_of_faithful faithful lies
      | some module =>
        -- What is kept is what the reader says of this file.
        obtain ⟨held, there, full, told⟩ := faithful canonical module kept
        obtain rfl : content = held := by simpa [lies] using there
        refine ⟨?_, rfl, faithful⟩
        change _ = (c.unread.read canonical content).1
        rw [read_of_told (c := c.unread) full told]
    · have led' : c.unread.tree.find path = .ok (canonical, .directory) := led
      rw [load, load, led, led']
      exact ⟨rfl, rfl, faithful⟩

end ModuleCache

namespace Symbols

/-- What a step tells, but for the symbols that it leaves. -/
def answer {α : Type} (step : Resolving α) (s : Symbols) : Except Failure α :=
  match step.run s with
  | .ok value _ => .ok value
  | .error failure _ => .error failure

/-- The answer of a step and the symbols it leaves are read off its run. -/
theorem answer_of_run {α : Type} {step : Resolving α} {s left : Symbols}
    {outcome : Except Failure α} (ran : step.run s = (liftExcept outcome : Resolving α).run left) :
    answer step s = outcome ∧ leftBy step s = left := by
  unfold answer leftBy
  rw [ran]
  cases outcome <;> exact ⟨rfl, rfl⟩

/-- What is asked of symbols that load modules. -/
inductive Request where
  | module (assembly : String)
  | findType (assembly fullName : String)
  | resolve (name : TypeName)

namespace Request

/-- The assembly that is asked for. -/
def assembly : Request → String
  | .module assembly | .findType assembly _ => assembly
  | .resolve name => name.scope

/-- The symbols after a request. -/
def after (s : Symbols) : Request → Symbols
  | .module assembly => leftBy (Symbols.module assembly) s
  | .findType assembly fullName => leftBy (Symbols.findType assembly fullName) s
  | .resolve name => leftBy (Symbols.resolve name) s

end Request

/-- The symbols after requests, made one after the other. -/
def afterRequests (requests : List Request) (s : Symbols) : Symbols :=
  requests.foldl Request.after s

/-- Assemblies that may be asked for without regard to what was asked before:
modules move types only among them, and a module that is loaded for one is what
every one is at first that has its name or the name that the module declares, in
whatever letter case. -/
structure Coherent (s : Symbols) (names : Set String) : Prop where
  follows : ∀ assembly ∈ names, ∀ module, answer (Symbols.module assembly) s = .ok module →
    ∀ type target, module.forwardedTo type = some target → target ∈ names
  agrees : ∀ assembly ∈ names, s.registered? (simpleName assembly) = none →
    ∀ module, answer (Symbols.module assembly) s = .ok module → ∀ other ∈ names,
      Text.lowered (simpleName other) = Text.lowered (simpleName assembly) ∨
          Text.lowered (simpleName other) = Text.lowered module.assembly →
        answer (Symbols.module other) s = .ok module

/-- Symbols that answer alike, for certain assemblies. -/
structure AnswerAlike (names : Set String) (s other : Symbols) : Prop where
  module : ∀ assembly ∈ names,
    answer (Symbols.module assembly) s = answer (Symbols.module assembly) other
  findType : ∀ assembly ∈ names, ∀ fullName,
    answer (Symbols.findType assembly fullName) s =
      answer (Symbols.findType assembly fullName) other
  resolve : ∀ name : TypeName, name.scope ∈ names →
    answer (Symbols.resolve name) s = answer (Symbols.resolve name) other

/-- What a search for a type comes to at first. -/
def searchedFirst (start : Symbols) : (type : String) → (steps : Nat) → (assembly : String) →
    Except Failure BoundType :=
  searchedBy fun assembly => answer (Symbols.module assembly) start

/-- Symbols that have loaded modules and found types since the start. What is
registered for the names is what it was, or what they load at first; and types
are kept that are found at first. -/
structure Grown (start : Symbols) (names : Set String) (now : Symbols) : Prop where
  searchPaths : now.searchPaths = start.searchPaths
  loader : ∃ cache first, now.loader = some cache ∧ start.loader = some first ∧
    cache.unread = first.unread ∧ cache.Faithful ∧ first.Faithful
  modules : ∀ assembly ∈ names,
    now.registered? (simpleName assembly) = start.registered? (simpleName assembly) ∨
      ∃ module, now.registered? (simpleName assembly) = some module ∧
        answer (Symbols.module assembly) start = .ok module
  types : ∀ key found, now.types.lookup key = some found → ∀ assembly ∈ names,
    Text.lowered assembly = key.1 → searchedFirst start key.2 forwardingLimit assembly = .ok found

variable {start now : Symbols} {names : Set String} {assembly : String}

/-- Asking for a module: one that is registered, or that the first candidate
holds. Where neither is there, nothing has changed and the name is told. -/
theorem run_module_by (s : Symbols) (assembly : String) :
    (Symbols.module assembly).run s =
      match s.registered? (simpleName assembly), s.candidate? (simpleName assembly) with
      | some module, _ => .ok module s
      | none, some path => (loadModule path).run s
      | none, none => .error (.ofCause (.assemblyUnresolved (simpleName assembly))) s := by
  unfold Symbols.module
  rw [Steps.run_bind, Steps.run_get]
  dsimp only
  cases s.registered? (simpleName assembly) with
  | some module => rfl
  | none => cases s.candidate? (simpleName assembly) <;> rfl

/-- A module that is loaded is registered under the name that it declares. This
need not be the name that it was asked for by. -/
theorem run_loadModule {s : Symbols} {cache : ModuleCache} (loads : s.loader = some cache)
    (path : String) :
    (loadModule path).run s =
      match (cache.load path).1 with
      | .ok module => .ok module ({ s with loader := some (cache.load path).2 }.add module)
      | .error failure => .error failure { s with loader := some (cache.load path).2 } := by
  unfold loadModule
  rw [Steps.run_bind, Steps.run_get]
  dsimp only
  rw [loads]
  dsimp only
  rw [Steps.run_bind, Steps.run_set]
  dsimp only
  cases (cache.load path).1 <;> rfl

/-- A name that is registered tells that module, and another one what its
candidate holds. Without a candidate the name cannot be resolved, whatever the
loader keeps. -/
theorem answer_module {s : Symbols} {cache : ModuleCache} (loads : s.loader = some cache)
    (assembly : String) :
    answer (Symbols.module assembly) s =
      match s.registered? (simpleName assembly), s.candidate? (simpleName assembly) with
      | some module, _ => .ok module
      | none, some path => (cache.load path).1
      | none, none => .error (.ofCause (.assemblyUnresolved (simpleName assembly))) := by
  unfold answer
  rw [run_module_by]
  cases s.registered? (simpleName assembly) with
  | some module => rfl
  | none =>
    cases s.candidate? (simpleName assembly) with
    | none => rfl
    | some path =>
      dsimp only
      rw [run_loadModule loads]
      cases (cache.load path).1 <;> rfl

/-- Candidates are told by the search paths and the files. What was read of the
files so far does not matter. -/
theorem candidate?_congr {s other : Symbols} {cache left : ModuleCache}
    (paths : s.searchPaths = other.searchPaths) (loads : s.loader = some cache)
    (others : other.loader = some left) (same : cache.unread = left.unread) (simple : String) :
    s.candidate? simple = other.candidate? simple := by
  have tree : cache.unread.tree = left.unread.tree := congrArg ModuleCache.tree same
  change cache.tree = left.tree at tree
  unfold candidate? candidates
  rw [loads, others, paths]
  dsimp only
  rw [tree]

/-- A module is registered for every spelling of its name, and for no other name. -/
theorem registered?_add (s : Symbols) (module : Module) (assembly : String) :
    (s.add module).registered? assembly =
      if Text.lowered assembly = Text.lowered module.assembly then some module
      else s.registered? assembly := by
  unfold registered? add
  exact Steps.lookup_cons _ _ _ _

namespace Coherent

variable {other : String} {module : Module}

/-- Names that agree but for the letter case find the same module at first. For
registered names this is how they are compared; for files it is what coherence
asks. -/
theorem answer_of_lowered (coherent : Coherent start names) {cache : ModuleCache}
    (loads : start.loader = some cache) (asked : assembly ∈ names) (among : other ∈ names)
    (same : Text.lowered other = Text.lowered assembly)
    (told : answer (Symbols.module assembly) start = .ok module) :
    answer (Symbols.module other) start = .ok module := by
  have simple : Text.lowered (simpleName other) = Text.lowered (simpleName assembly) := by
    rw [← simpleName_lowered, ← simpleName_lowered, same]
  cases registered : start.registered? (simpleName assembly) with
  | none => exact coherent.agrees assembly asked registered module told other among (.inl simple)
  | some known =>
    have too : start.registered? (simpleName other) = some known := by
      unfold registered? at registered ⊢
      rwa [simple]
    rw [answer_module loads, registered] at told
    rw [answer_module loads, too]
    exact told

/-- So do searches for a type, along modules that are asked for by names in the
set. Only the first step goes by the name that was asked for; the others go by
the records of moves. -/
theorem searchedFirst_of_lowered (coherent : Coherent start names) {cache : ModuleCache}
    (loads : start.loader = some cache) (asked : assembly ∈ names) (among : other ∈ names)
    (same : Text.lowered other = Text.lowered assembly) {type : String} {steps : Nat}
    {found : BoundType} (finds : searchedFirst start type steps assembly = .ok found) :
    searchedFirst start type steps other = .ok found := by
  cases steps with
  | zero => simp [searchedFirst, searchedBy] at finds
  | succ steps =>
    unfold searchedFirst searchedBy at finds ⊢
    cases told : answer (Symbols.module assembly) start with
    | error failure => simp [told] at finds
    | ok module =>
      rw [told] at finds
      rw [coherent.answer_of_lowered loads asked among same told]
      exact finds

end Coherent

namespace Grown

/-- Asking for a module tells what it tells at first. If it loads one, coherence
says that other names find it only if they find it at first as well. -/
theorem run_module (grown : Grown start names now) (coherent : Coherent start names)
    (asked : assembly ∈ names) :
    ∃ left, Grown start names left ∧ (Symbols.module assembly).run now =
      (liftExcept (answer (Symbols.module assembly) start) : Resolving Module).run left := by
  rcases grown.modules assembly asked with still | ⟨module, registered, told⟩
  case inr => exact ⟨now, grown, by rw [run_module_by, registered, told]; rfl⟩
  obtain ⟨cache, first, loads, firstLoads, same, faithful, firstFaithful⟩ := grown.loader
  have tells := answer_module firstLoads assembly
  rw [run_module_by, still, candidate?_congr grown.searchPaths loads firstLoads same]
  cases registered : start.registered? (simpleName assembly) with
  | some module =>
    rw [registered] at tells
    exact ⟨now, grown, by rw [tells]; rfl⟩
  | none =>
    rw [registered] at tells
    cases candidate : start.candidate? (simpleName assembly) with
    | none =>
      rw [candidate] at tells
      exact ⟨now, grown, by rw [tells]; rfl⟩
    | some path =>
      rw [candidate] at tells
      dsimp only at tells ⊢
      obtain ⟨loaded, unread, keeps⟩ := ModuleCache.load_of_faithful faithful path
      rw [run_loadModule loads, loaded, same, ← (ModuleCache.load_of_faithful firstFaithful path).1,
        ← tells]
      have loading : Grown start names { now with loader := some (cache.load path).2 } :=
        { grown with
          loader := ⟨_, first, rfl, firstLoads, unread.trans same, keeps, firstFaithful⟩ }
      cases told : answer (Symbols.module assembly) start with
      | error failure => exact ⟨_, loading, rfl⟩
      | ok module =>
        refine ⟨{ now with loader := some (cache.load path).2 }.add module,
          ⟨loading.searchPaths, loading.loader, fun other among => ?_, loading.types⟩, rfl⟩
        -- The names that the module is registered for find it at first.
        rw [registered?_add]
        split
        · next declared =>
          exact .inr ⟨module, rfl, coherent.agrees assembly asked registered module told other
            among (.inr declared)⟩
        · exact loading.modules other among

/-- A search for a type tells what it tells at first, by induction on the number
of modules it may ask. -/
theorem run_search (grown : Grown start names now) (coherent : Coherent start names)
    (asked : assembly ∈ names) (type : String) (steps : Nat) :
    ∃ left, Grown start names left ∧ (search type steps assembly).run now =
      (liftExcept (searchedFirst start type steps assembly) : Resolving BoundType).run left :=
  run_search_by (fun _ grown _ asked => grown.run_module coherent asked)
    (fun _ asked _ told _ moved => coherent.follows _ asked _ told type _ moved) grown asked

/-- So does a lookup; the type that it keeps is found at first. An answer from
the types kept was found at first too, and under a key all names in the set find
the same. -/
theorem run_lookup (grown : Grown start names now) (coherent : Coherent start names)
    (asked : assembly ∈ names) (fullName : String) :
    ∃ left, Grown start names left ∧ (lookup assembly fullName).run now =
      (liftExcept (searchedFirst start (key assembly fullName).2 forwardingLimit assembly) :
        Resolving BoundType).run left := by
  rw [run_lookup_by]
  cases kept : now.types.lookup (key assembly fullName) with
  | some found =>
    refine ⟨now, grown, ?_⟩
    rw [grown.types _ found kept assembly asked rfl]
    rfl
  | none =>
    obtain ⟨left, still, ran⟩ := grown.run_search coherent asked (key assembly fullName).2
      forwardingLimit
    dsimp only
    rw [ran]
    cases told : searchedFirst start (key assembly fullName).2 forwardingLimit assembly with
    | error failure => exact ⟨left, still, rfl⟩
    | ok found =>
      obtain ⟨_, first, _, loads, _⟩ := grown.loader
      refine ⟨{ left with types := (key assembly fullName, found) :: left.types },
        ⟨still.searchPaths, still.loader, still.modules, ?_⟩, rfl⟩
      intro other type there name among same
      rw [Steps.lookup_cons] at there
      split at there
      · next new =>
        subst new
        obtain rfl := Option.some.inj there
        exact coherent.searchedFirst_of_lowered loads asked among same told
      · exact still.types other type there name among same

/-- Finding a type tells the name that it tells at first. The name is bound to
the module where the search ends. -/
theorem run_findType (grown : Grown start names now) (coherent : Coherent start names)
    (asked : assembly ∈ names) (fullName : String) :
    ∃ left, Grown start names left ∧ (Symbols.findType assembly fullName).run now =
      (liftExcept ((searchedFirst start (key assembly fullName).2 forwardingLimit assembly).map
        fun found => .named found.name) : Resolving TypeSig).run left := by
  obtain ⟨left, still, ran⟩ := grown.run_lookup coherent asked fullName
  refine ⟨left, still, ?_⟩
  unfold Symbols.findType
  rw [Steps.run_bind, ran]
  cases searchedFirst start (key assembly fullName).2 forwardingLimit assembly <;> rfl

/-- Resolving a name tells the definition that it tells at first. The name is
looked up under the assembly that it is bound to. -/
theorem run_resolve (grown : Grown start names now) (coherent : Coherent start names)
    {name : TypeName} (asked : name.scope ∈ names) :
    ∃ left, Grown start names left ∧ (Symbols.resolve name).run now =
      (liftExcept ((searchedFirst start (key name.scope name.fullName).2 forwardingLimit
        name.scope).map BoundType.definition) : Resolving TypeDef).run left := by
  obtain ⟨left, still, ran⟩ := grown.run_lookup coherent asked name.fullName
  refine ⟨left, still, ?_⟩
  unfold Symbols.resolve
  rw [Steps.run_bind, ran]
  cases searchedFirst start (key name.scope name.fullName).2 forwardingLimit name.scope <;> rfl

/-- A request leaves symbols that have grown: modules were registered that their
names find at first, and types were kept that a search finds at first. -/
theorem after (grown : Grown start names now) (coherent : Coherent start names)
    {request : Request} (asked : request.assembly ∈ names) :
    Grown start names (request.after now) := by
  cases request with
  | module assembly =>
    obtain ⟨left, still, ran⟩ := grown.run_module coherent asked
    rw [← (answer_of_run ran).2] at still
    exact still
  | findType assembly fullName =>
    obtain ⟨left, still, ran⟩ := grown.run_findType coherent asked fullName
    rw [← (answer_of_run ran).2] at still
    exact still
  | resolve name =>
    obtain ⟨left, still, ran⟩ := grown.run_resolve coherent asked
    rw [← (answer_of_run ran).2] at still
    exact still

/-- Requests leave symbols that have grown, by induction on the requests. -/
theorem afterRequests (grown : Grown start names now) (coherent : Coherent start names)
    {requests : List Request} (asked : ∀ request ∈ requests, request.assembly ∈ names) :
    Grown start names (Symbols.afterRequests requests now) := by
  induction requests generalizing now with
  | nil => exact grown
  | cons request rest ih =>
    obtain ⟨first, others⟩ := List.forall_mem_cons.1 asked
    exact ih (grown.after coherent first) others

/-- Symbols that have grown from the same start answer alike, since both answer
as the start would. So it does not matter in which order requests were made, or
which. -/
theorem answerAlike {other : Symbols} (grown : Grown start names now)
    (grownToo : Grown start names other) (coherent : Coherent start names) :
    AnswerAlike names now other where
  module _ asked := by
    obtain ⟨_, _, ran⟩ := grown.run_module coherent asked
    obtain ⟨_, _, ranToo⟩ := grownToo.run_module coherent asked
    rw [(answer_of_run ran).1, (answer_of_run ranToo).1]
  findType _ asked fullName := by
    obtain ⟨_, _, ran⟩ := grown.run_findType coherent asked fullName
    obtain ⟨_, _, ranToo⟩ := grownToo.run_findType coherent asked fullName
    rw [(answer_of_run ran).1, (answer_of_run ranToo).1]
  resolve _ asked := by
    obtain ⟨_, _, ran⟩ := grown.run_resolve coherent asked
    obtain ⟨_, _, ranToo⟩ := grownToo.run_resolve coherent asked
    rw [(answer_of_run ran).1, (answer_of_run ranToo).1]

end Grown

/-- Before anything is loaded or found, symbols have grown from themselves.
Modules may be registered already, as long as nothing was read or kept. -/
theorem Grown.initial {cache : ModuleCache} (loads : start.loader = some cache)
    (unread : cache.modules = []) (unused : start.types = []) (names : Set String) :
    Grown start names start where
  searchPaths := rfl
  loader := by
    have faithful : cache.Faithful := fun _ _ kept => by simp [unread] at kept
    exact ⟨cache, cache, loads, loads, rfl, faithful, faithful⟩
  modules _ _ := .inl rfl
  types key found kept := by simp [unused] at kept

/-- Where modules are loaded on demand, requests for coherent assemblies are
answered alike after any two histories of such requests: none makes another
assembly found, lost or replaced.

Both histories leave symbols that have grown from the same start, and those
answer as the start does. -/
theorem answers_without_history (s : Symbols) (cache : ModuleCache) (loads : s.loader = some cache)
    (unread : cache.modules = []) (unused : s.types = []) (names : Set String)
    (coherent : Coherent s names) (earlier others : List Request)
    (asked : ∀ request ∈ earlier, request.assembly ∈ names)
    (askedToo : ∀ request ∈ others, request.assembly ∈ names) :
    AnswerAlike names (afterRequests earlier s) (afterRequests others s) :=
  have initial := Grown.initial loads unread unused names
  (initial.afterRequests coherent asked).answerAlike (initial.afterRequests coherent askedToo)
    coherent

/-- Symbols that look for modules in files at the root. -/
def loadingSymbols (files : List (String × String)) (held : String → Module) : Symbols :=
  { Symbols.ofCurrent { name := "Program.dll", assembly := "Program" } "Home" with
    searchPaths := ["."]
    loader := some {
      tree := files.foldl (fun tree file => tree.add file.1 file.2) {}
      reader := fun _ content => .ok (held content) } }

/-- A module from which a type has moved to another one. -/
def movingModules : String → Module
  | "Facade" => { name := "Facade.dll", assembly := "Facade", forwards := [("Lib.Moved", "Home")] }
  | _ => {
      name := "Home.dll"
      assembly := "Home"
      types := [{ nameSpace := "Lib", name := "Moved" }] }

/-- Symbols that look for both modules. -/
def movingSymbols : Symbols :=
  loadingSymbols [("Facade.dll", "Facade"), ("Home.dll", "Home")] movingModules

/-- Two modules in files of their own names are coherent, also if a type moves
from one to the other. The file of each module is the one that its assembly's
name leads to. -/
theorem coherent_movingSymbols : Coherent movingSymbols {"Facade", "Home"} := by
  have facade : answer (Symbols.module "Facade") movingSymbols = .ok (movingModules "Facade") := rfl
  have home : answer (Symbols.module "Home") movingSymbols = .ok (movingModules "Home") := rfl
  refine ⟨?_, ?_⟩
  · rintro assembly (rfl | rfl) module told type target moved
    · obtain rfl := Except.ok.inj (facade.symm.trans told)
      have named : target = "Home" := by
        simp only [Module.forwardedTo, movingModules, List.lookup_cons, List.lookup_nil] at moved
        split at moved <;> simp_all
      exact .inr named
    · obtain rfl := Except.ok.inj (home.symm.trans told)
      simp [Module.forwardedTo, movingModules] at moved
  · rintro assembly (rfl | rfl) - module told other (rfl | rfl) agree
    · exact told
    · obtain rfl := Except.ok.inj (facade.symm.trans told)
      exact absurd agree (by decide)
    · obtain rfl := Except.ok.inj (home.symm.trans told)
      exact absurd agree (by decide)
    · exact told

/-- The type has moved from a module that is loaded before the one that has it,
or after it. -/
theorem answers_without_history_movingSymbols :
    (∃ cache, movingSymbols.loader = some cache ∧ cache.modules = []) ∧ movingSymbols.types = [] ∧
      Coherent movingSymbols {"Facade", "Home"} ∧
      AnswerAlike {"Facade", "Home"}
        (afterRequests [.findType "Facade" "Lib.Moved", .module "Facade"] movingSymbols)
        (afterRequests [.module "Home"] movingSymbols) :=
  ⟨⟨_, rfl, rfl⟩, rfl, coherent_movingSymbols,
    answers_without_history movingSymbols _ rfl rfl rfl _ coherent_movingSymbols _ _
      (by simp [Request.assembly]) (by simp [Request.assembly])⟩

/-- A file that declares another assembly than its name says. -/
def misnamedSymbols : Symbols :=
  loadingSymbols [("A.dll", "B")] fun content => { name := "A.dll", assembly := content }

/-- Without coherence, an assembly that is not found at first is found once
another one has been asked for, from whose file it is loaded. -/
theorem answers_with_history_misnamedSymbols :
    (∃ cache, misnamedSymbols.loader = some cache ∧ cache.modules = []) ∧
      misnamedSymbols.types = [] ∧
      answer (Symbols.module "B") (afterRequests [] misnamedSymbols) =
        .error (.ofCause (.assemblyUnresolved "B")) ∧
      answer (Symbols.module "B") (afterRequests [.module "A"] misnamedSymbols) =
        .ok { name := "A.dll", assembly := "B" } :=
  ⟨⟨_, rfl, rfl⟩, rfl, rfl, rfl⟩

end Symbols

end InlineCil
