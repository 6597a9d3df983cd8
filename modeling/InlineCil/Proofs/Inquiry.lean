import InlineCil.Proofs.Resolution
import Mathlib.Data.List.FinRange
import Mathlib.Logic.Function.Basic
import Mathlib.Logic.Relation

/-!
# Steps that share what was found

Steps that look up types share one store of the types found so far. Where nothing
loads modules and none is registered, that is all they share, and a step touches
it in two ways only: it looks whether a type was found, and it keeps one that it
has found. An inquiry is a step told by these accesses. Several inquiries may go
on at once, their accesses mixed in any order.

What is kept is right: it is what any search for it would find. So an inquiry
comes to the same whatever is there when it looks, and whoever has kept it.

`Settles` is the invariant behind this, an inductive predicate on inquiries
alone. An inquiry settles on a value if it does under every right answer, and
keeps right finds only. An access of one inquiry leaves the others as they are
and the store right; so the values that inquiries settle on never change, and one
that has come to its end has come to its value.
-/

namespace InlineCil

/-- Types found so far, by lowered assembly and written name. -/
abbrev Finds := List ((String × String) × BoundType)

/-- A step, told by its accesses to the types found so far. -/
inductive Inquiry (α : Type) where
  | done (value : α)
  | ask (key : String × String) (next : Option BoundType → Inquiry α)
  | keep (key : String × String) (found : BoundType) (next : Inquiry α)

namespace Inquiry

variable {α β : Type}

/-- What an inquiry comes to alone, and what has been found afterwards. -/
def run : Inquiry α → Finds → α × Finds
  | done value, finds => (value, finds)
  | ask key next, finds => (next (finds.lookup key)).run finds
  | keep key found next, finds => next.run ((key, found) :: finds)

/-- One inquiry after another. -/
def bind : Inquiry α → (α → Inquiry β) → Inquiry β
  | done value, next => next value
  | ask key first, next => .ask key fun told => (first told).bind next
  | keep key found first, next => .keep key found (first.bind next)

/-- Alone, two inquiries one after the other come to what the second comes to
after the first. -/
theorem run_bind (first : Inquiry α) (next : α → Inquiry β) (finds : Finds) :
    (first.bind next).run finds = (next (first.run finds).1).run (first.run finds).2 := by
  induction first generalizing finds with
  | done value => rfl
  | ask key first ih => exact ih _ finds
  | keep key found first ih => exact ih _

end Inquiry

/-- A type is right for a key if a search among the modules finds it. -/
def Right (modules : List (String × Module)) (key : String × String) (found : BoundType) : Prop :=
  ∃ assembly, Text.lowered assembly = key.1 ∧
    (Symbols.searched modules key.2 Symbols.forwardingLimit assembly).toOption = some found

/-- Everything that was found is right. -/
def Sound (modules : List (String × Module)) (finds : Finds) : Prop :=
  ∀ key found, finds.lookup key = some found → Right modules key found

variable {modules : List (String × Module)}

/-- What is right for a key does not depend on how the assembly is spelled:
assemblies are looked up without regard to case. -/
theorem right_key_iff {assembly fullName : String} {found : BoundType} :
    Right modules (Symbols.key assembly fullName) found ↔
      (Symbols.searched modules (Symbols.key assembly fullName).2 Symbols.forwardingLimit
        assembly).toOption = some found := by
  constructor
  · rintro ⟨other, same, finds⟩
    rwa [Symbols.toOption_searched_congr same] at finds
  · exact fun finds => ⟨assembly, rfl, finds⟩

theorem sound_nil : Sound modules [] := fun key found kept => by simp at kept

/-- Keeping what is right leaves what was found right. The new find may hide an
older one of the same key, and both are right. -/
theorem Sound.cons {finds : Finds} {key : String × String} {found : BoundType}
    (sound : Sound modules finds) (right : Right modules key found) :
    Sound modules ((key, found) :: finds) := by
  intro other type there
  rw [Steps.lookup_cons] at there
  split at there
  · next same =>
    obtain rfl := Option.some.inj there
    exact same ▸ right
  · exact sound other type there

namespace Inquiry

/-- An inquiry comes to a value, whatever it is told as long as that is right,
and it only keeps what is right. -/
inductive Settles {α : Type} (modules : List (String × Module)) : Inquiry α → α → Prop where
  | done (value : α) : Settles modules (.done value) value
  | ask {key : String × String} {next : Option BoundType → Inquiry α} {value : α}
      (settles : ∀ told, (∀ found, told = some found → Right modules key found) →
        Settles modules (next told) value) : Settles modules (.ask key next) value
  | keep {key : String × String} {found : BoundType} {next : Inquiry α} {value : α}
      (right : Right modules key found) (settles : Settles modules next value) :
      Settles modules (.keep key found next) value

variable {α β : Type} {inquiry : Inquiry α} {value : α} {finds : Finds}

/-- Two inquiries one after the other settle on what the second settles on for
the value of the first. -/
theorem Settles.bind {next : α → Inquiry β} {result : β} (settles : Settles modules inquiry value)
    (later : Settles modules (next value) result) :
    Settles modules (inquiry.bind next) result := by
  induction settles with
  | done value => exact later
  | ask _ ih => exact .ask fun told right => ih told right later
  | keep right _ ih => exact .keep right (ih later)

/-- Alone, an inquiry comes to its value, and what it leaves is right. By
induction on how it settles. -/
theorem Settles.run (settles : Settles modules inquiry value) (sound : Sound modules finds) :
    (inquiry.run finds).1 = value ∧ Sound modules (inquiry.run finds).2 := by
  induction settles generalizing finds with
  | done value => exact ⟨rfl, sound⟩
  | ask _ ih => exact ih _ (sound _) sound
  | keep right _ ih => exact ih (sound.cons right)

section Interleaving

variable {ι : Type} [DecidableEq ι]

/-- Inquiries that go on at once, with the finds that they share. -/
structure Going (ι α : Type) where
  inquiries : ι → Inquiry α
  finds : Finds

/-- One access of one of the inquiries. -/
inductive Step : Going ι α → Going ι α → Prop where
  | ask {going : Going ι α} (i : ι) {key : String × String}
      {next : Option BoundType → Inquiry α} (here : going.inquiries i = .ask key next) :
      Step going { going with
        inquiries := Function.update going.inquiries i (next (going.finds.lookup key)) }
  | keep {going : Going ι α} (i : ι) {key : String × String} {found : BoundType}
      {next : Inquiry α} (here : going.inquiries i = .keep key found next) :
      Step going ⟨Function.update going.inquiries i next, (key, found) :: going.finds⟩

/-- Any number of accesses, mixed in any order. -/
abbrev Reaches : Going ι α → Going ι α → Prop := Relation.ReflTransGen Step

/-- Every inquiry comes to its value, and what was found is right. -/
structure Going.Settle (modules : List (String × Module)) (values : ι → α) (going : Going ι α) :
    Prop where
  settles : ∀ i, Settles modules (going.inquiries i) (values i)
  sound : Sound modules going.finds

variable {going left : Going ι α} {values : ι → α}

omit [DecidableEq ι] in
/-- An inquiry that has come to its end has come to its value. -/
theorem Going.Settle.eq (settle : going.Settle modules values) {i : ι} {value : α}
    (done : going.inquiries i = .done value) : value = values i := by
  have settles := settle.settles i
  rw [done] at settles
  cases settles
  rfl

/-- An access changes no value that an inquiry comes to, and keeps what is right.
The inquiry that made it goes on with an answer that is right, and for the others
there is only one find more. -/
theorem Going.Settle.step (settle : going.Settle modules values) (step : Step going left) :
    left.Settle modules values := by
  have others {i j : ι} {next : Inquiry α} (settles : Settles modules next (values i)) :
      Settles modules (Function.update going.inquiries i next j) (values j) := by
    by_cases same : j = i
    · subst same
      simpa using settles
    · rw [Function.update_of_ne same]
      exact settle.settles j
  cases step with
  | ask i here =>
    have settles := settle.settles i
    rw [here] at settles
    obtain _ | settles := settles
    exact ⟨fun j => others (settles _ (settle.sound _)), settle.sound⟩
  | keep i here =>
    have settles := settle.settles i
    rw [here] at settles
    obtain _ | _ | ⟨right, settles⟩ := settles
    exact ⟨fun j => others settles, settle.sound.cons right⟩

/-- However accesses are mixed, values stay what they are, by induction on the
accesses. -/
theorem Going.Settle.reaches (settle : going.Settle modules values) (reaches : Reaches going left) :
    left.Settle modules values := by
  induction reaches with
  | refl => exact settle
  | tail _ step ih => exact ih.step step

/-- An inquiry that has come to its end stays there: only inquiries that go on make
accesses. -/
theorem Reaches.done {i : ι} {value : α} (reaches : Reaches going left)
    (done : going.inquiries i = .done value) : left.inquiries i = .done value := by
  induction reaches with
  | refl => exact done
  | tail _ step ih =>
    cases step with
    | ask j here | keep j here =>
      have other : i ≠ j := by
        rintro rfl
        simp [ih] at here
      simpa [Function.update_of_ne other] using ih

/-- An inquiry comes to its end if only it goes on. By induction on the inquiry:
each question is answered at once, from the finds or by a search. -/
theorem exists_reaches_done (going : Going ι α) (i : ι) :
    ∃ left value, Reaches going left ∧ left.inquiries i = .done value := by
  generalize here : going.inquiries i = inquiry
  induction inquiry generalizing going with
  | done value => exact ⟨going, value, .refl, here⟩
  | ask key next ih =>
    obtain ⟨left, value, steps, done⟩ := ih (going.finds.lookup key)
      { going with inquiries := Function.update going.inquiries i (next (going.finds.lookup key)) }
      (Function.update_self i _ _)
    exact ⟨left, value, .head (.ask i here) steps, done⟩
  | keep key found next ih =>
    obtain ⟨left, value, steps, done⟩ :=
      ih ⟨Function.update going.inquiries i next, (key, found) :: going.finds⟩
        (Function.update_self i _ _)
    exact ⟨left, value, .head (.keep i here) steps, done⟩

/-- Inquiries come to their ends one after the other, by induction on a list of
them. One that has come to its end stays there while the others go on. -/
theorem exists_reaches_all_done (going : Going ι α) (order : List ι) :
    ∃ left, Reaches going left ∧ ∀ i ∈ order, ∃ value, left.inquiries i = .done value := by
  induction order generalizing going with
  | nil => exact ⟨going, .refl, by simp⟩
  | cons i rest ih =>
    obtain ⟨middle, value, steps, done⟩ := exists_reaches_done going i
    obtain ⟨left, further, all⟩ := ih middle
    refine ⟨left, steps.trans further, List.forall_mem_cons.2 ⟨⟨value, further.done done⟩, all⟩⟩

end Interleaving

end Inquiry

end InlineCil
