import Mathlib.Order.Bounds.Basic
import Mathlib.Logic.Function.Basic
import Cloudmqtt.Base.Run

/-! A partial map from a set of identifiers to uses, which gives out the least
identifier that is free. -/

set_option autoImplicit false

namespace Base

structure Bindings {ι : Type} (identifiers : Set ι) (κ : Type) where
  use : ι → Option κ
  within {id : ι} : use id ≠ none → id ∈ identifiers

inductive Request (ι κ : Type) where
  | bind (use : κ)
  | unbind (id : ι)
  | unbindUnless (kept : κ → Bool)
  | isBound (id : ι)

inductive Response (ι : Type) where
  | bound (id : Option ι)
  | done
  | isBound (holds : Bool)
  deriving DecidableEq

namespace Bindings

variable {ι κ : Type} {identifiers : Set ι}

def empty : Bindings identifiers κ := ⟨fun _ => none, fun used => absurd rfl used⟩

def bind [DecidableEq ι] (self : Bindings identifiers κ) {id : ι} (member : id ∈ identifiers)
    (use : κ) : Bindings identifiers κ where
  use := Function.update self.use id (some use)
  within {other} used := by
    by_cases same : other = id
    · exact same ▸ member
    · rw [Function.update_of_ne same] at used
      exact self.within used

def unbind [DecidableEq ι] (self : Bindings identifiers κ) (id : ι) : Bindings identifiers κ where
  use := Function.update self.use id none
  within {other} used := by
    by_cases same : other = id
    · rw [same, Function.update_self] at used
      exact absurd rfl used
    · rw [Function.update_of_ne same] at used
      exact self.within used

def unbindUnless (self : Bindings identifiers κ) (kept : κ → Bool) : Bindings identifiers κ where
  use id := (self.use id).filter kept
  within used := self.within fun unused => used (by rw [unused]; rfl)

def Free (self : Bindings identifiers κ) (id : ι) : Prop :=
  id ∈ identifiers ∧ self.use id = none

theorem ext {self other : Bindings identifiers κ} (same : ∀ id, self.use id = other.use id) :
    self = other := by
  cases self
  cases other
  congr
  funext id
  exact same id

/-- The answers: the least free identifier is bound, or none when all are bound. -/
inductive Answers [DecidableEq ι] [LE ι] (self : Bindings identifiers κ) :
    Request ι κ → Response ι → Bindings identifiers κ → Prop where
  | least {use : κ} {id : ι} (least : IsLeast {id | self.Free id} id) :
      Answers self (.bind use) (.bound (some id)) (self.bind least.1.1 use)
  | full {use : κ} (full : ∀ id, ¬ self.Free id) : Answers self (.bind use) (.bound none) self
  | unbind {id : ι} : Answers self (.unbind id) .done (self.unbind id)
  | unbindUnless {kept : κ → Bool} :
      Answers self (.unbindUnless kept) .done (self.unbindUnless kept)
  | isBound {id : ι} : Answers self (.isBound id) (.isBound (self.use id).isSome) self

theorem Answers.deterministic [DecidableEq ι] [PartialOrder ι]
    {self after after' : Bindings identifiers κ} {request : Request ι κ}
    {response response' : Response ι} (answers : self.Answers request response after)
    (answers' : self.Answers request response' after') :
    response = response' ∧ after = after' := by
  cases answers with
  | least least =>
    cases answers' with
    | least least' =>
      obtain rfl := least.unique least'
      exact ⟨rfl, rfl⟩
    | full full => exact absurd least.1 (full _)
  | full full =>
    cases answers' with
    | least least => exact absurd least.1 (full _)
    | full => exact ⟨rfl, rfl⟩
  | unbind =>
    cases answers'
    exact ⟨rfl, rfl⟩
  | unbindUnless =>
    cases answers'
    exact ⟨rfl, rfl⟩
  | isBound =>
    cases answers'
    exact ⟨rfl, rfl⟩

theorem Answers.isLeast [DecidableEq ι] [LE ι] {self after : Bindings identifiers κ} {use : κ}
    {id : ι} (answers : self.Answers (.bind use) (.bound (some id)) after) :
    IsLeast {id | self.Free id} id := by
  cases answers with
  | least least => exact least

theorem Answers.isFull [DecidableEq ι] [LE ι] {self after : Bindings identifiers κ} {use : κ}
    (answers : self.Answers (.bind use) (.bound none) after) (id : ι) : ¬ self.Free id := by
  cases answers with
  | full full => exact full id

end Bindings

end Base
