import Mathlib.Data.List.Chain

/-! Requests and responses that come in turns. -/

set_option autoImplicit false

namespace Base

inductive Exchange where
  | request
  | response
  deriving DecidableEq, Repr

def Unanswered (events : List Exchange) : Prop :=
  events.count .response < events.count .request

/-- Requests and responses in turns, first a request; whether the last one of
them is still to be answered. -/
inductive Alternates : List Exchange → Bool → Prop where
  | nil : Alternates [] false
  | request {events : List Exchange} : Alternates events false →
      Alternates (events ++ [.request]) true
  | response {events : List Exchange} : Alternates events true →
      Alternates (events ++ [.response]) false

namespace Alternates

variable {events : List Exchange} {pending : Bool}

theorem count_request (alternates : Alternates events pending) :
    events.count .request = events.count .response + pending.toNat := by
  induction alternates with
  | nil => rfl
  | request _ ih =>
    rw [List.count_append, List.count_append, ih]
    rfl
  | response _ ih =>
    rw [List.count_append, List.count_append, ih]
    rfl

theorem unanswered_iff (alternates : Alternates events pending) :
    Unanswered events ↔ pending = true := by
  rw [Unanswered, alternates.count_request]
  cases pending <;> simp

theorem count_le (alternates : Alternates events pending) :
    events.count .request ≤ events.count .response + 1 := by
  rw [alternates.count_request]
  exact Nat.add_le_add_left (Bool.toNat_le pending) _

theorem getLast? (alternates : Alternates events pending) :
    (Exchange.response :: events).getLast? = some (bif pending then .request else .response) := by
  cases alternates with
  | nil => rfl
  | request => rw [← List.cons_append, List.getLast?_concat, cond_true]
  | response => rw [← List.cons_append, List.getLast?_concat, cond_false]

/-- No two requests or responses follow one another, and a request comes first. -/
theorem isChain (alternates : Alternates events pending) :
    (Exchange.response :: events).IsChain (· ≠ ·) := by
  induction alternates with
  | nil => exact List.isChain_singleton _
  | request earlier ih =>
    rw [← List.cons_append, List.isChain_append]
    refine ⟨ih, List.isChain_singleton _, ?_⟩
    rw [earlier.getLast?]
    simp
  | response earlier ih =>
    rw [← List.cons_append, List.isChain_append]
    refine ⟨ih, List.isChain_singleton _, ?_⟩
    rw [earlier.getLast?]
    simp

theorem pending_of_nil (alternates : Alternates [] pending) : pending = false := by
  have counts := alternates.count_request
  cases pending with
  | false => rfl
  | true => cases counts

end Alternates

end Base
