import Mathlib.Data.List.Basic

/-! Lazy iterators that may fail between two items. -/

set_option autoImplicit false

namespace Base

abbrev Next (φ σ α : Type) : Type := σ → Except φ (Option (α × σ))

structure Drained (φ α : Type) where
  items : List α
  failure : Option φ
  deriving DecidableEq

variable {φ σ α : Type}

/-- Call the iterator to its end. The bound counts calls. -/
def drain (next : Next φ σ α) : Nat → σ → Drained φ α
  | 0, _ => ⟨[], none⟩
  | bound + 1, s =>
    match next s with
    | .error e => ⟨[], some e⟩
    | .ok none => ⟨[], none⟩
    | .ok (some (a, later)) =>
      let rest := drain next bound later
      ⟨a :: rest.items, rest.failure⟩

inductive Yields (next : Next φ σ α) : σ → List α → Prop where
  | done {s : σ} : next s = .ok none → Yields next s []
  | item {s later : σ} {a : α} {items : List α} :
      next s = .ok (some (a, later)) → Yields next later items → Yields next s (a :: items)

-- Fuel: the bound only has to exceed the number of items.
theorem Yields.drain {next : Next φ σ α} {s : σ} {items : List α} (yields : Yields next s items)
    {bound : Nat} (enough : items.length < bound) : Base.drain next bound s = ⟨items, none⟩ := by
  induction yields generalizing bound with
  | done last =>
    cases bound with
    | zero => simp at enough
    | succ bound => simp [Base.drain, last]
  | item head _ ih =>
    cases bound with
    | zero => simp at enough
    | succ bound =>
      simp only [List.length_cons, Nat.add_lt_add_iff_right] at enough
      simp [Base.drain, head, ih enough]

/-- An iterator that gets smaller with each item and is called often enough
without a failure was called to its end. -/
theorem yields_of_drain {next : Next φ σ α} (measure : σ → Nat)
    (shrinks : ∀ {s later : σ} {a : α}, next s = .ok (some (a, later)) → measure later < measure s)
    {bound : Nat} {s : σ} (enough : measure s < bound)
    (ended : (Base.drain next bound s).failure = none) :
    Yields next s (Base.drain next bound s).items := by
  induction bound generalizing s with
  | zero => exact absurd enough (Nat.not_lt_zero _)
  | succ bound ih =>
    rw [Base.drain] at ended ⊢
    cases step : next s with
    | error e => simp [step] at ended
    | ok item =>
      cases item with
      | none => exact .done step
      | some pair =>
        obtain ⟨a, later⟩ := pair
        simp only [step] at ended ⊢
        have smaller := shrinks step
        exact .item step (ih (by omega) ended)

theorem exists_next_of_mem {next : Next φ σ α} {bound : Nat} {s : σ} {a : α}
    (member : a ∈ (Base.drain next bound s).items) :
    ∃ before later, next before = .ok (some (a, later)) := by
  induction bound generalizing s with
  | zero => exact absurd member List.not_mem_nil
  | succ bound ih =>
    rw [Base.drain] at member
    split at member
    next => exact absurd member List.not_mem_nil
    next => exact absurd member List.not_mem_nil
    next first later step =>
      rcases List.mem_cons.mp member with rfl | member
      · exact ⟨s, later, step⟩
      · exact ih member

/-- Two lists of items, with the failures behind them, compared item by item: a
failure counts only when the comparison reaches it. -/
def lockstep [DecidableEq α] : List α → Option φ → List α → Option φ → Except φ Bool
  | [], some e, _, _ => .error e
  | [], none, [], some e => .error e
  | [], none, [], none => .ok true
  | [], none, _ :: _, _ => .ok false
  | _ :: _, _, [], some e => .error e
  | _ :: _, _, [], none => .ok false
  | a :: more, e, b :: others, e' =>
    if a = b then lockstep more e others e' else .ok false

def Drained.eq [DecidableEq α] (first second : Drained φ α) : Except φ Bool :=
  lockstep first.items first.failure second.items second.failure

theorem Drained.eq_true_iff [DecidableEq α] {first second : Drained φ α} :
    first.eq second = .ok true ↔ first = second ∧ first.failure = none := by
  obtain ⟨items, failure⟩ := first
  obtain ⟨others, failure'⟩ := second
  simp only [Drained.eq, Drained.mk.injEq]
  induction items generalizing others with
  | nil => cases others <;> cases failure <;> cases failure' <;> simp [lockstep]
  | cons a more ih =>
    cases others with
    | nil => cases failure' <;> simp [lockstep]
    | cons b others =>
      by_cases same : a = b
      · simp [lockstep, same, ih]
      · simp [lockstep, same]

/-- Without a failure behind the items, the comparison comes to an answer. -/
theorem Drained.eq_of_ended [DecidableEq α] {first second : Drained φ α}
    (ended : first.failure = none) (ended' : second.failure = none) :
    ∃ same, first.eq second = .ok same := by
  obtain ⟨items, failure⟩ := first
  obtain ⟨others, failure'⟩ := second
  cases ended
  cases ended'
  simp only [Drained.eq]
  induction items generalizing others with
  | nil => cases others <;> exact ⟨_, rfl⟩
  | cons a more ih =>
    cases others with
    | nil => exact ⟨false, rfl⟩
    | cons b others =>
      by_cases same : a = b
      · rw [lockstep, if_pos same]
        exact ih others
      · exact ⟨false, if_neg same⟩

end Base
