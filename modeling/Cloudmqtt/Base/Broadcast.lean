import Cloudmqtt.Base.Run
import Mathlib.Algebra.GroupWithZero.Nat

/-! Channels that never make a sender wait: a value too many pushes out the oldest one,
and the receiver is told how many it missed.
-/

set_option autoImplicit false

namespace Base

/-- What the receiver has yet to take, and how many it has yet to be told of. -/
structure Broadcast (α : Type) where
  capacity : Nat
  positive : 0 < capacity
  retained : List α
  missed : Nat

inductive Received (α : Type) where
  | value (a : α)
  | lagged (missed : Nat)

variable {α : Type}

namespace Broadcast

def new (capacity : Nat) (positive : 0 < capacity) : Broadcast α := ⟨capacity, positive, [], 0⟩

def HasRoom (self : Broadcast α) : Prop := self.retained.length < self.capacity

instance (self : Broadcast α) : Decidable self.HasRoom := inferInstanceAs (Decidable (_ < _))

def send (self : Broadcast α) (a : α) : Broadcast α :=
  if self.HasRoom then { self with retained := self.retained ++ [a] }
  else { self with retained := self.retained.tail ++ [a], missed := self.missed + 1 }

/-- Nothing where the receiver would wait. -/
def recv (self : Broadcast α) : Option (Received α × Broadcast α) :=
  if self.missed = 0 then
    match self.retained with
    | [] => none
    | a :: retained => some (.value a, { self with retained })
  else some (.lagged self.missed, { self with missed := 0 })

inductive Use (α : Type) where
  | send (a : α)
  | recv

inductive Steps (before : Broadcast α) : Use α → Option (Received α) → Broadcast α → Prop where
  | send (a : α) : Steps before (.send a) none (before.send a)
  | recv {received : Received α} {after : Broadcast α} : before.recv = some (received, after) →
      Steps before .recv (some received) after

abbrev Trace (α : Type) : Type := List (Entry (Broadcast α) (Use α) (Option (Received α)))

abbrev Runs (start : Broadcast α) : Trace α → Broadcast α → Prop := Run Steps start

def sent (entry : Entry (Broadcast α) (Use α) (Option (Received α))) : List α :=
  match entry.input with
  | .send a => [a]
  | .recv => []

def taken (entry : Entry (Broadcast α) (Use α) (Option (Received α))) : List α :=
  match entry.output with
  | some (.value a) => [a]
  | _ => []

def told (entry : Entry (Broadcast α) (Use α) (Option (Received α))) : Nat :=
  match entry.output with
  | some (.lagged missed) => missed
  | _ => 0

def Fits (entry : Entry (Broadcast α) (Use α) (Option (Received α))) : Prop :=
  ∀ a, entry.input = .send a → entry.before.HasRoom

variable {capacity : Nat} {positive : 0 < capacity} {trace : Trace α} {channel : Broadcast α}

theorem recv_cases {before after : Broadcast α} {received : Received α}
    (ran : before.recv = some (received, after)) :
    (∃ a, received = .value a ∧ before.retained = a :: after.retained ∧
        after.missed = before.missed) ∨
      received = .lagged before.missed ∧ after.retained = before.retained ∧ after.missed = 0 := by
  unfold recv at ran
  split at ran
  next =>
    split at ran
    next => cases ran
    next a retained held =>
      obtain ⟨rfl, rfl⟩ := Prod.mk.inj (Option.some.inj ran)
      exact .inl ⟨a, rfl, held, rfl⟩
  next =>
    obtain ⟨rfl, rfl⟩ := Prod.mk.inj (Option.some.inj ran)
    exact .inr ⟨rfl, rfl, rfl⟩

theorem recv_eq_none_iff {self : Broadcast α} :
    self.recv = none ↔ self.retained = [] ∧ self.missed = 0 := by
  unfold recv
  split
  next none =>
    rw [and_iff_left none]
    split
    next empty => exact iff_of_true rfl empty
    next held => simp [held]
  next some => simp [some]

theorem send_room {before : Broadcast α} (room : before.HasRoom) (a : α) :
    before.send a = { before with retained := before.retained ++ [a] } := if_pos room

theorem send_full {before : Broadcast α} (full : ¬ before.HasRoom) (a : α) :
    ∃ oldest younger, before.retained = oldest :: younger ∧
      before.send a =
        { before with retained := younger ++ [a], missed := before.missed + 1 } := by
  have some : 0 < before.retained.length :=
    Nat.lt_of_lt_of_le before.positive (Nat.le_of_not_lt full)
  obtain ⟨oldest, younger, held⟩ := List.exists_cons_of_length_pos some
  refine ⟨oldest, younger, held, ?_⟩
  rw [Broadcast.send, if_neg full, held, List.tail_cons]

/-- Values are taken in the order they were sent, whatever was lost between them. -/
theorem sublist_of_runs (run : Runs (new capacity positive) trace channel) :
    (trace.flatMap taken ++ channel.retained).Sublist (trace.flatMap sent) := by
  induction run with
  | done => exact .slnil
  | @next trace before after _ _ _ step ih =>
    rw [List.flatMap_append, List.flatMap_append, List.flatMap_singleton, List.flatMap_singleton]
    cases step with
    | send a =>
      change (trace.flatMap taken ++ [] ++ _).Sublist (trace.flatMap sent ++ [a])
      rw [List.append_nil]
      by_cases room : before.HasRoom
      · rw [send_room room, ← List.append_assoc]
        exact ih.append (List.Sublist.refl [a])
      · obtain ⟨oldest, younger, held, full⟩ := send_full room a
        rw [full, ← List.append_assoc]
        apply List.Sublist.append _ (List.Sublist.refl [a])
        rw [held] at ih
        exact ((List.Sublist.refl _).append (List.sublist_cons_self oldest younger)).trans ih
    | recv ran =>
      rcases recv_cases ran with ⟨a, rfl, held, -⟩ | ⟨rfl, held, -⟩
      · rw [held] at ih
        simpa [taken, sent] using ih
      · rw [← held] at ih
        simpa [taken, sent] using ih

/-- Every value was taken, waits, or was lost, and the receiver can know of every loss. -/
theorem count_of_runs (run : Runs (new capacity positive) trace channel) :
    (trace.flatMap taken).length + channel.retained.length +
      ((trace.map told).sum + channel.missed) = (trace.flatMap sent).length := by
  induction run with
  | done => rfl
  | @next trace before after _ _ _ step ih =>
    simp only [List.flatMap_append, List.flatMap_singleton, List.map_append, List.map_singleton,
      List.sum_append, List.sum_singleton, List.length_append]
    cases step with
    | send a =>
      by_cases room : before.HasRoom
      · rw [send_room room]
        simp only [taken, told, sent, List.length_append, List.length_singleton, List.length_nil]
        omega
      · obtain ⟨oldest, younger, held, full⟩ := send_full room a
        rw [held, List.length_cons] at ih
        rw [full]
        simp only [taken, told, sent, List.length_append, List.length_singleton, List.length_nil]
        omega
    | recv ran =>
      rcases recv_cases ran with ⟨a, rfl, held, same⟩ | ⟨rfl, held, none⟩
      · rw [held, List.length_cons] at ih
        rw [same]
        simp only [taken, told, sent, List.length_singleton, List.length_nil]
        omega
      · rw [held, none]
        simp only [taken, told, sent, List.length_nil]
        omega

theorem complete_iff_fits (run : Runs (new capacity positive) trace channel) :
    trace.flatMap sent = trace.flatMap taken ++ channel.retained ↔
      EveryStep (fun _ => Fits) trace := by
  refine (run.balances (fun {before input output after} step => ?_) rfl).iff
  cases step with
  | send a =>
    by_cases room : before.HasRoom
    · rw [send_room room]
      exact .of_kept (fun _ _ => room) rfl
    · obtain ⟨oldest, younger, held, full⟩ := send_full room a
      rw [full, held]
      exact .of_lost (fun fits => room (fits a rfl)) (by simp [taken, sent])
  | recv ran =>
    refine .of_kept (fun _ same => by cases same) ?_
    rcases recv_cases ran with ⟨a, rfl, held, -⟩ | ⟨rfl, held, -⟩
    · rw [held]
      exact List.append_nil _
    · rw [held]
      exact List.append_nil _

/-- The receiver has all that was sent exactly when it was told of no loss and will not
be told of one. -/
theorem complete_iff_told (run : Runs (new capacity positive) trace channel) :
    trace.flatMap sent = trace.flatMap taken ++ channel.retained ↔
      (trace.map told).sum + channel.missed = 0 := by
  have count := count_of_runs run
  constructor
  · intro same
    have lengths := congrArg List.length same
    rw [List.length_append] at lengths
    omega
  · intro none
    refine ((sublist_of_runs run).eq_of_length ?_).symm
    rw [List.length_append]
    omega

end Broadcast

end Base
