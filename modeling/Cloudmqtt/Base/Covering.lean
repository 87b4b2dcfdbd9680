import Mathlib.Data.List.Forall2

/-! Patterns that take the items of a list one by one, and perhaps a whole rest at their end. -/

set_option autoImplicit false

namespace Base

variable {α β : Type} (takes : α → β → Prop) (rest : α)

/-- The pattern takes the items one to one, or its last place stands for those
that the places before it leave over. -/
def Covers (pattern : List α) (items : List β) : Prop :=
  List.Forall₂ takes pattern items ∨
    ∃ front taken left, pattern = front ++ [rest] ∧ items = taken ++ left ∧
      List.Forall₂ takes front taken

def Agree (pattern : List α) (items : List β) : Prop :=
  ∀ pair ∈ pattern.zip items, pair.1 = rest ∨ takes pair.1 pair.2

def CountsFit [DecidableEq α] (pattern : List α) (items : List β) : Prop :=
  if pattern.getLast? = some rest then pattern.length ≤ items.length + 1
  else pattern.length = items.length

variable {takes : α → β → Prop} {rest : α} {pattern front : List α} {items : List β}

theorem notMem_of_inner (inner : rest ∉ pattern.dropLast) (last : pattern.getLast? ≠ some rest) :
    rest ∉ pattern := by
  intro member
  have nonempty := List.ne_nil_of_mem member
  rw [← List.dropLast_append_getLast nonempty, List.mem_append, List.mem_singleton] at member
  rcases member with member | final
  · exact inner member
  · exact last (by rw [List.getLast?_eq_some_getLast nonempty, ← final])

theorem agree_cons {place : α} {item : β} :
    Agree takes rest (place :: pattern) (item :: items) ↔
      (place = rest ∨ takes place item) ∧ Agree takes rest pattern items := by
  simp only [Agree, List.zip_cons_cons, List.forall_mem_cons]

theorem notMem_of_forall₂ (foreign : ∀ item, ¬ takes rest item)
    (all : List.Forall₂ takes pattern items) : rest ∉ pattern := by
  induction all with
  | nil => exact List.not_mem_nil
  | cons taken _ ih =>
    intro member
    rcases List.mem_cons.mp member with rfl | member
    · exact foreign _ taken
    · exact ih member

theorem forall₂_iff_agree (proper : rest ∉ pattern) :
    List.Forall₂ takes pattern items ↔
      Agree takes rest pattern items ∧ pattern.length = items.length := by
  rw [List.forall₂_iff_zip, and_comm]
  refine and_congr_left fun _ => ⟨fun all pair member => .inr (all member), ?_⟩
  intro agree a b member
  rcases agree (a, b) member with rfl | taken
  · exact absurd (List.of_mem_zip member).1 proper
  · exact taken

theorem agree_concat (enough : front.length ≤ items.length) :
    Agree takes rest (front ++ [rest]) items ↔
      Agree takes rest front (items.take front.length) := by
  have length : front.length = (items.take front.length).length := by
    rw [List.length_take]
    omega
  have cut : (front ++ [rest]).zip (items.take front.length ++ items.drop front.length) =
      front.zip (items.take front.length) ++ [rest].zip (items.drop front.length) :=
    List.zip_append length
  rw [List.take_append_drop] at cut
  rw [Agree, cut]
  constructor
  · intro agree pair member
    exact agree pair (List.mem_append_left _ member)
  · intro agree pair member
    rcases List.mem_append.mp member with member | member
    · exact agree pair member
    · exact .inl (List.mem_singleton.mp (List.of_mem_zip (a := pair.1) (b := pair.2) member).1)

-- Both sides of the iff split by the last place of the pattern: with a `rest` there
-- the counts compare by ≤, without one they are equal.
/-- A list is covered exactly when its length allows it and no position forbids it. -/
theorem covers_iff [DecidableEq α] (inner : rest ∉ pattern.dropLast)
    (foreign : ∀ item, ¬ takes rest item) :
    Covers takes rest pattern items ↔
      Agree takes rest pattern items ∧ CountsFit rest pattern items := by
  unfold CountsFit
  split
  next last =>
    obtain ⟨front, rfl⟩ := List.getLast?_eq_some_iff.mp last
    rw [List.dropLast_concat] at inner
    rw [List.length_append, List.length_singleton, Nat.add_le_add_iff_right]
    constructor
    · rintro (all | ⟨_, taken, left, same, rfl, all⟩)
      · exact absurd (List.mem_append_right front (List.mem_singleton.mpr rfl))
          (notMem_of_forall₂ foreign all)
      · obtain rfl := List.append_cancel_right same
        obtain ⟨agree, length⟩ := (forall₂_iff_agree inner).mp all
        have enough : front.length ≤ (taken ++ left).length := by
          rw [List.length_append]
          omega
        rw [agree_concat enough, length, List.take_left]
        exact ⟨agree, length ▸ enough⟩
    · rintro ⟨agree, enough⟩
      rw [agree_concat enough] at agree
      refine .inr ⟨front, _, _, rfl, (List.take_append_drop front.length items).symm,
        (forall₂_iff_agree inner).mpr ⟨agree, ?_⟩⟩
      rw [List.length_take]
      omega
  next last =>
    have proper := notMem_of_inner inner last
    rw [← forall₂_iff_agree proper]
    refine or_iff_left ?_
    rintro ⟨front, -, -, rfl, -, -⟩
    exact proper (List.mem_append_right front (List.mem_singleton.mpr rfl))

end Base
