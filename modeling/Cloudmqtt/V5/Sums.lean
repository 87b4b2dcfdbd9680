import Cloudmqtt.V5.Integers
import Mathlib.Algebra.Order.BigOperators.Group.List

/-! Lengths added up in `u32`, where casts drop high bits and sums overflow or wrap. -/

set_option autoImplicit false

namespace V5

open Base Rust

variable [Build]

/-- What adding up lengths in `u32` comes to: every length is cast, and a sum is
kept where overflow is checked and wraps where it is not. -/
def announced (lengths : List Nat) : Nat :=
  if Build.overflowChecks then (lengths.map (· % 2 ^ 32)).sum else lengths.sum % 2 ^ 32

theorem announced_append (first second : List Nat) :
    announced (first ++ second) =
      if Build.overflowChecks then announced first + announced second
      else (announced first + announced second) % 2 ^ 32 := by
  unfold announced
  cases Build.overflowChecks <;> simp

theorem announced_lt (wraps : ¬ Build.overflowChecks = true) (lengths : List Nat) :
    announced lengths < 2 ^ 32 := by
  rw [announced, if_neg wraps]
  exact Nat.mod_lt _ (by decide)

@[simp] theorem announced_nil : announced [] = 0 := by simp [announced]

theorem announced_single (n : Nat) : announced [n] = n % 2 ^ 32 := by
  unfold announced
  split <;> simp

theorem announced_perm {first second : List Nat} (same : first.Perm second) :
    announced first = announced second := by
  unfold announced
  rw [(same.map (· % 2 ^ 32)).sum_eq, same.sum_eq]

/-- Without a length that reaches the range of `u32` nothing is lost. -/
theorem announced_eq_sum {lengths : List Nat} (fits : lengths.sum < 2 ^ 32) :
    announced lengths = lengths.sum := by
  unfold announced
  split
  next =>
    induction lengths with
    | nil => rfl
    | cons n more ih =>
      simp only [List.sum_cons, List.map_cons] at fits ⊢
      rw [ih (by omega), Nat.mod_eq_of_lt (by omega)]
  next => exact Nat.mod_eq_of_lt fits

/-- The size is the sum of these lengths, and there is one when `possible`
holds and the sum does not overflow. -/
def Size.Adds (size : Size) (possible : Prop) (lengths : List Nat) : Prop :=
  ∀ n : UInt32, size = .ok n ↔ possible ∧ n.toNat = announced lengths

namespace Size.Adds

variable {first second size : Size} {P Q : Prop} {lengths others : List Nat}

-- From right to left the parts have to be recovered from the sum: each is below 2^32,
-- by the bound on the sum where it is checked, and by definition where it wraps.
theorem add (left : first.Adds P lengths) (right : second.Adds Q others) :
    (first + second).Adds (P ∧ Q) (lengths ++ others) := by
  intro n
  rw [Size.add_eq_ok, announced_append]
  constructor
  · rintro ⟨a, b, firstSize, secondSize, fits, rfl⟩
    obtain ⟨possible, sameA⟩ := (left a).mp firstSize
    obtain ⟨also, sameB⟩ := (right b).mp secondSize
    refine ⟨⟨possible, also⟩, ?_⟩
    rw [UInt32.toNat_add, ← sameA, ← sameB]
    split
    next checked => exact Nat.mod_eq_of_lt (fits checked)
    next => rfl
  · rintro ⟨⟨possible, also⟩, total⟩
    have bound := n.toNat_lt
    have firstFits : announced lengths < 2 ^ 32 := by
      split at total
      next => omega
      next wraps => exact announced_lt wraps lengths
    have secondFits : announced others < 2 ^ 32 := by
      split at total
      next => omega
      next wraps => exact announced_lt wraps others
    refine ⟨.ofNat (announced lengths), .ofNat (announced others),
      (left _).mpr ⟨possible, UInt32.toNat_ofNat_of_lt' firstFits⟩,
      (right _).mpr ⟨also, UInt32.toNat_ofNat_of_lt' secondFits⟩, ?_, ?_⟩
    · intro checked
      rw [if_pos checked] at total
      rw [UInt32.toNat_ofNat_of_lt' firstFits, UInt32.toNat_ofNat_of_lt' secondFits]
      omega
    · refine UInt32.toNat_inj.mp (total.trans ?_)
      rw [UInt32.toNat_add, UInt32.toNat_ofNat_of_lt' firstFits,
        UInt32.toNat_ofNat_of_lt' secondFits]
      split at total
      next checked => rw [if_pos checked, Nat.mod_eq_of_lt (by omega)]
      next wraps => rw [if_neg wraps]

theorem perm (adds : size.Adds P lengths) (same : lengths.Perm others) : size.Adds P others := by
  intro n
  rw [adds n, announced_perm same]

theorem congr (adds : size.Adds P lengths) (same : P ↔ Q) : size.Adds Q lengths := by
  intro n
  rw [adds n, same]

theorem cast (n : Nat) : (castSize n).Adds True [n] := by
  intro m
  rw [announced_single, true_and, castSize_eq_ok, ← UInt32.toNat_inj, UInt32.toNat_ofNat']

theorem value (a : UInt32) : (Size.value a).Adds True [a.toNat] := by
  have same : Size.value a = castSize a.toNat := by rw [castSize, UInt32.ofNat_toNat]; rfl
  rw [same]
  exact cast _

theorem literal (n : Nat) : (OfNat.ofNat n : Size).Adds True [n] := cast n

theorem zero : (0 : Size).Adds True [] := by
  intro n
  have empty : announced [] = announced [0] := by
    unfold announced
    split <;> simp
  rw [empty]
  exact literal 0 n

/-- A variable-length integer has a size only up to the largest that can be written. -/
theorem variableU32 (u : UInt32) :
    (variableU32BinarySize u).Adds (u.toNat ≤ 268435455) [variableWidth u.toNat] := by
  intro n
  by_cases short : u.toNat ≤ 268435455
  · rw [variableU32BinarySize_eq short, cast, true_and, and_iff_right short]
  · rw [variableU32BinarySize_unreachable (Nat.lt_of_not_le short)]
    exact iff_of_false nofun fun both => short both.1

-- The width of the length field is that of the announced length, not of the true one.
theorem counted (adds : size.Adds P lengths) :
    Size.Adds (size.bind fun n => variableU32BinarySize n + Size.value n)
      (P ∧ announced lengths ≤ 268435455) (variableWidth (announced lengths) :: lengths) := by
  intro n
  refine Size.bind_eq_ok.trans ?_
  have same (a : UInt32) (sized : a.toNat = announced lengths) :
      (variableU32BinarySize a + Size.value a).Adds (announced lengths ≤ 268435455 ∧ True)
        (variableWidth (announced lengths) :: lengths) := by
    intro m
    have bound := a.toNat_lt
    rw [(variableU32 a).add (value a) m, announced_append, announced_single a.toNat,
      Nat.mod_eq_of_lt bound, sized, ← announced_append, List.singleton_append]
  constructor
  · rintro ⟨a, sized, total⟩
    obtain ⟨possible, sized⟩ := (adds a).mp sized
    obtain ⟨⟨short, -⟩, total⟩ := (same a sized n).mp total
    exact ⟨⟨possible, short⟩, total⟩
  · rintro ⟨⟨possible, short⟩, total⟩
    have sized : (UInt32.ofNat (announced lengths)).toNat = announced lengths :=
      UInt32.toNat_ofNat_of_lt' (by rw [UInt32.size]; omega)
    exact ⟨_, (adds _).mpr ⟨possible, sized⟩, (same _ sized n).mpr ⟨⟨short, trivial⟩, total⟩⟩

theorem foldl {α : Type} {sizes : α → Size} {holds : α → Prop} {parts : α → List Nat}
    {items : List α} (each : ∀ a ∈ items, (sizes a).Adds (holds a) (parts a)) {total : Size}
    (sum : total.Adds P lengths) :
    (items.foldl (fun total a => total + sizes a) total).Adds (P ∧ ∀ a ∈ items, holds a)
      (lengths ++ items.flatMap parts) := by
  induction items generalizing total P lengths with
  | nil => simpa using sum
  | cons a more ih =>
    rw [List.forall_mem_cons] at each
    have rest := ih each.2 (sum.add each.1)
    rw [List.append_assoc] at rest
    exact rest.congr (by rw [List.forall_mem_cons, and_assoc])

end Size.Adds

end V5
