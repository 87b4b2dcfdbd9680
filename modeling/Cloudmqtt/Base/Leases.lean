import Mathlib.Data.Finset.Basic
import Mathlib.Logic.Function.Basic

/-! Identifiers taken and given back for several kinds of use.

An allocator hands out identifiers that are not in use. When one is given back
it looks at whether the identifier is in use, not at the kind of its use. The
ledger keeps the kinds apart, and the two agree as long as nothing is given back
for the wrong kind.
-/

set_option autoImplicit false

namespace Base

/-- An identifier is taken for a use, given back by the end of a use, or all
uses but those of some kinds end at once. -/
inductive Lease (ι κ : Type) where
  | take (id : ι) (kind : κ)
  | give (id : ι) (kind : κ)
  | keep (kinds : κ → Bool)

variable {ι κ : Type}

namespace Lease

inductive Moves [DecidableEq ι] (uses : ι → Option κ) : Lease ι κ → (ι → Option κ) → Prop where
  | take {id : ι} {kind : κ} : uses id = none →
      Moves uses (.take id kind) (Function.update uses id (some kind))
  | give {id : ι} {kind : κ} : uses id ≠ none →
      Moves uses (.give id kind) (Function.update uses id none)
  | keep {kinds : κ → Bool} : Moves uses (.keep kinds) fun id => (uses id).filter kinds

inductive MovesAll [DecidableEq ι] (allowed : (ι → Option κ) → Lease ι κ → Prop) :
    (ι → Option κ) → List (Lease ι κ) → (ι → Option κ) → Prop where
  | nil {uses : ι → Option κ} : MovesAll allowed uses [] uses
  | cons {uses middle final : ι → Option κ} {lease : Lease ι κ} {leases : List (Lease ι κ)} :
      allowed uses lease → Moves uses lease middle → MovesAll allowed middle leases final →
      MovesAll allowed uses (lease :: leases) final

section

variable [DecidableEq ι] {allowed : (ι → Option κ) → Lease ι κ → Prop}
  {uses middle final : ι → Option κ}

theorem MovesAll.single {lease : Lease ι κ} (holds : allowed uses lease)
    (moves : Moves uses lease final) : MovesAll allowed uses [lease] final :=
  .cons holds moves .nil

theorem MovesAll.append {first second : List (Lease ι κ)}
    (left : MovesAll allowed uses first middle)
    (right : MovesAll allowed middle second final) :
    MovesAll allowed uses (first ++ second) final := by
  induction left with
  | nil => exact right
  | cons holds moves _ ih => exact .cons holds moves (ih right)

theorem MovesAll.split {first second : List (Lease ι κ)}
    (moves : MovesAll allowed uses (first ++ second) final) :
    ∃ middle, MovesAll allowed uses first middle ∧ MovesAll allowed middle second final := by
  induction first generalizing uses with
  | nil => exact ⟨uses, .nil, moves⟩
  | cons lease first ih =>
    cases moves with
    | cons holds step rest =>
      obtain ⟨middle, left, right⟩ := ih rest
      exact ⟨middle, .cons holds step left, right⟩

theorem MovesAll.allowed_of_mem {leases : List (Lease ι κ)} {lease : Lease ι κ}
    (moves : MovesAll allowed uses leases final) (member : lease ∈ leases) :
    ∃ uses, allowed uses lease := by
  induction moves with
  | nil => simp at member
  | cons holds _ _ ih =>
    rcases List.mem_cons.mp member with rfl | member
    · exact ⟨_, holds⟩
    · exact ih member

def Ends (id : ι) (kind : κ) : Lease ι κ → Prop
  | .take _ _ => False
  | .give other _ => other = id
  | .keep kinds => kinds kind = false

theorem Moves.keeps {lease : Lease ι κ} {id : ι} {kind : κ} (moves : Moves uses lease final)
    (used : uses id = some kind) (lasts : ¬ Ends id kind lease) : final id = some kind := by
  cases moves with
  | @take other kind' free =>
    have apart : id ≠ other := by
      rintro rfl
      cases free.symm.trans used
    rw [Function.update_of_ne apart, used]
  | @give other kind' =>
    rw [Function.update_of_ne (Ne.symm lasts), used]
  | @keep kinds =>
    have kept : kinds kind = true := by simpa [Ends] using lasts
    show (uses id).filter kinds = some kind
    rw [used, Option.filter_some, if_pos kept]

theorem MovesAll.keeps {leases : List (Lease ι κ)} {id : ι} {kind : κ}
    (moves : MovesAll allowed uses leases final) (used : uses id = some kind)
    (lasts : ∀ lease ∈ leases, ¬ Ends id kind lease) : final id = some kind := by
  induction moves with
  | nil => exact used
  | cons _ step _ ih =>
    rw [List.forall_mem_cons] at lasts
    exact ih (step.keeps used lasts.1) lasts.2

end

/-! ### The ledger -/

/-- For each kind of use, the identifiers taken and not given back. -/
abbrev Ledger (ι κ : Type) : Type := κ → Finset ι

section

variable [DecidableEq ι] [DecidableEq κ]

def Ledger.after (ledger : Ledger ι κ) : Lease ι κ → Ledger ι κ
  | .take id kind => Function.update ledger kind (insert id (ledger kind))
  | .give id kind => Function.update ledger kind ((ledger kind).erase id)
  | .keep kinds => fun kind => if kinds kind then ledger kind else ∅

def Ledger.Accounts (ledger : Ledger ι κ) (uses : ι → Option κ) : Prop :=
  ∀ id kind, uses id = some kind ↔ id ∈ ledger kind

def Ledger.HandsOutFree (ledger : Ledger ι κ) (leases : List (Lease ι κ)) : Prop :=
  ∀ front id kind back, leases = front ++ .take id kind :: back →
    ∀ kind', id ∉ front.foldl Ledger.after ledger kind'

def Matched (uses : ι → Option κ) : Lease ι κ → Prop
  | .give id kind => uses id = some kind
  | _ => True

variable {ledger : Ledger ι κ} {uses uses' : ι → Option κ}

omit [DecidableEq ι] [DecidableEq κ] in
theorem Ledger.Accounts.disjoint (accounts : ledger.Accounts uses) {first second : κ}
    (apart : first ≠ second) : Disjoint (ledger first) (ledger second) := by
  rw [Finset.disjoint_left]
  intro id left right
  have same := ((accounts id first).mpr left).symm.trans ((accounts id second).mpr right)
  exact apart (Option.some.inj same)

omit [DecidableEq ι] [DecidableEq κ] in
theorem Ledger.Accounts.fresh (accounts : ledger.Accounts uses) {id : ι} (free : uses id = none)
    (kind : κ) : id ∉ ledger kind := by
  intro member
  simp [(accounts id kind).mpr member] at free

theorem Ledger.Accounts.after {lease : Lease ι κ} (accounts : ledger.Accounts uses)
    (moves : Moves uses lease uses') (matched : Matched uses lease) :
    (ledger.after lease).Accounts uses' := by
  intro other kind'
  cases moves with
  | take free =>
    rename_i id kind
    by_cases same : other = id
    · subst same
      by_cases sameKind : kind' = kind
      · subst sameKind
        simp [Ledger.after]
      · simp [Ledger.after, sameKind, accounts.fresh free, Ne.symm sameKind]
    · by_cases sameKind : kind' = kind
      · subst sameKind
        simp [Ledger.after, same, accounts other kind']
      · simp [Ledger.after, same, sameKind, accounts other kind']
  | give used =>
    rename_i id kind
    by_cases same : other = id
    · subst same
      by_cases sameKind : kind' = kind
      · subst sameKind
        simp [Ledger.after]
      · have only := Finset.disjoint_left.mp (accounts.disjoint (Ne.symm sameKind))
          ((accounts other kind).mp matched)
        simp [Ledger.after, sameKind, only]
    · by_cases sameKind : kind' = kind
      · subst sameKind
        simp [Ledger.after, same, accounts other kind']
      · simp [Ledger.after, same, sameKind, accounts other kind']
  | keep =>
    rename_i kinds
    have before := accounts other kind'
    cases kept : kinds kind' with
    | true => simp [Ledger.after, kept, ← before, Option.filter_eq_some_iff]
    | false => simp [Ledger.after, kept, Option.filter_eq_some_iff]

theorem Ledger.Accounts.afterAll {leases : List (Lease ι κ)} (accounts : ledger.Accounts uses)
    (moves : MovesAll Matched uses leases uses') :
    (leases.foldl Ledger.after ledger).Accounts uses' := by
  induction moves generalizing ledger with
  | nil => exact accounts
  | cons matched step _ ih => exact ih (accounts.after step matched)

theorem Ledger.Accounts.handsOutFree {leases : List (Lease ι κ)} (accounts : ledger.Accounts uses)
    (moves : MovesAll Matched uses leases uses') : ledger.HandsOutFree leases := by
  rintro front id kind back rfl kind'
  obtain ⟨middle, before, rest⟩ := moves.split
  cases rest with
  | cons _ step _ =>
    cases step with
    | take free => exact (accounts.afterAll before).fresh free kind'

end

/-! ### Alternation -/

section

variable [DecidableEq ι] [DecidableEq κ]

def announcement (id : ι) (kind : κ) : Lease ι κ → Option Bool
  | .take other kind' => if other = id ∧ kind' = kind then some true else none
  | .give other kind' => if other = id ∧ kind' = kind then some false else none
  | .keep _ => none

/-- Where uses of one kind are concerned, an identifier is given back for the
kind it is used for, and its use is kept. -/
def Uncrossed (kind : κ) (uses : ι → Option κ) : Lease ι κ → Prop
  | .take _ _ => True
  | .give id kind' => uses id = some kind ↔ kind' = kind
  | .keep kinds => kinds kind = true

theorem Moves.announcement_some {uses uses' : ι → Option κ} {lease : Lease ι κ} {id : ι} {kind : κ}
    {taken : Bool} (moves : Moves uses lease uses') (uncrossed : Uncrossed kind uses lease)
    (announced : announcement id kind lease = some taken) :
    decide (uses id = some kind) = !taken ∧ decide (uses' id = some kind) = taken := by
  cases moves with
  | take free =>
    simp only [announcement, Option.ite_none_right_eq_some, Option.some.injEq] at announced
    obtain ⟨⟨rfl, rfl⟩, rfl⟩ := announced
    simp [free]
  | give used =>
    simp only [announcement, Option.ite_none_right_eq_some, Option.some.injEq] at announced
    obtain ⟨⟨rfl, rfl⟩, rfl⟩ := announced
    simp [uncrossed.mpr rfl]
  | keep => simp [announcement] at announced

theorem Moves.announcement_none {uses uses' : ι → Option κ} {lease : Lease ι κ} {id : ι} {kind : κ}
    (moves : Moves uses lease uses') (uncrossed : Uncrossed kind uses lease)
    (silent : announcement id kind lease = none) :
    uses' id = some kind ↔ uses id = some kind := by
  cases moves with
  | take free =>
    rename_i other kind'
    simp only [announcement, ite_eq_right_iff, reduceCtorEq, imp_false, not_and] at silent
    by_cases same : id = other
    · subst same
      simp [free, silent rfl]
    · simp [same]
  | give used =>
    rename_i other kind'
    simp only [announcement, ite_eq_right_iff, reduceCtorEq, imp_false, not_and] at silent
    by_cases same : id = other
    · subst same
      have unused := mt uncrossed.mp (silent rfl)
      simp [unused]
    · simp [same]
  | @keep kinds =>
    have kept : kinds kind = true := uncrossed
    simp [Option.filter_eq_some_iff, kept]

-- Between two takes of one identifier there is a give, and what the map says before
-- tells which of the two comes first.
/-- Uncrossed, an identifier is taken and given back for one kind in turns. -/
theorem MovesAll.alternates {id : ι} {kind : κ} {uses uses' : ι → Option κ}
    {leases : List (Lease ι κ)} (moves : MovesAll (Uncrossed kind) uses leases uses') :
    (decide (uses id = some kind) :: leases.filterMap (announcement id kind)).IsChain (· ≠ ·) := by
  induction moves with
  | nil => simp
  | @cons uses middle _ lease _ uncrossed step _ ih =>
    cases announced : announcement id kind lease with
    | none =>
      simp only [step.announcement_none uncrossed announced] at ih
      rwa [List.filterMap_cons_none announced]
    | some taken =>
      obtain ⟨before, after⟩ := step.announcement_some uncrossed announced
      rw [after] at ih
      rw [List.filterMap_cons_some announced, before]
      exact .cons_cons (by simp) ih

end

end Lease

end Base
