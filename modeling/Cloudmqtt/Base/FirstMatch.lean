import Mathlib.Data.List.Count
import Mathlib.Data.List.Nodup

/-! Taking the values of the first match, where the values of every match are wanted. -/

set_option autoImplicit false

namespace Base

variable {α ι : Type} (matching : α → Bool) (values : α → List ι)

def firstMatch (entries : List α) : List ι := ((entries.find? matching).map values).getD []

def Wanted (entries : List α) (i : ι) : Prop :=
  ∃ entry ∈ entries, matching entry = true ∧ i ∈ values entry

/-- The first match repeats no value and has those of the other matches. -/
def FirstCovers (entries : List α) : Prop :=
  match entries.filter matching with
  | [] => True
  | first :: others => (values first).Nodup ∧ ∀ other ∈ others, values other ⊆ values first

variable {matching : α → Bool} {values : α → List ι} {entries : List α}

theorem wanted_iff_mem_filter {i : ι} :
    Wanted matching values entries i ↔ ∃ entry ∈ entries.filter matching, i ∈ values entry := by
  simp only [Wanted, List.mem_filter, and_assoc]

theorem wanted_of_mem_firstMatch {i : ι} (member : i ∈ firstMatch matching values entries) :
    Wanted matching values entries i := by
  unfold firstMatch at member
  cases found : entries.find? matching with
  | none => simp [found] at member
  | some first =>
    rw [found] at member
    exact ⟨first, List.mem_of_find?_eq_some found, List.find?_some found, member⟩

theorem count_firstMatch_iff [DecidableEq ι] :
    (∀ i, (Wanted matching values entries i → (firstMatch matching values entries).count i = 1) ∧
      (¬ Wanted matching values entries i → (firstMatch matching values entries).count i = 0)) ↔
      FirstCovers matching values entries := by
  have first : firstMatch matching values entries =
      (((entries.filter matching).head?).map values).getD [] := by
    rw [firstMatch, List.head?_filter]
  simp only [wanted_iff_mem_filter, FirstCovers, first]
  cases entries.filter matching with
  | nil => simp
  | cons entry others =>
    simp only [List.head?_cons, Option.map_some, Option.getD_some, List.mem_cons, exists_eq_or_imp]
    constructor
    · intro counts
      refine ⟨List.nodup_iff_count_le_one.mpr fun i => ?_, fun other member i held => ?_⟩
      · by_cases held : i ∈ values entry
        · exact Nat.le_of_eq ((counts i).1 (.inl held))
        · rw [List.count_eq_zero.mpr held]
          exact Nat.zero_le 1
      · refine List.count_pos_iff.mp ?_
        rw [(counts i).1 (.inr ⟨other, member, held⟩)]
        exact Nat.one_pos
    · rintro ⟨nodup, covers⟩ i
      constructor
      · rintro (held | ⟨other, member, held⟩)
        · exact List.count_eq_one_of_mem nodup held
        · exact List.count_eq_one_of_mem nodup (covers other member held)
      · intro unwanted
        exact List.count_eq_zero.mpr fun held => unwanted (.inl held)

-- Any match can be moved to the front.
/-- In whatever order the entries come, the first match covers the others: each match
repeats no value, and two matches have the same values. -/
theorem firstCovers_of_perm_iff :
    (∀ order : List α, order.Perm entries → FirstCovers matching values order) ↔
      (∀ entry ∈ entries, matching entry = true → (values entry).Nodup) ∧
        ∀ first ∈ entries, ∀ second ∈ entries, matching first = true → matching second = true →
          values second ⊆ values first := by
  constructor
  · intro covers
    have front {first : α} (member : first ∈ entries) (found : matching first = true) :
        (values first).Nodup ∧
          ∀ second ∈ entries, matching second = true → values second ⊆ values first := by
      obtain ⟨before, after, rfl⟩ := List.append_of_mem member
      have first_covers := covers _ List.perm_middle.symm
      rw [FirstCovers, List.filter_cons_of_pos found] at first_covers
      refine ⟨first_covers.1, fun second among matched => ?_⟩
      rcases List.mem_cons.mp (List.perm_middle.mem_iff.mp among) with rfl | other
      · exact List.Subset.refl _
      · exact first_covers.2 second (List.mem_filter.mpr ⟨other, matched⟩)
    constructor
    · exact fun entry member found => (front member found).1
    · intro first member second other found matched
      exact (front member found).2 second other matched
  · rintro ⟨nodup, subset⟩ order perm
    have taken {entry : α} (member : entry ∈ order.filter matching) :
        entry ∈ entries ∧ matching entry = true :=
      ⟨perm.mem_iff.mp (List.mem_filter.mp member).1, (List.mem_filter.mp member).2⟩
    unfold FirstCovers
    cases cut : order.filter matching with
    | nil => trivial
    | cons first others =>
      have head := taken (cut ▸ List.mem_cons_self)
      refine ⟨nodup first head.1 head.2, fun other member => ?_⟩
      have rest := taken (cut ▸ List.mem_cons_of_mem first member)
      exact subset first head.1 other rest.1 head.2 rest.2

end Base
