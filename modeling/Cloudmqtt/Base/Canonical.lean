import Cloudmqtt.Base.Parser

/-! Formats with one encoding for each value, and items that are read off one
after the other until one is refused.
-/

set_option autoImplicit false

namespace Base

namespace Parser

variable {τ ε α β : Type}

/-- The parser reads the encodings of the valid values, and nothing else. -/
def Canonical (p : Parser τ ε α) (valid : α → Prop) (encode : α → List τ) : Prop :=
  ∀ input rest a, p input = .ok (a, rest) ↔ valid a ∧ input = encode a ++ rest

namespace Canonical

variable {p : Parser τ ε α} {valid : α → Prop} {encode : α → List τ}

theorem reads (canonical : Canonical p valid encode) {a : α} (ok : valid a) :
    p.Reads (encode a) a := by
  intro rest
  apply (canonical _ _ _).mpr
  exact ⟨ok, rfl⟩

theorem suffix (canonical : Canonical p valid encode) {input rest : List τ} {a : α}
    (run : p input = .ok (a, rest)) : rest <:+ input := by
  obtain ⟨-, rfl⟩ := (canonical _ _ _).mp run
  exact List.suffix_append _ _

theorem shrinks (canonical : Canonical p valid encode)
    (nonempty : ∀ a, valid a → encode a ≠ []) : Shrinks p := by
  intro input a rest run
  obtain ⟨ok, rfl⟩ := (canonical _ _ _).mp run
  have positive := List.length_pos_iff.mpr (nonempty a ok)
  rw [List.length_append]
  omega

/-- An input consists of items when it is their encodings in a row. -/
theorem items_iff (canonical : Canonical p valid encode) (nonempty : ∀ a, valid a → encode a ≠ [])
    {input : List τ} {items : List α} :
    Items p input items ↔ (∀ a ∈ items, valid a) ∧ input = items.flatMap encode := by
  constructor
  · intro read
    induction read with
    | nil => exact ⟨fun _ member => absurd member List.not_mem_nil, rfl⟩
    | @cons input rest a items _ head _ ih =>
      obtain ⟨ok, rfl⟩ := (canonical _ _ _).mp head
      obtain ⟨valid, rfl⟩ := ih
      exact ⟨List.forall_mem_cons.mpr ⟨ok, valid⟩, rfl⟩
  · rintro ⟨ok, rfl⟩
    induction items with
    | nil => exact .nil
    | cons a items ih =>
      rw [List.forall_mem_cons] at ok
      exact .of_reads (nonempty a ok.1) (canonical.reads ok.1) (ih ok.2)

end Canonical

/-! ### Items up to the first that is refused -/

/-- `Greedy p refuses input items left`: the items stand in front, and what is
left behind them is refused. -/
inductive Greedy (p : Parser τ ε α) (refuses : ε → Bool) : List τ → List α → List τ → Prop where
  | stop {input : List τ} {e : ε} : p input = .error e → refuses e = true →
      Greedy p refuses input [] input
  | item {input rest left : List τ} {a : α} {items : List α} : p input = .ok (a, rest) →
      Greedy p refuses rest items left → Greedy p refuses input (a :: items) left

/-- Count items until one is refused. A round that reads nothing is an error; the
bound counts rounds. -/
def countItems (p : Parser τ ε α) (refuses : ε → Bool) (stalled : List τ → ε) (endless : ε) :
    Nat → Nat → Parser τ ε Nat
  | 0, _ => fun _ => .error endless
  | bound + 1, count => fun input =>
    match p input with
    | .error e => if refuses e then .ok (count, input) else .error e
    | .ok (_, rest) =>
      if rest.length = input.length then .error (stalled rest)
      else countItems p refuses stalled endless bound (count + 1) rest

section

variable {p : Parser τ ε α} {refuses : ε → Bool} {stalled : List τ → ε} {endless : ε}

theorem Greedy.of_countItems {bound count n : Nat} {input left : List τ}
    (run : countItems p refuses stalled endless bound count input = .ok (n, left)) :
    ∃ items, Greedy p refuses input items left ∧ n = count + items.length := by
  induction bound generalizing count input with
  | zero => simp [countItems] at run
  | succ bound ih =>
    rw [countItems] at run
    cases read : p input with
    | error e =>
      simp only [read] at run
      split at run
      next refused =>
        obtain ⟨rfl, rfl⟩ := Prod.mk.inj (Except.ok.inj run)
        exact ⟨[], .stop read refused, rfl⟩
      next => simp at run
    | ok pair =>
      obtain ⟨a, rest⟩ := pair
      simp only [read] at run
      split at run
      next => simp at run
      next =>
        obtain ⟨items, greedy, rfl⟩ := ih run
        refine ⟨a :: items, .item read greedy, ?_⟩
        rw [List.length_cons]
        omega

-- With items that are never empty the bound is not met: each round takes a token.
theorem countItems_error (shrinks : Shrinks p) {bound count : Nat} {input : List τ} {e : ε}
    (enough : input.length < bound)
    (run : countItems p refuses stalled endless bound count input = .error e) :
    ∃ input', p input' = .error e ∧ refuses e = false := by
  induction bound generalizing count input with
  | zero => exact absurd enough (Nat.not_lt_zero _)
  | succ bound ih =>
    rw [countItems] at run
    cases read : p input with
    | error e' =>
      simp only [read] at run
      split at run
      next => simp at run
      next refused =>
        obtain rfl := Except.error.inj run
        exact ⟨input, read, Bool.eq_false_iff.mpr refused⟩
    | ok pair =>
      obtain ⟨a, rest⟩ := pair
      have shorter := shrinks _ _ _ read
      simp only [read, Nat.ne_of_lt shorter, if_false] at run
      apply ih _ run
      omega

/-- The items are the ones whose encodings stand in front. -/
theorem Greedy.split {valid : α → Prop} {encode : α → List τ}
    (canonical : Canonical p valid encode) {input left : List τ} {items : List α}
    (greedy : Greedy p refuses input items left) :
    (∀ a ∈ items, valid a) ∧ input = items.flatMap encode ++ left := by
  induction greedy with
  | stop => exact ⟨fun _ member => absurd member List.not_mem_nil, rfl⟩
  | @item input rest left a items read _ ih =>
    obtain ⟨ok, rfl⟩ := (canonical _ _ _).mp read
    obtain ⟨valid, rfl⟩ := ih
    refine ⟨List.forall_mem_cons.mpr ⟨ok, valid⟩, ?_⟩
    rw [List.flatMap_cons, List.append_assoc]

theorem Greedy.left_nil {valid : α → Prop} {encode : α → List τ}
    (canonical : Canonical p valid encode) (nonempty : ∀ a, valid a → encode a ≠ [])
    {input left : List τ} {items others : List α} (greedy : Greedy p refuses input items left)
    (ok : ∀ a ∈ others, valid a) (filled : input = others.flatMap encode) : left = [] := by
  induction greedy generalizing others with
  | @stop input e refused =>
    cases others with
    | nil => exact filled
    | cons b others =>
      rw [List.forall_mem_cons] at ok
      rw [filled, List.flatMap_cons, canonical.reads ok.1] at refused
      cases refused
  | @item input rest left a items read _ ih =>
    cases others with
    | nil =>
      obtain ⟨okA, same⟩ := (canonical _ _ _).mp read
      rw [filled] at same
      exact absurd (List.append_eq_nil_iff.mp same.symm).1 (nonempty a okA)
    | cons b others =>
      rw [List.forall_mem_cons] at ok
      rw [filled, List.flatMap_cons, canonical.reads ok.1] at read
      obtain ⟨-, rfl⟩ := Prod.mk.inj (Except.ok.inj read)
      exact ih ok.2 rfl

theorem Greedy.left_nil_iff {valid : α → Prop} {encode : α → List τ}
    (canonical : Canonical p valid encode) (nonempty : ∀ a, valid a → encode a ≠ [])
    {input left : List τ} {items : List α} (greedy : Greedy p refuses input items left) :
    left = [] ↔ ∃ others : List α, (∀ a ∈ others, valid a) ∧ input = others.flatMap encode := by
  constructor
  · rintro rfl
    obtain ⟨ok, split⟩ := greedy.split canonical
    rw [List.append_nil] at split
    exact ⟨items, ok, split⟩
  · rintro ⟨others, ok, filled⟩
    exact greedy.left_nil canonical nonempty ok filled

end

/-! ### Pieces of announced widths -/

/-- The input cut into pieces, each as wide as its front announces. The bound
counts pieces; the last one is short where less is left. -/
def pieces (width : List τ → Nat) : Nat → List τ → List (List τ)
  | 0, _ => []
  | _, [] => []
  | bound + 1, input => input.take (width input) :: pieces width bound (input.drop (width input))

theorem pieces_succ {width : List τ → Nat} {bound : Nat} {input : List τ} (nonempty : input ≠ []) :
    pieces width (bound + 1) input =
      input.take (width input) :: pieces width bound (input.drop (width input)) := by
  cases input with
  | nil => exact absurd rfl nonempty
  | cons t rest => rfl

-- Induction on the bound; a piece that is an encoding is as wide as it announces, so
-- the cuts fall between the encodings.
theorem pieces_iff {valid : α → Prop} {encode : α → List τ} {width : List τ → Nat}
    (positive : ∀ input, 0 < width input)
    (widths : ∀ a rest, valid a → width (encode a ++ rest) = (encode a).length)
    {bound : Nat} {input : List τ} (enough : input.length ≤ bound) :
    (∀ piece ∈ pieces width bound input, ∃ a, valid a ∧ piece = encode a) ↔
      ∃ items : List α, (∀ a ∈ items, valid a) ∧ input = items.flatMap encode := by
  induction bound generalizing input with
  | zero =>
    obtain rfl := List.length_eq_zero_iff.mp (Nat.le_zero.mp enough)
    exact iff_of_true (by simp [pieces]) ⟨[], by simp⟩
  | succ bound ih =>
    by_cases empty : input = []
    · subst empty
      exact iff_of_true (by simp [pieces]) ⟨[], by simp⟩
    · have shorter : (input.drop (width input)).length ≤ bound := by
        have announced := positive input
        rw [List.length_drop]
        omega
      rw [pieces_succ empty, List.forall_mem_cons, ih shorter]
      constructor
      · rintro ⟨⟨a, ok, front⟩, items, valid, behind⟩
        refine ⟨a :: items, List.forall_mem_cons.mpr ⟨ok, valid⟩, ?_⟩
        rw [List.flatMap_cons, ← front, ← behind, List.take_append_drop]
      · rintro ⟨items, valid, rfl⟩
        cases items with
        | nil => exact absurd rfl empty
        | cons a items =>
          rw [List.forall_mem_cons] at valid
          rw [List.flatMap_cons, widths a _ valid.1, List.take_left, List.drop_left]
          exact ⟨⟨a, valid.1, rfl⟩, items, valid.2, rfl⟩

end Parser

end Base
