import Mathlib.Data.List.Basic
import Mathlib.Data.List.Monad

/-! Parsers that read a value off the front of a token list.

`Reads` is the complete direction of a format: these tokens are read as this
value, whatever follows them. `Local` is the sound direction: a successful run
is decided by the tokens it consumed. Both compose along `>>=`.
-/

set_option autoImplicit false

namespace Base

theorem except_bind_eq_ok {ε α β : Type} {x : Except ε α} {f : α → Except ε β} {b : β} :
    (x >>= f) = .ok b ↔ ∃ a, x = .ok a ∧ f a = .ok b := by
  cases x with
  | error e => simp [bind, Except.bind]
  | ok a => simp [bind, Except.bind]

theorem except_map_eq_ok {ε α β : Type} {x : Except ε α} {f : α → β} {b : β} :
    x.map f = .ok b ↔ ∃ a, x = .ok a ∧ f a = b := by
  cases x with
  | error e => simp [Except.map]
  | ok a => simp [Except.map]

/-- A value read off the front of the input, and the input left unread. -/
def Parser (τ ε α : Type) : Type := List τ → Except ε (α × List τ)

namespace Parser

variable {τ ε α β σ : Type}

instance : Monad (Parser τ ε) where
  pure a := fun input => .ok (a, input)
  bind p f := fun input =>
    match p input with
    | .ok (a, rest) => f a rest
    | .error e => .error e

theorem pure_apply (a : α) (input : List τ) : (pure a : Parser τ ε α) input = .ok (a, input) := rfl

theorem bind_apply (p : Parser τ ε α) (f : α → Parser τ ε β) (input : List τ) :
    (p >>= f) input =
      match p input with
      | .ok (a, rest) => f a rest
      | .error e => .error e := rfl

theorem bind_eq_ok {p : Parser τ ε α} {f : α → Parser τ ε β} {input rest : List τ} {b : β} :
    (p >>= f) input = .ok (b, rest) ↔
      ∃ a middle, p input = .ok (a, middle) ∧ f a middle = .ok (b, rest) := by
  rw [bind_apply]
  cases first : p input with
  | error e => simp
  | ok pair =>
    obtain ⟨a, middle⟩ := pair
    simp

theorem map_eq_ok {p : Parser τ ε α} {f : α → β} {input rest : List τ} {b : β} :
    (f <$> p) input = .ok (b, rest) ↔ ∃ a, p input = .ok (a, rest) ∧ f a = b := by
  change (p >>= fun a => pure (f a)) input = _ ↔ _
  simp only [bind_eq_ok, pure_apply, Except.ok.injEq, Prod.mk.injEq]
  constructor
  · rintro ⟨a, middle, read, same, rfl⟩
    exact ⟨a, read, same⟩
  · rintro ⟨a, read, same⟩
    exact ⟨a, rest, read, same, rfl⟩

theorem pair_eq_ok {γ : Type} {p : Parser τ ε α} {q : Parser τ ε β} {make : α → β → γ}
    {input rest : List τ} {made : γ} :
    (do let a ← p; let b ← q; pure (make a b) : Parser τ ε γ) input = .ok (made, rest) ↔
      ∃ a middle b, p input = .ok (a, middle) ∧ q middle = .ok (b, rest) ∧ made = make a b := by
  simp only [bind_eq_ok, pure_apply, Except.ok.injEq, Prod.mk.injEq]
  constructor
  · rintro ⟨a, middle, first, b, _, second, rfl, rfl⟩
    exact ⟨a, middle, b, first, second, rfl⟩
  · rintro ⟨a, middle, b, first, second, rfl⟩
    exact ⟨a, middle, first, b, rest, second, rfl, rfl⟩

theorem triple_eq_ok {γ δ : Type} {p : Parser τ ε α} {q : Parser τ ε β} {r : Parser τ ε γ}
    {make : α → β → γ → δ} {input rest : List τ} {made : δ} :
    (do let a ← p; let b ← q; let c ← r; pure (make a b c) : Parser τ ε δ) input =
        .ok (made, rest) ↔
      ∃ a s b t c, p input = .ok (a, s) ∧ q s = .ok (b, t) ∧ r t = .ok (c, rest) ∧
        made = make a b c := by
  rw [bind_eq_ok]
  simp only [pair_eq_ok]
  constructor
  · rintro ⟨a, s, first, b, t, c, second, third, rfl⟩
    exact ⟨a, s, b, t, c, first, second, third, rfl⟩
  · rintro ⟨a, s, b, t, c, first, second, third, rfl⟩
    exact ⟨a, s, first, b, t, c, second, third, rfl⟩

def fail (e : ε) : Parser τ ε α := fun _ => .error e

def lift (x : Except ε α) : Parser τ ε α := fun input => x.map fun a => (a, input)

theorem lift_eq_ok {x : Except ε α} {input rest : List τ} {a : α} :
    (lift x : Parser τ ε α) input = .ok (a, rest) ↔ x = .ok a ∧ input = rest := by
  cases x <;> simp [lift, Except.map]

def verify (p : Parser τ ε α) (test : α → Bool) (e : ε) : Parser τ ε α := fun input =>
  match p input with
  | .ok (a, rest) => if test a then .ok (a, rest) else .error e
  | .error e' => .error e'

def tryMap (p : Parser τ ε α) (convert : α → Option β) (e : ε) : Parser τ ε β := fun input =>
  match p input with
  | .ok (a, rest) =>
    match convert a with
    | some b => .ok (b, rest)
    | none => .error e
  | .error e' => .error e'

theorem verify_eq_ok {p : Parser τ ε α} {test : α → Bool} {e : ε} {input rest : List τ} {a : α} :
    verify p test e input = .ok (a, rest) ↔ p input = .ok (a, rest) ∧ test a = true := by
  unfold verify
  constructor
  · intro run
    split at run
    next b middle read =>
      split at run
      next holds =>
        obtain ⟨rfl, rfl⟩ := Prod.mk.inj (Except.ok.inj run)
        exact ⟨read, holds⟩
      next => simp at run
    next => simp at run
  · rintro ⟨read, holds⟩
    simp [read, holds]

theorem tryMap_eq_ok {p : Parser τ ε α} {convert : α → Option β} {e : ε}
    {input rest : List τ} {b : β} :
    tryMap p convert e input = .ok (b, rest) ↔
      ∃ a, p input = .ok (a, rest) ∧ convert a = some b := by
  unfold tryMap
  constructor
  · intro run
    split at run
    next a middle read =>
      split at run
      next c found =>
        obtain ⟨rfl, rfl⟩ := Prod.mk.inj (Except.ok.inj run)
        exact ⟨a, read, found⟩
      next => simp at run
    next => simp at run
  · rintro ⟨a, read, found⟩
    simp [read, found]

def finish : Parser τ ε (List τ) := fun input => .ok (input, [])

def eof (e : ε) : Parser τ ε Unit
  | [] => .ok ((), [])
  | _ :: _ => .error e

def isEmpty : Parser τ ε Bool := fun input => .ok (input.isEmpty, input)

def take (n : Nat) (e : ε) : Parser τ ε (List τ) := fun input =>
  if n ≤ input.length then .ok (input.take n, input.drop n) else .error e

theorem take_eq_ok {n : Nat} {e : ε} {input rest front : List τ} :
    take n e input = .ok (front, rest) ↔ input = front ++ rest ∧ front.length = n := by
  unfold take
  constructor
  · intro run
    split at run
    next fits =>
      obtain ⟨rfl, rfl⟩ := Prod.mk.inj (Except.ok.inj run)
      exact ⟨(List.take_append_drop n input).symm, by simp [fits]⟩
    next => simp at run
  · rintro ⟨rfl, rfl⟩
    simp

def lengthTake (count : Parser τ ε Nat) (e : ε) : Parser τ ε (List τ) := do
  take (← count) e

/-- A count, then that many tokens handed to an inner parser. What the inner
parser leaves unread is dropped. -/
def lengthAndThen (count : Parser τ ε Nat) (inner : Parser τ ε α) (e : ε) : Parser τ ε α := do
  let data ← lengthTake count e
  lift ((inner data).map Prod.fst)

def recognize (p : Parser τ ε α) : Parser τ ε (List τ) := fun input =>
  match p input with
  | .ok (_, rest) => .ok (input.take (input.length - rest.length), rest)
  | .error e => .error e

/-! ### What a parser reads -/

/-- The tokens `c` are read as `a`, whatever follows them. -/
def Reads (p : Parser τ ε α) (c : List τ) (a : α) : Prop :=
  ∀ rest, p (c ++ rest) = .ok (a, rest)

theorem Reads.whole {p : Parser τ ε α} {c : List τ} {a : α} (reads : p.Reads c a) :
    p c = .ok (a, []) := by
  simpa using reads []

theorem Reads.pure (a : α) : (Pure.pure a : Parser τ ε α).Reads [] a := fun _ => rfl

theorem Reads.bind {p : Parser τ ε α} {f : α → Parser τ ε β} {c d : List τ} {a : α} {b : β}
    (first : p.Reads c a) (next : (f a).Reads d b) : (p >>= f).Reads (c ++ d) b := by
  intro rest
  rw [List.append_assoc, bind_eq_ok]
  exact ⟨a, d ++ rest, first _, next rest⟩

theorem Reads.map {p : Parser τ ε α} {c : List τ} {a : α} (f : α → β) (reads : p.Reads c a) :
    (f <$> p).Reads c (f a) :=
  fun rest => map_eq_ok.mpr ⟨a, reads rest, rfl⟩

theorem Reads.verify {p : Parser τ ε α} {c : List τ} {a : α} {test : α → Bool} {e : ε}
    (reads : p.Reads c a) (holds : test a = true) : (verify p test e).Reads c a :=
  fun rest => verify_eq_ok.mpr ⟨reads rest, holds⟩

theorem Reads.tryMap {p : Parser τ ε α} {c : List τ} {a : α} {convert : α → Option β} {b : β}
    {e : ε} (reads : p.Reads c a) (found : convert a = some b) : (tryMap p convert e).Reads c b :=
  fun rest => tryMap_eq_ok.mpr ⟨a, reads rest, found⟩

theorem Reads.lift {x : Except ε α} {a : α} (value : x = .ok a) :
    (lift x : Parser τ ε α).Reads [] a :=
  fun _ => lift_eq_ok.mpr ⟨value, rfl⟩

theorem Reads.take {c : List τ} {e : ε} : (take c.length e : Parser τ ε _).Reads c c :=
  fun _ => take_eq_ok.mpr ⟨rfl, rfl⟩

/-! ### Parsers decided by what they consume -/

/-- A successful run is decided by the tokens it consumed. -/
def Local (p : Parser τ ε α) : Prop :=
  ∀ input a rest, p input = .ok (a, rest) → ∃ c, input = c ++ rest ∧ p.Reads c a

theorem Local.pure (a : α) : Local (Pure.pure a : Parser τ ε α) := by
  intro input b rest run
  simp only [pure_apply, Except.ok.injEq, Prod.mk.injEq] at run
  obtain ⟨rfl, rfl⟩ := run
  exact ⟨[], rfl, Reads.pure a⟩

theorem Local.lift (x : Except ε α) : Local (lift x : Parser τ ε α) := by
  intro input a rest run
  obtain ⟨value, rfl⟩ := lift_eq_ok.mp run
  exact ⟨[], rfl, Reads.lift value⟩

theorem Local.bind {p : Parser τ ε α} {f : α → Parser τ ε β} (first : Local p)
    (next : ∀ a, Local (f a)) : Local (p >>= f) := by
  intro input b rest run
  obtain ⟨a, middle, read, tail⟩ := bind_eq_ok.mp run
  obtain ⟨c, rfl, readsC⟩ := first _ _ _ read
  obtain ⟨d, rfl, readsD⟩ := next _ _ _ _ tail
  exact ⟨c ++ d, (List.append_assoc _ _ _).symm, readsC.bind readsD⟩

theorem Local.map {p : Parser τ ε α} (f : α → β) (first : Local p) : Local (f <$> p) := by
  intro input b rest run
  obtain ⟨a, read, rfl⟩ := map_eq_ok.mp run
  obtain ⟨c, rfl, reads⟩ := first _ _ _ read
  exact ⟨c, rfl, reads.map f⟩

theorem Local.take (n : Nat) (e : ε) : Local (take n e : Parser τ ε _) := by
  intro input a rest run
  obtain ⟨rfl, rfl⟩ := take_eq_ok.mp run
  exact ⟨a, rfl, Reads.take⟩

theorem Local.lengthTake {count : Parser τ ε Nat} (first : Local count) (e : ε) :
    Local (lengthTake count e) :=
  first.bind fun n => Local.take n e

/-! ### Reading items up to the end of the input -/

def Shrinks (p : Parser τ ε α) : Prop :=
  ∀ input a rest, p input = .ok (a, rest) → rest.length < input.length

def Suffixes (p : Parser τ ε α) : Prop :=
  ∀ input a rest, p input = .ok (a, rest) → rest.length ≤ input.length

theorem Local.suffixes {p : Parser τ ε α} (isLocal : Local p) : Suffixes p := by
  intro input a rest run
  obtain ⟨c, rfl, -⟩ := isLocal _ _ _ run
  simp

theorem Shrinks.bind {p : Parser τ ε α} {f : α → Parser τ ε β} (first : Shrinks p)
    (next : ∀ a, Suffixes (f a)) : Shrinks (p >>= f) := by
  intro input b rest run
  obtain ⟨a, middle, read, run⟩ := bind_eq_ok.mp run
  exact Nat.lt_of_le_of_lt (next _ _ _ _ run) (first _ _ _ read)

theorem Shrinks.map {p : Parser τ ε α} (f : α → β) (first : Shrinks p) : Shrinks (f <$> p) := by
  intro input b rest run
  obtain ⟨a, read, -⟩ := map_eq_ok.mp run
  exact first _ _ _ read

theorem Shrinks.take {n : Nat} (positive : 0 < n) (e : ε) :
    Shrinks (take n e : Parser τ ε (List τ)) := by
  intro input a rest run
  obtain ⟨rfl, rfl⟩ := take_eq_ok.mp run
  rw [List.length_append]
  exact Nat.lt_add_of_pos_left positive

theorem Shrinks.tryMap {p : Parser τ ε α} (first : Shrinks p) (convert : α → Option β) (e : ε) :
    Shrinks (tryMap p convert e) := by
  intro input b rest run
  obtain ⟨a, read, -⟩ := tryMap_eq_ok.mp run
  exact first _ _ _ read

/-- Read items until the input is used up, folding each into a state. The bound
counts tokens, so a parser that consumes something never meets it. -/
def foldWithin (p : Parser τ ε α) (update : σ → α → Except ε σ) (stuck : ε) :
    Nat → σ → List τ → Except ε σ
  | _, s, [] => .ok s
  | 0, _, _ :: _ => .error stuck
  | bound + 1, s, t :: ts =>
    match p (t :: ts) with
    | .error e => .error e
    | .ok (a, rest) =>
      match update s a with
      | .error e => .error e
      | .ok next => foldWithin p update stuck bound next rest

def foldAll (p : Parser τ ε α) (update : σ → α → Except ε σ) (stuck : ε) (s : σ)
    (input : List τ) : Except ε σ :=
  foldWithin p update stuck input.length s input

def many (p : Parser τ ε α) (stuck : ε) (input : List τ) : Except ε (List α) :=
  foldAll p (fun items a => .ok (items ++ [a])) stuck [] input

/-- `Items p input items`: the parser reads the input, item by item, up to its end. -/
inductive Items (p : Parser τ ε α) : List τ → List α → Prop where
  | nil : Items p [] []
  | cons {input rest : List τ} {a : α} {items : List α} :
      input ≠ [] → p input = .ok (a, rest) → Items p rest items → Items p input (a :: items)

theorem Items.mono {p q : Parser τ ε α} (agree : ∀ input a rest, p input = .ok (a, rest) →
    q input = .ok (a, rest)) {input : List τ} {items : List α} (read : Items p input items) :
    Items q input items := by
  induction read with
  | nil => exact .nil
  | cons nonempty head _ ih => exact .cons nonempty (agree _ _ _ head) ih

theorem Items.of_reads {p : Parser τ ε α} {c rest : List τ} {a : α} {items : List α}
    (nonempty : c ≠ []) (reads : p.Reads c a) (more : Items p rest items) :
    Items p (c ++ rest) (a :: items) :=
  .cons (by simp [nonempty]) (reads rest) more

theorem foldWithin_of_items {p : Parser τ ε α} (shrinks : Shrinks p) {update : σ → α → Except ε σ}
    {stuck : ε} {input : List τ} {items : List α} (read : Items p input items) {bound : Nat}
    {s : σ} (enough : input.length ≤ bound) :
    foldWithin p update stuck bound s input = items.foldlM update s := by
  induction read generalizing bound s with
  | nil => cases bound <;> rfl
  | @cons input rest a items nonempty head more ih =>
    have shorter := shrinks _ _ _ head
    cases input with
    | nil => exact absurd rfl nonempty
    | cons t ts =>
      cases bound with
      | zero => simp at enough
      | succ bound =>
        simp only [foldWithin, head, List.foldlM_cons]
        cases update s a with
        | error e => rfl
        | ok next => exact ih (by simp only [List.length_cons] at *; omega)

theorem items_of_foldWithin {p : Parser τ ε α} {update : σ → α → Except ε σ} {stuck : ε}
    {bound : Nat} {s final : σ} {input : List τ}
    (run : foldWithin p update stuck bound s input = .ok final) :
    ∃ items, Items p input items ∧ items.foldlM update s = .ok final := by
  induction bound generalizing s input with
  | zero =>
    cases input with
    | nil => exact ⟨[], .nil, run⟩
    | cons t ts => simp [foldWithin] at run
  | succ bound ih =>
    cases input with
    | nil => exact ⟨[], .nil, run⟩
    | cons t ts =>
      simp only [foldWithin] at run
      cases head : p (t :: ts) with
      | error e => simp [head] at run
      | ok pair =>
        obtain ⟨a, rest⟩ := pair
        simp only [head] at run
        cases step : update s a with
        | error e => simp [step] at run
        | ok next =>
          simp only [step] at run
          obtain ⟨items, more, fold⟩ := ih run
          refine ⟨a :: items, .cons (by simp) head more, ?_⟩
          rw [List.foldlM_cons, step]
          exact fold

theorem foldAll_eq_ok {p : Parser τ ε α} (shrinks : Shrinks p) {update : σ → α → Except ε σ}
    {stuck : ε} {s final : σ} {input : List τ} :
    foldAll p update stuck s input = .ok final ↔
      ∃ items, Items p input items ∧ items.foldlM update s = .ok final := by
  constructor
  · exact items_of_foldWithin
  · rintro ⟨items, read, fold⟩
    rw [foldAll, foldWithin_of_items shrinks read (Nat.le_refl _), fold]

theorem foldlM_append_item (items more : List α) :
    more.foldlM (fun items a => (.ok (items ++ [a]) : Except ε (List α))) items =
      .ok (items ++ more) := by
  induction more generalizing items with
  | nil => simp [pure, Except.pure]
  | cons a more ih =>
    rw [List.foldlM_cons]
    exact (ih (items ++ [a])).trans (by simp)

theorem many_eq_ok {p : Parser τ ε α} (shrinks : Shrinks p) {stuck : ε} {input : List τ}
    {items : List α} : many p stuck input = .ok items ↔ Items p input items := by
  rw [many, foldAll_eq_ok shrinks]
  constructor
  · rintro ⟨found, read, fold⟩
    rw [foldlM_append_item, List.nil_append] at fold
    exact Except.ok.inj fold ▸ read
  · intro read
    exact ⟨items, read, by rw [foldlM_append_item, List.nil_append]⟩

theorem Items.unique {p : Parser τ ε α} {input : List τ} {first second : List α}
    (left : Items p input first) (right : Items p input second) : first = second := by
  induction left generalizing second with
  | nil =>
    cases right with
    | nil => rfl
    | cons nonempty => exact absurd rfl nonempty
  | cons nonempty head _ ih =>
    cases right with
    | nil => exact absurd rfl nonempty
    | cons _ head' more =>
      obtain ⟨rfl, rfl⟩ := Prod.mk.inj (Except.ok.inj (head.symm.trans head'))
      rw [ih more]

theorem Items.length_le {p : Parser τ ε α} (shrinks : Shrinks p) {input : List τ} {items : List α}
    (read : Items p input items) : items.length ≤ input.length := by
  induction read with
  | nil => exact Nat.le_refl _
  | cons _ head _ ih =>
    have shorter := shrinks _ _ _ head
    simp only [List.length_cons]
    omega

theorem Items.cons_iff {p : Parser τ ε α} {input : List τ} (nonempty : input ≠ [])
    {items : List α} : Items p input items ↔
      ∃ a rest more, p input = .ok (a, rest) ∧ Items p rest more ∧ items = a :: more := by
  constructor
  · intro read
    cases read with
    | nil => exact absurd rfl nonempty
    | cons _ head more => exact ⟨_, _, _, head, more, rfl⟩
  · rintro ⟨a, rest, more, head, read, rfl⟩
    exact .cons nonempty head read

theorem Items.append_iff {p : Parser τ ε α} {c input : List τ} {a : α} (reads : p.Reads c a)
    (nonempty : c ≠ []) {items : List α} :
    Items p (c ++ input) items ↔ ∃ more, Items p input more ∧ items = a :: more := by
  rw [Items.cons_iff (by simp [nonempty])]
  constructor
  · rintro ⟨b, rest, more, head, read, rfl⟩
    obtain ⟨rfl, rfl⟩ := Prod.mk.inj (Except.ok.inj ((reads _).symm.trans head))
    exact ⟨more, read, rfl⟩
  · rintro ⟨more, read, rfl⟩
    exact ⟨a, input, more, reads _, read, rfl⟩

/-- An encoding is not read before all of it is there. -/
theorem Local.length_le {p : Parser τ ε α} (isLocal : Local p) {c : List τ} {a : α}
    (reads : p.Reads c a) {n : Nat} {b : α} {rest : List τ}
    (run : p (c.take n) = .ok (b, rest)) : c.length ≤ n := by
  obtain ⟨d, cut, readsD⟩ := isLocal _ _ _ run
  have whole : c = d ++ (rest ++ c.drop n) := by
    rw [← List.append_assoc, ← cut, List.take_append_drop]
  have again := readsD (rest ++ c.drop n)
  rw [← whole, reads.whole] at again
  have nothing := (Prod.mk.inj (Except.ok.inj again)).2
  exact List.drop_eq_nil_iff.mp (List.append_eq_nil_iff.mp nothing.symm).2

/-- The values whose encodings have the length `n`: none, or the first and some behind it. -/
theorem exists_front_cons {β : Type} {encode : β → List τ} {value : β → α} {b : β} {more : List β}
    {n : Nat} {items : List α} :
    (∃ front back, b :: more = front ++ back ∧ (front.flatMap encode).length = n ∧
        items = front.map value) ↔
      (n = 0 ∧ items = []) ∨ ∃ front back, more = front ++ back ∧
        (encode b).length + (front.flatMap encode).length = n ∧
          items = value b :: front.map value := by
  constructor
  · rintro ⟨front, back, split, rfl, rfl⟩
    rcases List.cons_eq_append_iff.mp split with ⟨rfl, -⟩ | ⟨front, rfl, rfl⟩
    · exact .inl ⟨rfl, rfl⟩
    · exact .inr ⟨front, back, rfl, by rw [List.flatMap_cons, List.length_append], rfl⟩
  · rintro (⟨rfl, rfl⟩ | ⟨front, back, rfl, rfl, rfl⟩)
    · exact ⟨[], b :: more, rfl, rfl, rfl⟩
    · exact ⟨b :: front, back, rfl, by rw [List.flatMap_cons, List.length_append], rfl⟩

-- The parser is local, so a cut inside an encoding leaves nothing that it reads.
/-- Encodings in a row, cut off at `n`: they are read when the cut lies between
two of them. -/
theorem Items.take_iff {β : Type} {p : Parser τ ε α} (isLocal : Local p) {encode : β → List τ}
    {value : β → α} {bs : List β} (nonempty : ∀ b ∈ bs, encode b ≠ [])
    (reads : ∀ b ∈ bs, p.Reads (encode b) (value b)) {n : Nat}
    (inside : n ≤ (bs.flatMap encode).length) {items : List α} :
    Items p ((bs.flatMap encode).take n) items ↔
      ∃ front back, bs = front ++ back ∧ (front.flatMap encode).length = n ∧
        items = front.map value := by
  induction bs generalizing n items with
  | nil =>
    obtain rfl : n = 0 := Nat.le_zero.mp inside
    constructor
    · intro read
      exact ⟨[], [], rfl, rfl, read.unique .nil⟩
    · rintro ⟨front, back, split, -, rfl⟩
      obtain ⟨rfl, -⟩ := List.append_eq_nil_iff.mp split.symm
      exact .nil
  | cons b more ih =>
    rw [List.forall_mem_cons] at nonempty reads
    rw [List.flatMap_cons, List.length_append] at inside
    have positive := List.length_pos_iff.mpr nonempty.1
    rw [List.flatMap_cons, exists_front_cons]
    by_cases whole : (encode b).length ≤ n
    · -- the first encoding is inside, and the rest is cut
      rw [List.take_append, List.take_of_length_le whole, Items.append_iff reads.1 nonempty.1]
      have left : n - (encode b).length ≤ (more.flatMap encode).length :=
        Nat.sub_le_iff_le_add'.mpr inside
      constructor
      · rintro ⟨as, read, rfl⟩
        obtain ⟨front, back, split, length, rfl⟩ := (ih nonempty.2 reads.2 left).mp read
        exact .inr ⟨front, back, split, by omega, rfl⟩
      · rintro (⟨rfl, -⟩ | ⟨front, back, split, length, rfl⟩)
        · omega
        · have cut : (front.flatMap encode).length = n - (encode b).length := by omega
          exact ⟨_, (ih nonempty.2 reads.2 left).mpr ⟨front, back, split, cut, rfl⟩, rfl⟩
    · -- the cut is at the start, or inside the first encoding, which is not read then
      rw [List.take_append_of_le_length (Nat.le_of_not_le whole)]
      constructor
      · intro read
        by_cases start : n = 0
        · subst start
          exact .inl ⟨rfl, read.unique .nil⟩
        · have some : (encode b).take n ≠ [] := by
            simp [List.take_eq_nil_iff, start, nonempty.1]
          obtain ⟨a, rest, as, head, -⟩ := (Items.cons_iff some).mp read
          exact absurd (isLocal.length_le reads.1 head) whole
      · rintro (⟨rfl, rfl⟩ | ⟨front, back, split, length, -⟩)
        · exact .nil
        · omega

/-- At least `least` items, then further items up to the end of the input. -/
def repeatTillEof (p : Parser τ ε α) (stuck : ε) : Nat → Parser τ ε Unit
  | 0 => fun input => (many p stuck input).map fun _ => ((), [])
  | least + 1 => do
    let _ ← p
    repeatTillEof p stuck least

theorem repeatTillEof_eq_ok {p : Parser τ ε α} (shrinks : Shrinks p) {stuck : ε} {least : Nat}
    {input rest : List τ} {u : Unit} :
    repeatTillEof p stuck least input = .ok (u, rest) ↔
      rest = [] ∧ ∃ items, Items p input items ∧ least ≤ items.length := by
  induction least generalizing input with
  | zero =>
    rw [repeatTillEof]
    constructor
    · intro run
      cases read : many p stuck input with
      | error e => simp [read, Except.map] at run
      | ok items =>
        simp only [read, Except.map, Except.ok.injEq, Prod.mk.injEq] at run
        exact ⟨run.2.symm, items, (many_eq_ok shrinks).mp read, Nat.zero_le _⟩
    · rintro ⟨rfl, items, read, -⟩
      have all : many p stuck input = .ok items := (many_eq_ok shrinks).mpr read
      simp [all, Except.map]
  | succ least ih =>
    rw [repeatTillEof, bind_eq_ok]
    constructor
    · rintro ⟨a, middle, head, run⟩
      obtain ⟨rfl, items, read, enough⟩ := ih.mp run
      have nonempty : input ≠ [] := by
        rintro rfl
        simpa using shrinks _ _ _ head
      exact ⟨rfl, a :: items, .cons nonempty head read, Nat.succ_le_succ enough⟩
    · rintro ⟨rfl, items, read, enough⟩
      cases read with
      | nil => simp at enough
      | cons _ head more => exact ⟨_, _, head, ih.mpr ⟨rfl, _, more, Nat.le_of_succ_le_succ enough⟩⟩

theorem recognize_repeat_eq_ok {p : Parser τ ε α} (shrinks : Shrinks p) {stuck : ε} {least : Nat}
    {input slice rest : List τ} :
    recognize (repeatTillEof p stuck least) input = .ok (slice, rest) ↔
      slice = input ∧ rest = [] ∧ ∃ items, Items p input items ∧ least ≤ items.length := by
  unfold recognize
  constructor
  · intro run
    cases read : repeatTillEof p stuck least input with
    | error e => simp [read] at run
    | ok pair =>
      obtain ⟨u, left⟩ := pair
      obtain ⟨rfl, items⟩ := (repeatTillEof_eq_ok shrinks).mp read
      simp only [read, List.length_nil, Nat.sub_zero, List.take_length, Except.ok.injEq,
        Prod.mk.injEq] at run
      exact ⟨run.1.symm, run.2.symm, items⟩
  · rintro ⟨rfl, rfl, items⟩
    have all : repeatTillEof p stuck least slice = .ok ((), []) :=
      (repeatTillEof_eq_ok shrinks).mpr ⟨rfl, items⟩
    simp [all]

/-! ### Widths that the input itself announces -/

def Spans (p : Parser τ ε α) (width : List τ → Nat) : Prop :=
  ∀ input a rest, p input = .ok (a, rest) →
    width input ≤ input.length ∧ rest = input.drop (width input)

theorem Spans.suffix {p : Parser τ ε α} {width : List τ → Nat} (spans : Spans p width)
    {input rest : List τ} {a : α} (run : p input = .ok (a, rest)) : rest <:+ input := by
  obtain ⟨-, rfl⟩ := spans _ _ _ run
  exact List.drop_suffix _ _

def measure : List (List τ → Nat) → List τ → Nat
  | [], _ => 0
  | width :: more, input => width input + measure more (input.drop (width input))

theorem Spans.pure (a : α) : Spans (Pure.pure a : Parser τ ε α) (measure []) := by
  intro input b rest run
  obtain ⟨rfl, rfl⟩ := Prod.mk.inj (Except.ok.inj run)
  exact ⟨Nat.zero_le _, rfl⟩

theorem Spans.bind {p : Parser τ ε α} {f : α → Parser τ ε β} {width : List τ → Nat}
    {more : List (List τ → Nat)} (first : Spans p width) (next : ∀ a, Spans (f a) (measure more)) :
    Spans (p >>= f) (measure (width :: more)) := by
  intro input b rest run
  obtain ⟨a, middle, read, run⟩ := bind_eq_ok.mp run
  obtain ⟨fits, rfl⟩ := first _ _ _ read
  obtain ⟨fitsMore, rfl⟩ := next _ _ _ _ run
  rw [List.length_drop] at fitsMore
  exact ⟨by rw [measure]; omega, by rw [measure, List.drop_drop]⟩

theorem Spans.map {p : Parser τ ε α} {width : List τ → Nat} (spans : Spans p width) (f : α → β) :
    Spans (f <$> p) width := by
  intro input b rest run
  obtain ⟨a, read, -⟩ := map_eq_ok.mp run
  exact spans _ _ _ read

theorem Spans.tryMap {p : Parser τ ε α} {width : List τ → Nat} (spans : Spans p width)
    (convert : α → Option β) (e : ε) : Spans (tryMap p convert e) width := by
  intro input b rest run
  obtain ⟨a, read, -⟩ := tryMap_eq_ok.mp run
  exact spans _ _ _ read

theorem Spans.of_append {p : Parser τ ε α} {width : List τ → Nat}
    (split : ∀ input a rest, p input = .ok (a, rest) →
      ∃ c, input = c ++ rest ∧ width (c ++ rest) = c.length) : Spans p width := by
  intro input a rest run
  obtain ⟨c, rfl, same⟩ := split _ _ _ run
  rw [same]
  exact ⟨by simp, by simp⟩

end Parser

end Base
