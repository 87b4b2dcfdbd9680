import Mathlib.Data.List.Basic

/-! Append-only writers that may stop with a fault.

What was appended before a fault stays appended: a writer is the tokens it
appended together with how it ended.
-/

set_option autoImplicit false

namespace Base

/-- The tokens a writer appended, and its value or the fault it stopped with. -/
structure Emit (φ τ α : Type) where
  emitted : List τ
  outcome : Except φ α

namespace Emit

variable {φ τ α β : Type}

instance : Monad (Emit φ τ) where
  pure a := ⟨[], .ok a⟩
  bind w f :=
    match w.outcome with
    | .ok a => ⟨w.emitted ++ (f a).emitted, (f a).outcome⟩
    | .error fault => ⟨w.emitted, .error fault⟩

def write (tokens : List τ) : Emit φ τ Unit := ⟨tokens, .ok ()⟩

def fault (e : φ) : Emit φ τ α := ⟨[], .error e⟩

def Emits (w : Emit φ τ α) (tokens : List τ) (a : α) : Prop := w = ⟨tokens, .ok a⟩

theorem emits_iff {w : Emit φ τ α} {tokens : List τ} {a : α} :
    w.Emits tokens a ↔ w.emitted = tokens ∧ w.outcome = .ok a := by
  cases w
  simp [Emits]

theorem Emits.unique {w : Emit φ τ α} {tokens other : List τ} {a b : α}
    (first : w.Emits tokens a) (second : w.Emits other b) : tokens = other ∧ a = b := by
  have same := Emit.mk.inj (first.symm.trans second)
  exact ⟨same.1, Except.ok.inj same.2⟩

@[simp] theorem pure_emits {tokens : List τ} {a b : α} :
    (pure a : Emit φ τ α).Emits tokens b ↔ tokens = [] ∧ a = b := by
  rw [emits_iff]
  change [] = tokens ∧ Except.ok a = Except.ok b ↔ _
  simp [eq_comm]

@[simp] theorem write_emits {tokens other : List τ} {u : Unit} :
    (write tokens : Emit φ τ Unit).Emits other u ↔ other = tokens := by
  rw [emits_iff]
  simp [write, eq_comm]

@[simp] theorem fault_emits {e : φ} {tokens : List τ} {a : α} :
    ¬ (fault e : Emit φ τ α).Emits tokens a := by
  rw [emits_iff]
  simp [fault]

theorem bind_emits {w : Emit φ τ α} {f : α → Emit φ τ β} {tokens : List τ} {b : β} :
    (w >>= f).Emits tokens b ↔
      ∃ first a second, w.Emits first a ∧ (f a).Emits second b ∧ tokens = first ++ second := by
  change Emits (match w.outcome with
    | .ok a => ⟨w.emitted ++ (f a).emitted, (f a).outcome⟩
    | .error fault => ⟨w.emitted, .error fault⟩) tokens b ↔ _
  simp only [emits_iff]
  cases ended : w.outcome with
  | error e => simp
  | ok a =>
    constructor
    · rintro ⟨rfl, next⟩
      exact ⟨w.emitted, a, _, ⟨rfl, rfl⟩, ⟨rfl, next⟩, rfl⟩
    · rintro ⟨first, a', second, ⟨rfl, same⟩, ⟨rfl, next⟩, rfl⟩
      cases same
      exact ⟨rfl, next⟩

theorem outcome_bind_eq_ok {w : Emit φ τ α} {f : α → Emit φ τ β} {b : β} :
    (w >>= f).outcome = .ok b ↔ ∃ a, w.outcome = .ok a ∧ (f a).outcome = .ok b := by
  change Emit.outcome (match w.outcome with
    | .ok a => ⟨w.emitted ++ (f a).emitted, (f a).outcome⟩
    | .error fault => ⟨w.emitted, .error fault⟩) = .ok b ↔ _
  cases w.outcome <;> simp

theorem outcome_bind_eq_error {w : Emit φ τ α} {f : α → Emit φ τ β} {e : φ} :
    (w >>= f).outcome = .error e ↔
      w.outcome = .error e ∨ ∃ a, w.outcome = .ok a ∧ (f a).outcome = .error e := by
  change Emit.outcome (match w.outcome with
    | .ok a => ⟨w.emitted ++ (f a).emitted, (f a).outcome⟩
    | .error fault => ⟨w.emitted, .error fault⟩) = .error e ↔ _
  cases w.outcome <;> simp

@[simp] theorem outcome_pure (a : α) : (pure a : Emit φ τ α).outcome = .ok a := rfl

@[simp] theorem outcome_write (tokens : List τ) : (write tokens : Emit φ τ Unit).outcome = .ok () :=
  rfl

@[simp] theorem outcome_fault (e : φ) : (fault e : Emit φ τ α).outcome = .error e := rfl

theorem seq_assoc (first second third : Emit φ τ Unit) :
    (first >>= fun _ => second) >>= (fun _ => third) =
      first >>= fun _ => second >>= fun _ => third := by
  obtain ⟨bytes, outcome⟩ := first
  cases outcome with
  | error e => rfl
  | ok =>
    obtain ⟨more, outcome⟩ := second
    cases outcome with
    | error e => rfl
    | ok => exact congrArg (Emit.mk · third.outcome) (List.append_assoc bytes more third.emitted)

theorem seq_emits {first second : Emit φ τ Unit} {tokens : List τ} {u : Unit} :
    (first >>= fun _ => second).Emits tokens u ↔
      ∃ c d, first.Emits c () ∧ second.Emits d u ∧ tokens = c ++ d := by
  rw [bind_emits]
  constructor
  · rintro ⟨c, ⟨⟩, d, left, right, same⟩
    exact ⟨c, d, left, right, same⟩
  · rintro ⟨c, d, left, right, same⟩
    exact ⟨c, (), d, left, right, same⟩

theorem seq_seq_emits {first second third : Emit φ τ Unit} {tokens : List τ} {u : Unit} :
    (do first; second; third).Emits tokens u ↔ ∃ c d e, first.Emits c () ∧ second.Emits d () ∧
      third.Emits e u ∧ tokens = c ++ (d ++ e) := by
  simp only [seq_emits]
  constructor
  · rintro ⟨c, _, left, ⟨d, e, middle, right, rfl⟩, rfl⟩
    exact ⟨c, d, e, left, middle, right, rfl⟩
  · rintro ⟨c, d, e, left, middle, right, rfl⟩
    exact ⟨c, d ++ e, left, ⟨d, e, middle, right, rfl⟩, rfl⟩

theorem Emits.seq {first second : Emit φ τ Unit} {c d : List τ} {u : Unit}
    (left : first.Emits c ()) (right : second.Emits d u) :
    (first >>= fun _ => second).Emits (c ++ d) u :=
  seq_emits.mpr ⟨c, d, left, right, rfl⟩

def each (f : α → Emit φ τ Unit) : List α → Emit φ τ Unit
  | [] => pure ()
  | a :: more => do
    f a
    each f more

theorem each_congr {f g : α → Emit φ τ Unit} {items : List α} (same : ∀ a ∈ items, f a = g a) :
    each f items = each g items := by
  induction items with
  | nil => rfl
  | cons a more ih =>
    rw [List.forall_mem_cons] at same
    rw [each, each, same.1, ih same.2]

theorem each_emits {f : α → Emit φ τ Unit} {items : List α} {tokens : List τ} {u : Unit} :
    (each f items).Emits tokens u ↔ (∀ a ∈ items, (f a).Emits (f a).emitted ()) ∧
      tokens = items.flatMap fun a => (f a).emitted := by
  induction items generalizing tokens with
  | nil => simp [each]
  | cons a more ih =>
    simp only [each, seq_emits, ih, List.forall_mem_cons, List.flatMap_cons]
    constructor
    · rintro ⟨c, _, head, ⟨tail, rfl⟩, rfl⟩
      obtain rfl := (emits_iff.mp head).1
      exact ⟨⟨head, tail⟩, rfl⟩
    · rintro ⟨⟨head, tail⟩, rfl⟩
      exact ⟨_, _, head, ⟨tail, rfl⟩, rfl⟩

/-! ### Which tokens are written -/

def All (allowed : τ → Prop) (w : Emit φ τ α) : Prop := ∀ token ∈ w.emitted, allowed token

namespace All

variable {allowed : τ → Prop}

theorem pure (a : α) : (Pure.pure a : Emit φ τ α).All allowed :=
  fun _ member => absurd member List.not_mem_nil

theorem fault (e : φ) : (fault e : Emit φ τ α).All allowed :=
  fun _ member => absurd member List.not_mem_nil

theorem write {token : τ} (fine : allowed token) : (write [token] : Emit φ τ Unit).All allowed :=
  List.forall_mem_singleton.mpr fine

theorem bind {w : Emit φ τ α} {f : α → Emit φ τ β} (first : w.All allowed)
    (next : ∀ a, w.outcome = .ok a → (f a).All allowed) : (w >>= f).All allowed := by
  obtain ⟨tokens, outcome⟩ := w
  cases outcome with
  | error e => exact first
  | ok a =>
    intro token member
    rcases List.mem_append.mp member with member | member
    · exact first token member
    · exact next a rfl token member

end All

/-! ### What was written by the end -/

/-- `done` holds of the tokens and the value of a writer that ends well, and `cut` of the
tokens of one that fails. -/
structure Yields (w : Emit φ τ α) (done : List τ → α → Prop) (cut : List τ → Prop) : Prop where
  ended : ∀ a, w.outcome = .ok a → done w.emitted a
  failed : ∀ e, w.outcome = .error e → cut w.emitted

namespace Yields

variable {done other : List τ → α → Prop} {later : List τ → β → Prop} {cut broken : List τ → Prop}

theorem pure {a : α} (holds : done [] a) : (Pure.pure a : Emit φ τ α).Yields done cut where
  ended b same := by
    obtain rfl := Except.ok.inj same
    exact holds
  failed e same := by cases same

theorem fault {e : φ} (holds : cut []) : (Emit.fault e : Emit φ τ α).Yields done cut where
  ended a same := by cases same
  failed _ _ := holds

theorem write {tokens : List τ} {done : List τ → Unit → Prop} (holds : done tokens ()) :
    (Emit.write tokens : Emit φ τ Unit).Yields done cut where
  ended _ _ := holds
  failed e same := by cases same

theorem imp {w : Emit φ τ α} (yields : w.Yields done cut)
    (ended : ∀ tokens a, done tokens a → other tokens a)
    (failed : ∀ tokens, cut tokens → broken tokens) : w.Yields other broken where
  ended a same := ended _ a (yields.ended a same)
  failed e same := failed _ (yields.failed e same)

/-- The second writer is judged by what the first one wrote before it. -/
theorem bind {w : Emit φ τ α} {f : α → Emit φ τ β} (first : w.Yields done cut)
    (abort : ∀ tokens, cut tokens → broken tokens)
    (next : ∀ tokens a, w.outcome = .ok a → done tokens a →
      (f a).Yields (fun more b => later (tokens ++ more) b) (fun more => broken (tokens ++ more))) :
    (w >>= f).Yields later broken := by
  obtain ⟨tokens, outcome⟩ := w
  cases outcome with
  | error e =>
    constructor
    · intro b same
      cases same
    · exact fun _ _ => abort tokens (first.failed e rfl)
  | ok a =>
    have second := next tokens a rfl (first.ended a rfl)
    exact ⟨fun b same => second.ended b same, fun e same => second.failed e same⟩

end Yields

/-! ### Which writers fail -/

/-- The writer stops with the fault `e` if it is `bad`, and ends well if not. -/
structure Ends (w : Emit φ τ Unit) (e : φ) (bad : Prop) : Prop where
  fails : bad → w.outcome = .error e
  well : ¬ bad → w.outcome = .ok ()

namespace Ends

variable {w first second : Emit φ τ Unit} {e : φ} {bad also : Prop}

theorem of_emits {tokens : List τ} (emits : w.Emits tokens ()) (good : ¬ bad) : w.Ends e bad :=
  ⟨fun holds => absurd holds good, fun _ => (emits_iff.mp emits).2⟩

theorem congr (ends : w.Ends e bad) (same : bad ↔ also) : w.Ends e also :=
  ⟨fun holds => ends.fails (same.mpr holds), fun good => ends.well (mt same.mp good)⟩

theorem error_iff (ends : w.Ends e bad) : w.outcome = .error e ↔ bad := by
  constructor
  · intro failed
    by_contra good
    have ended := ends.well good
    rw [failed] at ended
    cases ended
  · exact ends.fails

/-- The second writer may also stop in other ways. -/
theorem seq_error_iff (ends : first.Ends e bad) (next : second.outcome = .error e ↔ also) :
    (first >>= fun _ => second).outcome = .error e ↔ bad ∨ also := by
  rw [outcome_bind_eq_error, ends.error_iff, next]
  constructor
  · rintro (holds | ⟨_, -, holds⟩)
    · exact .inl holds
    · exact .inr holds
  · rintro (holds | holds)
    · exact .inl holds
    · by_cases bad
      · exact .inl ‹bad›
      · exact .inr ⟨(), ends.well ‹¬ bad›, holds⟩

theorem seq (left : first.Ends e bad) (right : second.Ends e also) :
    (first >>= fun _ => second).Ends e (bad ∨ also) where
  fails := (left.seq_error_iff right.error_iff).mpr
  well good := outcome_bind_eq_ok.mpr
    ⟨(), left.well fun holds => good (.inl holds), right.well fun holds => good (.inr holds)⟩

theorem each {f : α → Emit φ τ Unit} {among : α → Prop} {items : List α}
    (ends : ∀ a ∈ items, (f a).Ends e (among a)) :
    (Emit.each f items).Ends e (∃ a ∈ items, among a) := by
  induction items with
  | nil => exact of_emits (pure_emits.mpr ⟨rfl, rfl⟩) (by simp)
  | cons a more ih =>
    rw [List.forall_mem_cons] at ends
    exact (ends.1.seq (ih ends.2)).congr (by simp)

end Ends

end Emit

end Base
