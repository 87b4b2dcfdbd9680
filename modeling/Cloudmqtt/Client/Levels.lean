import Cloudmqtt.Client.Topic

/-! Topics that grow level by level. Names and filters differ in what they read as
a level and in whether a level may be the last; all else they do alike.
-/

set_option autoImplicit false

namespace Client

open Base Rust

structure LevelKind (α : Type) where
  tryFrom : String → Except TopicError α
  asStr : α → String
  /-- Nothing may follow the level. -/
  ends : α → Bool
  asStr_of_tryFrom {level : String} {a : α} : tryFrom level = .ok a → asStr a = level

structure Levels (α : Type) where
  levels : List α
  ended : Bool

namespace LevelKind

variable {α : Type} (kind : LevelKind α)

def len (self : Levels α) : Nat :=
  self.levels.length + (self.levels.map fun level => Rust.len (kind.asStr level)).sum

def appendSingle (self : Levels α) (level : String) : Except TopicError (Levels α) :=
  if self.ended then .error .cannotAppendToMultilevelWildcard
  else do
    let level ← kind.tryFrom level
    if maximumTopicByteLength < kind.len self + 1 + Rust.len (kind.asStr level) then
      .error .wouldExceedLength
    else .ok ⟨self.levels ++ [level], self.ended || kind.ends level⟩

def appendAll (self : Levels α) (pieces : List String) : Except TopicError Unit × Levels α :=
  tryForEach kind.appendSingle self pieces

def Readable (level : String) : Prop := ∃ a, kind.tryFrom level = .ok a

def Ends (level : String) : Prop := ∃ a, kind.tryFrom level = .ok a ∧ kind.ends a = true

structure Takes (topic : Levels α) (level : String) : Prop where
  going : topic.ended = false
  readable : kind.Readable level
  fits : kind.len topic + 1 + Rust.len level ≤ maximumTopicByteLength

/-- All levels are read, have room, and none but the last of them ends the topic. -/
structure TakesAll (topic : Levels α) (pieces : List String) : Prop where
  going : topic.ended = false
  readable : ∀ level ∈ pieces, kind.Readable level
  inner : ∀ level ∈ pieces.dropLast, ¬ kind.Ends level
  fits : kind.len topic + pieces.length + (pieces.map Rust.len).sum ≤ maximumTopicByteLength

variable {kind}

theorem appendSingle_eq_ok {self after : Levels α} {level : String} :
    kind.appendSingle self level = .ok after ↔
      self.ended = false ∧ kind.len self + 1 + Rust.len level ≤ maximumTopicByteLength ∧
        ∃ a, kind.tryFrom level = .ok a ∧ after = ⟨self.levels ++ [a], kind.ends a⟩ := by
  unfold appendSingle
  cases self.ended with
  | true => simp
  | false =>
    rw [if_neg Bool.false_ne_true, except_bind_eq_ok]
    constructor
    · rintro ⟨a, read, run⟩
      rw [kind.asStr_of_tryFrom read] at run
      split at run
      next => cases run
      next fits => exact ⟨rfl, Nat.le_of_not_lt fits, a, read, (Except.ok.inj run).symm⟩
    · rintro ⟨-, fits, a, read, rfl⟩
      refine ⟨a, read, ?_⟩
      rw [kind.asStr_of_tryFrom read, if_neg (Nat.not_lt.mpr fits), Bool.false_or]

theorem takes_iff {self : Levels α} {level : String} :
    kind.Takes self level ↔ ∃ after, kind.appendSingle self level = .ok after := by
  simp only [appendSingle_eq_ok]
  constructor
  · rintro ⟨going, ⟨a, read⟩, fits⟩
    exact ⟨_, going, fits, a, read, rfl⟩
  · rintro ⟨_, going, fits, a, read, -⟩
    exact ⟨going, ⟨a, read⟩, fits⟩

theorem len_append (kind : LevelKind α) (self : Levels α) {level : String} {a : α}
    (read : kind.tryFrom level = .ok a) (ended : Bool) :
    kind.len ⟨self.levels ++ [a], ended⟩ = kind.len self + 1 + Rust.len level := by
  simp only [len, List.length_append, List.length_singleton, List.map_append, List.sum_append,
    List.map_cons, List.map_nil, List.sum_cons, List.sum_nil, kind.asStr_of_tryFrom read]
  omega

theorem takesAll_cons {self : Levels α} {level : String} {more : List String} {a : α}
    (read : kind.tryFrom level = .ok a) (going : self.ended = false) :
    kind.TakesAll self (level :: more) ↔
      kind.len self + 1 + Rust.len level ≤ maximumTopicByteLength ∧
        (more = [] ∨ kind.TakesAll ⟨self.levels ++ [a], kind.ends a⟩ more) := by
  have longer := len_append kind self read (kind.ends a)
  constructor
  · rintro ⟨-, readable, inner, fits⟩
    rw [List.length_cons, List.map_cons, List.sum_cons] at fits
    refine ⟨by omega, ?_⟩
    by_cases last : more = []
    · exact .inl last
    · right
      rw [List.dropLast_cons_of_ne_nil last, List.forall_mem_cons] at inner
      constructor
      · exact Bool.eq_false_iff.mpr fun ends => inner.1 ⟨a, read, ends⟩
      · exact (List.forall_mem_cons.mp readable).2
      · exact inner.2
      · rw [longer]
        omega
  · rintro ⟨fits, rfl | ⟨still, readable, inner, fitsAll⟩⟩
    · exact ⟨going, by simpa using ⟨a, read⟩, by simp, by simpa [Nat.add_assoc] using fits⟩
    · rw [longer] at fitsAll
      constructor
      · exact going
      · exact List.forall_mem_cons.mpr ⟨⟨a, read⟩, readable⟩
      · intro other member
        by_cases last : more = []
        · subst last
          exact absurd member List.not_mem_nil
        · rw [List.dropLast_cons_of_ne_nil last, List.mem_cons] at member
          rcases member with rfl | member
          · rintro ⟨b, read', ends⟩
            rw [read] at read'
            obtain rfl := Except.ok.inj read'
            exact Bool.false_ne_true (still.symm.trans ends)
          · exact inner other member
      · rw [List.length_cons, List.map_cons, List.sum_cons]
        omega

theorem appendAll_ok_iff {self : Levels α} {pieces : List String} (some : pieces ≠ []) :
    (kind.appendAll self pieces).1 = .ok () ↔ kind.TakesAll self pieces := by
  induction pieces generalizing self with
  | nil => exact absurd rfl some
  | cons level more ih =>
    rw [appendAll, tryForEach]
    cases step : kind.appendSingle self level with
    | error e =>
      have refused : ¬ kind.Takes self level := fun takes => by
        obtain ⟨after, taken⟩ := takes_iff.mp takes
        rw [step] at taken
        cases taken
      constructor
      · intro ended
        cases ended
      · intro all
        have fits := all.fits
        rw [List.length_cons, List.map_cons, List.sum_cons] at fits
        exact absurd ⟨all.going, (List.forall_mem_cons.mp all.readable).1, by omega⟩ refused
    | ok after =>
      obtain ⟨going, fits, a, read, rfl⟩ := appendSingle_eq_ok.mp step
      rw [takesAll_cons read going, and_iff_right fits]
      by_cases last : more = []
      · subst last
        exact iff_of_true rfl (.inl rfl)
      · rw [or_iff_right last]
        exact ih last

theorem appendAll_length (kind : LevelKind α) (self : Levels α) (pieces : List String) :
    self.levels.length ≤ (kind.appendAll self pieces).2.levels.length := by
  apply tryForEach_preserves (fun topic : Levels α => self.levels.length ≤ topic.levels.length)
  · intro topic level next longer step
    obtain ⟨-, -, a, -, rfl⟩ := appendSingle_eq_ok.mp step
    rw [List.length_append]
    exact Nat.le_add_right_of_le longer
  · exact Nat.le_refl _

theorem appendAll_texts {self after : Levels α} {pieces : List String}
    (ended : kind.appendAll self pieces = (.ok (), after)) :
    after.levels.map kind.asStr = self.levels.map kind.asStr ++ pieces := by
  induction pieces generalizing self with
  | nil =>
    obtain ⟨-, rfl⟩ := Prod.mk.inj ended
    exact (List.append_nil _).symm
  | cons level more ih =>
    rw [appendAll, tryForEach] at ended
    cases step : kind.appendSingle self level with
    | error e =>
      rw [step] at ended
      cases ended
    | ok next =>
      rw [step] at ended
      obtain ⟨-, -, a, read, rfl⟩ := appendSingle_eq_ok.mp step
      have rest := ih ended
      rw [List.map_append, List.append_assoc, List.map_singleton,
        kind.asStr_of_tryFrom read] at rest
      exact rest

/-- A failure leaves the topic as it was when the first level is refused already. -/
theorem appendAll_unchanged_iff (kind : LevelKind α) (self : Levels α) (first : String)
    (more : List String) :
    ((∃ e, (kind.appendAll self (first :: more)).1 = .error e) →
        (kind.appendAll self (first :: more)).2 = self) ↔
      ¬ kind.Takes self first ∨ kind.TakesAll self (first :: more) := by
  rw [← appendAll_ok_iff (List.cons_ne_nil first more), takes_iff]
  cases step : kind.appendSingle self first with
  | error e =>
    apply iff_of_true
    · intro _
      rw [appendAll, tryForEach, step]
    · exact .inl (by simp)
  | ok after =>
    have grown : (kind.appendAll self (first :: more)).2 ≠ self := by
      intro same
      obtain ⟨-, -, a, -, rfl⟩ := appendSingle_eq_ok.mp step
      have longer := appendAll_length kind ⟨self.levels ++ [a], kind.ends a⟩ more
      rw [appendAll, tryForEach, step] at same
      rw [appendAll, same, List.length_append] at longer
      exact absurd longer (Nat.not_succ_le_self _)
    rw [or_iff_right (not_not.mpr ⟨after, rfl⟩)]
    constructor
    · intro unchanged
      cases ended : (kind.appendAll self (first :: more)).1 with
      | error e => exact absurd (unchanged ⟨e, ended⟩) grown
      | ok => rfl
    · intro ended failed
      obtain ⟨e, failed⟩ := failed
      rw [ended] at failed
      cases failed

end LevelKind

end Client
