import Cloudmqtt.Base.Emit
import Mathlib.Algebra.GroupWithZero.Nat
import Mathlib.Data.String.Basic

/-! Parts of the Rust language and its standard library that the crates rely on. -/

set_option autoImplicit false

namespace Rust

/-- Why the running task unwinds. -/
inductive Panic where
  | assertion
  | unwrapNone
  | unwrapError
  | expect (message : String)
  | explicit (message : String)
  | todo
  | unreachable
  | overflow
  deriving DecidableEq, Repr

/-- The Cargo profile the crates are built with. -/
class Build where
  overflowChecks : Bool

@[reducible] def development : Build := ⟨true⟩

/-- `a + b` on `u32`: checked in development builds, wrapping in release builds. -/
def addU32 [Build] (a b : UInt32) : Except Panic UInt32 :=
  if Build.overflowChecks && decide (2 ^ 32 ≤ a.toNat + b.toNat) then .error .overflow
  else .ok (a + b)

theorem addU32_ofNat [Build] {a b : Nat} (fits : a + b < 2 ^ 32) :
    addU32 (.ofNat a) (.ofNat b) = .ok (.ofNat (a + b)) := by
  have small : ¬ 2 ^ 32 ≤ a % 2 ^ 32 + b % 2 ^ 32 := by omega
  simp only [addU32, UInt32.toNat_ofNat', small, decide_false, Bool.and_false, Bool.false_eq_true,
    if_false, ← UInt32.ofNat_add]

theorem addU32_eq_ok [Build] {a b n : UInt32} :
    addU32 a b = .ok n ↔
      (Build.overflowChecks = true → a.toNat + b.toNat < 2 ^ 32) ∧ n = a + b := by
  have same : Except.ok (a + b) = (.ok n : Except Panic UInt32) ↔ n = a + b := by
    rw [Except.ok.injEq]
    exact eq_comm
  unfold addU32
  cases Build.overflowChecks with
  | false => simpa using same
  | true =>
    by_cases exceeds : 2 ^ 32 ≤ a.toNat + b.toNat
    · have reached : ¬ a.toNat + b.toNat < 2 ^ 32 := Nat.not_lt.mpr exceeds
      simp only [exceeds, decide_true, Bool.and_true, if_true, reached, forall_const, false_and,
        reduceCtorEq]
    · have fits : a.toNat + b.toNat < 2 ^ 32 := Nat.lt_of_not_le exceeds
      simp only [exceeds, decide_false, Bool.and_false, Bool.false_eq_true, if_false, fits,
        implies_true, true_and]
      exact same

def mulU32 [Build] (a b : UInt32) : Except Panic UInt32 :=
  if Build.overflowChecks && decide (2 ^ 32 ≤ a.toNat * b.toNat) then .error .overflow
  else .ok (a * b)

def powU32 [Build] (a : UInt32) (exp : Nat) : Except Panic UInt32 :=
  if Build.overflowChecks && decide (2 ^ 32 ≤ a.toNat ^ exp) then .error .overflow
  else .ok (a ^ exp)

theorem addU32_ok [Build] {a b : UInt32} (fits : a.toNat + b.toNat < 2 ^ 32) :
    addU32 a b = .ok (a + b) := by
  rw [addU32, decide_eq_false (Nat.not_le.mpr fits), Bool.and_false]
  rfl

theorem mulU32_ok [Build] {a b : UInt32} (fits : a.toNat * b.toNat < 2 ^ 32) :
    mulU32 a b = .ok (a * b) := by
  rw [mulU32, decide_eq_false (Nat.not_le.mpr fits), Bool.and_false]
  rfl

theorem powU32_ok [Build] {a : UInt32} {exp : Nat} (fits : a.toNat ^ exp < 2 ^ 32) :
    powU32 a exp = .ok (a ^ exp) := by
  rw [powU32, decide_eq_false (Nat.not_le.mpr fits), Bool.and_false]
  rfl

def checkedSubU32 (a b : UInt32) : Option UInt32 := if b ≤ a then some (a - b) else none

/-- `first && second`, where either may panic. -/
def andAlso (first second : Except Panic Bool) : Except Panic Bool :=
  match first with
  | .ok true => second
  | .ok false => .ok false
  | .error p => .error p

theorem andAlso_eq_true {first second : Except Panic Bool} :
    andAlso first second = .ok true ↔ first = .ok true ∧ second = .ok true := by
  cases first with
  | error p => simp [andAlso]
  | ok same => cases same <;> simp [andAlso]

class Target where
  pointerWidth : Nat
  known : pointerWidth = 16 ∨ pointerWidth = 32 ∨ pointerWidth = 64

@[reducible] def x86_64 : Target := ⟨64, by decide⟩

/-- `usize`, as a string of bits. -/
abbrev Usize [Target] : Type := BitVec Target.pointerWidth

def subUsize [Build] [Target] (a b : Nat) : Except Panic Nat :=
  if b ≤ a then .ok (a - b)
  else if Build.overflowChecks then .error .overflow
  else .ok (2 ^ Target.pointerWidth + a - b)

structure NonZeroU16 where
  get : UInt16
  nonzero : get ≠ 0
  deriving DecidableEq

theorem NonZeroU16.one_ne_zero : (1 : UInt16) ≠ 0 := by decide

def NonZeroU16.new (u : UInt16) : Option NonZeroU16 :=
  if h : u ≠ 0 then some ⟨u, h⟩ else none

theorem NonZeroU16.new_eq_some {u : UInt16} {n : NonZeroU16} :
    NonZeroU16.new u = some n ↔ u = n.get := by
  unfold NonZeroU16.new
  split
  next nonzero =>
    obtain ⟨v, hv⟩ := n
    simp
  next zero =>
    simp only [reduceCtorEq, false_iff]
    rintro rfl
    exact zero n.nonzero

/-! ### Bytes that stand for values -/

theorem tryFrom_eq_some_of_forall {α : Type} {tryFrom : UInt8 → Option α} {toU8 : α → UInt8}
    (checked : ∀ b : Fin 256, (tryFrom (.ofFin b)).all fun a => decide (UInt8.ofFin b = toU8 a))
    (back : ∀ a, tryFrom (toU8 a) = some a) {byte : UInt8} {a : α} :
    tryFrom byte = some a ↔ byte = toU8 a := by
  constructor
  · intro found
    have same := checked byte.toFin
    rw [UInt8.ofFin_toFin, found] at same
    exact of_decide_eq_true same
  · rintro rfl
    exact back a

/-! ### Iterators -/

/-- `Iterator::try_for_each` with a closure that updates a value: the items
before the first error stay applied. -/
def tryForEach {ε σ α : Type} (f : σ → α → Except ε σ) : σ → List α → Except ε Unit × σ
  | s, [] => (.ok (), s)
  | s, a :: more =>
    match f s a with
    | .ok next => tryForEach f next more
    | .error e => (.error e, s)

theorem map_ended_eq_ok {ε σ : Type} {ended : Except ε Unit × σ} {final : σ} :
    (ended.1.map fun _ => ended.2) = .ok final ↔ ended = (.ok (), final) := by
  obtain ⟨result, left⟩ := ended
  cases result with
  | error e => simp [Except.map]
  | ok => simp [Except.map]

theorem exists_ended {ε σ : Type} {ended : Except ε Unit × σ} :
    (∃ final, ended = (.ok (), final)) ↔ ended.1 = .ok () := by
  constructor
  · rintro ⟨final, rfl⟩
    rfl
  · intro through
    exact ⟨ended.2, Prod.ext through rfl⟩

theorem tryForEach_preserves {ε σ α : Type} {f : σ → α → Except ε σ} (holds : σ → Prop)
    (each : ∀ {s a next}, holds s → f s a = .ok next → holds next) {s : σ} (items : List α)
    (initial : holds s) : holds (tryForEach f s items).2 := by
  induction items generalizing s with
  | nil => exact initial
  | cons a more ih =>
    unfold tryForEach
    split
    next step => exact ih (each initial step)
    next => exact initial

theorem tryForEach_of_first {ε σ α : Type} {f : σ → α → Except ε σ} (holds : σ → Prop)
    {s final : σ} {items : List α} (ended : tryForEach f s items = (.ok (), final))
    (some : items ≠ []) (first : ∀ {a next}, f s a = .ok next → holds next)
    (each : ∀ {s a next}, holds s → f s a = .ok next → holds next) : holds final := by
  cases items with
  | nil => exact absurd rfl some
  | cons a more =>
    rw [tryForEach] at ended
    cases step : f s a with
    | error e =>
      rw [step] at ended
      cases ended
    | ok next =>
      have left : holds (tryForEach f next more).2 :=
        tryForEach_preserves holds each more (first step)
      simp only [step] at ended
      rw [ended] at left
      exact left

/-- Where an item fails or not by itself, all go through when each of them does. -/
theorem tryForEach_ok_iff {ε σ α : Type} {f : σ → α → Except ε σ} {good : α → Prop}
    (each : ∀ s a, (∃ next, f s a = .ok next) ↔ good a) {s : σ} {items : List α} :
    (tryForEach f s items).1 = .ok () ↔ ∀ a ∈ items, good a := by
  induction items generalizing s with
  | nil => exact iff_of_true rfl fun _ member => absurd member List.not_mem_nil
  | cons a more ih =>
    rw [List.forall_mem_cons, ← each s a, tryForEach]
    cases step : f s a with
    | ok next =>
      rw [and_iff_right ⟨next, rfl⟩]
      exact ih
    | error e => simp

theorem tryForEach_establishes {ε σ α : Type} {f : σ → α → Except ε σ} (holds : α → σ → Prop)
    (makes : ∀ {s a next}, f s a = .ok next → holds a next)
    (keeps : ∀ {s a b next}, holds b s → f s a = .ok next → holds b next) {s : σ} {items : List α}
    (ended : (tryForEach f s items).1 = .ok ()) :
    ∀ a ∈ items, holds a (tryForEach f s items).2 := by
  induction items generalizing s with
  | nil => exact fun _ member => absurd member List.not_mem_nil
  | cons a more ih =>
    unfold tryForEach at ended ⊢
    cases step : f s a with
    | ok next =>
      rw [step] at ended
      rw [List.forall_mem_cons]
      exact ⟨tryForEach_preserves (holds a) keeps more (makes step), ih ended⟩
    | error e =>
      rw [step] at ended
      simp at ended

theorem tryForEach_append {ε σ α : Type} (f : σ → α → Except ε σ) (s : σ) (items more : List α) :
    tryForEach f s (items ++ more) =
      match tryForEach f s items with
      | (.ok (), next) => tryForEach f next more
      | (.error e, left) => (.error e, left) := by
  induction items generalizing s with
  | nil => rfl
  | cons a items ih =>
    rw [List.cons_append, tryForEach, tryForEach]
    cases f s a with
    | ok next => exact ih next
    | error e => rfl

theorem tryForEach_view {ε σ τ α : Type} {f : σ → α → Except ε σ} {g : τ → α → Except ε τ}
    (view : σ → τ) (same : ∀ s a, g (view s) a = (f s a).map view) (s : σ) (items : List α) :
    tryForEach g (view s) items = ((tryForEach f s items).1, view (tryForEach f s items).2) := by
  induction items generalizing s with
  | nil => rfl
  | cons a more ih =>
    rw [tryForEach, tryForEach, same]
    cases f s a with
    | ok next => exact ih next
    | error e => rfl

theorem findM?_eq_ok {ε α : Type} {p : α → Except ε Bool} {q : α → Bool} {items : List α}
    (same : ∀ a ∈ items, p a = .ok (q a)) : items.findM? p = .ok (items.find? q) := by
  induction items with
  | nil => rfl
  | cons a more ih =>
    have rest := ih fun b member => same b (List.mem_cons_of_mem a member)
    rw [List.findM?, same a List.mem_cons_self, List.find?_cons]
    cases q a with
    | true => rfl
    | false => exact rest

theorem find?_of_findM? {ε α : Type} {p : α → Except ε Bool} {q : α → Bool}
    (same : ∀ a, q a = true ↔ p a = .ok true) {items : List α} {found : Option α}
    (ended : items.findM? p = .ok found) : items.find? q = found := by
  induction items with
  | nil => exact Except.ok.inj ended
  | cons a more ih =>
    rw [List.findM?] at ended
    cases passes : p a with
    | error e =>
      rw [passes] at ended
      cases ended
    | ok b =>
      rw [passes] at ended
      cases b with
      | true =>
        rw [List.find?_cons, (same a).mpr passes]
        exact Except.ok.inj ended
      | false =>
        have fails : q a = false := by
          rw [← Bool.not_eq_true, same, passes]
          simp
        rw [List.find?_cons, fails]
        exact ih ended

/-! ### Strings -/

def split (s : String) (separator : Char) : List String :=
  (s.toList.splitOn separator).map String.ofList

def containsAny (s : String) (pattern : List Char) : Bool := s.toList.any (pattern.contains ·)

theorem exists_mem_splitOn {α : Type} [BEq α] [LawfulBEq α] {a separator : α} {items : List α} :
    (∃ piece ∈ items.splitOn separator, a ∈ piece) ↔ a ∈ items ∧ a ≠ separator := by
  induction items with
  | nil => simp
  | cons b more ih =>
    rw [List.splitOn_cons_eq_if_modifyHead]
    split
    next same =>
      obtain rfl := eq_of_beq same
      simp only [List.mem_cons, exists_eq_or_imp, List.not_mem_nil, false_or, ih]
      constructor
      · exact fun found => ⟨.inr found.1, found.2⟩
      · exact fun found => ⟨found.1.resolve_left found.2, found.2⟩
    next differs =>
      have differs : b ≠ separator := fun same => differs (beq_iff_eq.mpr same)
      obtain ⟨first, rest, pieces⟩ :=
        List.exists_cons_of_ne_nil (List.splitOn_ne_nil separator more)
      rw [pieces, List.modifyHead_cons]
      rw [pieces] at ih
      simp only [List.mem_cons, exists_eq_or_imp, or_assoc] at ih ⊢
      rw [ih]
      constructor
      · rintro (rfl | found)
        · exact ⟨.inl rfl, differs⟩
        · exact ⟨.inr found.1, found.2⟩
      · rintro ⟨rfl | found, kept⟩
        · exact .inl rfl
        · exact .inr ⟨found, kept⟩

theorem exists_mem_split {s : String} {separator c : Char} :
    (∃ piece ∈ split s separator, c ∈ piece.toList) ↔ c ∈ s.toList ∧ c ≠ separator := by
  rw [← exists_mem_splitOn, split]
  simp only [List.mem_map, exists_exists_and_eq_and, String.toList_ofList]

theorem split_ne_nil (s : String) (separator : Char) : split s separator ≠ [] := by
  rw [split, Ne, List.map_eq_nil_iff]
  exact List.splitOn_ne_nil separator s.toList

theorem notMem_of_mem_split {s piece : String} {separator : Char}
    (member : piece ∈ split s separator) : separator ∉ piece.toList :=
  fun found => (exists_mem_split.mp ⟨piece, member, found⟩).2 rfl

theorem split_append (x y : String) (separator : Char) :
    split (x ++ String.singleton separator ++ y) separator =
      split x separator ++ split y separator := by
  rw [split, split, split, ← List.map_append, String.toList_append, String.toList_append,
    String.toList_singleton, List.append_assoc, List.singleton_append,
    List.splitOn_append_cons_self]

theorem intercalate_split (s : String) (separator : Char) :
    (String.singleton separator).intercalate (split s separator) = s := by
  apply String.toList_inj.mp
  rw [String.toList_intercalate, String.toList_singleton, split, List.map_map]
  have unchanged : String.toList ∘ String.ofList = id := by
    funext piece
    exact String.toList_ofList
  rw [unchanged, List.map_id, List.intercalate_splitOn]

theorem split_intercalate {pieces : List String} {separator : Char} (some : pieces ≠ [])
    (free : ∀ piece ∈ pieces, separator ∉ piece.toList) :
    split ((String.singleton separator).intercalate pieces) separator = pieces := by
  have texts : ∀ text ∈ pieces.map String.toList, separator ∉ text := by
    intro text member
    obtain ⟨piece, found, rfl⟩ := List.mem_map.mp member
    exact free piece found
  rw [split, String.toList_intercalate, String.toList_singleton,
    List.splitOn_intercalate separator texts (by simpa using some), List.map_map]
  have unchanged : String.ofList ∘ String.toList = id := by
    funext piece
    exact String.ofList_toList
  rw [unchanged, List.map_id]

theorem containsAny_eq_false {s : String} {pattern : List Char} :
    containsAny s pattern = false ↔ ∀ c ∈ pattern, c ∉ s.toList := by
  rw [containsAny, List.any_eq_false]
  constructor
  · intro none c member found
    exact none c found (List.contains_iff_mem.mpr member)
  · intro none c found member
    exact none c (List.contains_iff_mem.mp member) found

/-! ### Strings as UTF-8 bytes -/

def asBytes (s : String) : List UInt8 := s.toByteArray.data.toList

def fromUtf8 (bytes : List UInt8) : Option String := String.fromUTF8? ⟨bytes.toArray⟩

abbrev len (s : String) : Nat := s.utf8ByteSize

/-- Joined at a character of one byte, each piece but one takes one byte more. -/
theorem len_intercalate {separator : Char} (single : separator.utf8Size = 1) {pieces : List String}
    (some : pieces ≠ []) :
    len ((String.singleton separator).intercalate pieces) + 1 =
      pieces.length + (pieces.map len).sum := by
  induction pieces with
  | nil => exact absurd rfl some
  | cons piece more ih =>
    rw [List.map_cons, List.sum_cons, List.length_cons]
    by_cases last : more = []
    · subst last
      rw [String.intercalate_singleton, List.map_nil, List.sum_nil, List.length_nil]
      omega
    · have rest := ih last
      rw [String.intercalate_cons_of_ne_nil last, len, String.utf8ByteSize_append,
        String.utf8ByteSize_append, String.utf8ByteSize_singleton, single]
      simp only [len] at rest ⊢
      omega

@[simp] theorem length_asBytes (s : String) : (asBytes s).length = len s := by
  simp [asBytes, len]

theorem fromUtf8_eq_some {bytes : List UInt8} {s : String} :
    fromUtf8 bytes = some s ↔ asBytes s = bytes := by
  unfold fromUtf8 asBytes String.fromUTF8?
  constructor
  · intro found
    split at found
    next valid => cases found; exact List.toList_toArray
    next => simp at found
  · rintro rfl
    rw [dif_pos (show ByteArray.IsValidUTF8 ⟨s.toByteArray.data.toList.toArray⟩ from s.isValidUTF8)]
    rfl

theorem asBytes_eq (s : String) : asBytes s = s.toList.flatMap String.utf8EncodeChar := by
  rw [asBytes, ← String.utf8Encode_toList, List.utf8Encode, List.toList_data_toByteArray]

theorem or_high {x y : UInt8} (high : 128 ≤ y.toNat) : 128 ≤ (x ||| y).toNat := by
  rw [UInt8.toNat_or]
  exact high.trans Nat.right_le_or

theorem mem_utf8EncodeChar {c : Char} {b : UInt8} (ascii : b.toNat < 128) :
    b ∈ String.utf8EncodeChar c ↔ c.toNat = b.toNat := by
  have others {x y : UInt8} (high : 128 ≤ y.toNat) : b ≠ x ||| y := fun same =>
    absurd (or_high high) (Nat.not_le.mpr (same ▸ ascii))
  have wide (above : ¬ c.val ≤ 0x7f) : c.toNat ≠ b.toNat := by
    rw [UInt32.le_iff_toNat_le, Nat.not_le] at above
    exact Nat.ne_of_gt (Nat.lt_of_lt_of_le ascii above)
  rw [String.utf8EncodeChar_eq_utf8EncodeCharFast, String.utf8EncodeCharFast]
  split
  next small =>
    have code : c.val.toUInt8.toNat = c.toNat := by
      rw [UInt32.le_iff_toNat_le] at small
      rw [UInt32.toNat_toUInt8]
      exact Nat.mod_eq_of_lt (Nat.lt_of_le_of_lt small (by decide))
    rw [List.mem_singleton, ← code]
    constructor
    · rintro rfl
      rfl
    · exact fun same => (UInt8.toNat_inj.mp same).symm
  next above =>
    apply iff_of_false _ (wide above)
    split
    · simp only [List.mem_cons, List.not_mem_nil, or_false, not_or]
      exact ⟨others (by decide), others (by decide)⟩
    · split
      · simp only [List.mem_cons, List.not_mem_nil, or_false, not_or]
        exact ⟨others (by decide), others (by decide), others (by decide)⟩
      · simp only [List.mem_cons, List.not_mem_nil, or_false, not_or]
        exact ⟨others (by decide), others (by decide), others (by decide), others (by decide)⟩

theorem mem_asBytes {s : String} {b : UInt8} (ascii : b.toNat < 128) :
    b ∈ asBytes s ↔ Char.ofNat b.toNat ∈ s.toList := by
  rw [asBytes_eq, List.mem_flatMap]
  constructor
  · rintro ⟨c, member, found⟩
    rw [mem_utf8EncodeChar ascii] at found
    rw [← found, Char.ofNat_toNat]
    exact member
  · intro member
    refine ⟨_, member, (mem_utf8EncodeChar ascii).mpr ?_⟩
    have valid : b.toNat.isValidChar := .inl (by omega)
    rw [Char.ofNat, dif_pos valid]
    rfl

end Rust
