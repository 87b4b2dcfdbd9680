import Cloudmqtt.Base.Parser
import Cloudmqtt.Rust

/-! What the parsers, writers and size computations of the MQTT 5 format share. -/

set_option autoImplicit false

namespace V5

open Base Rust

-- Callers match on the mode alone, so two errors of one mode are the same here.
/-- `winnow::error::ErrMode`. The diagnostic text it carries is read by nothing. -/
inductive ErrMode where
  | incomplete (needed : Nat)
  | backtrack
  | cut
  deriving DecidableEq, Repr

/-- The format's parsers. `Bytes` input is complete unless said otherwise. -/
abbrev MParser (α : Type) : Type := Parser UInt8 ErrMode α

inductive MqttWriteError where
  | invariant
  deriving DecidableEq, Repr

inductive Fault where
  | error (e : MqttWriteError)
  | panic (p : Panic)
  deriving DecidableEq, Repr

/-- Bytes appended to a `WriteMqttPacket`, whose own methods do not fail. -/
abbrev Write (α : Type) : Type := Emit Fault UInt8 α

abbrev WResult : Type := Write Unit

def writeByte (u : UInt8) : WResult := Emit.write [u]

def writeSlice (u : List UInt8) : WResult := Emit.write u

/-! ### Sizes computed in `u32` -/

def Size : Type := Except Panic UInt32

instance {n : Nat} : OfNat Size n := ⟨.ok (.ofNat n)⟩

instance [Build] : Add Size where
  add first second := do
    let a : UInt32 ← first
    let b : UInt32 ← second
    addU32 a b

def Size.panic (p : Panic) : Size := .error p

def Size.value (n : UInt32) : Size := .ok n

def castSize (n : Nat) : Size := .ok (.ofNat n)

theorem castSize_eq_ok {n : Nat} {m : UInt32} : castSize n = .ok m ↔ m = .ofNat n :=
  ⟨fun same => (Except.ok.inj same).symm, fun same => congrArg Except.ok same.symm⟩

theorem Size.add_eq_ok [Build] {first second : Size} {n : UInt32} :
    first + second = .ok n ↔ ∃ a b, first = .ok a ∧ second = .ok b ∧
      (Build.overflowChecks = true → a.toNat + b.toNat < 2 ^ 32) ∧ n = a + b := by
  cases first with
  | error p =>
    refine iff_of_false (fun same => nomatch (same : Except.error p = Except.ok n)) ?_
    rintro ⟨a, b, ⟨⟩, -⟩
  | ok a =>
    cases second with
    | error p =>
      refine iff_of_false (fun same => nomatch (same : Except.error p = Except.ok n)) ?_
      rintro ⟨a, b, -, ⟨⟩, -⟩
    | ok b =>
      refine Iff.trans (addU32_eq_ok (a := a) (b := b)) ⟨fun sum => ⟨a, b, rfl, rfl, sum⟩, ?_⟩
      rintro ⟨_, _, ⟨⟩, ⟨⟩, sum⟩
      exact sum

theorem Size.bind_eq_ok {size : Size} {f : UInt32 → Size} {n : UInt32} :
    size.bind f = .ok n ↔ ∃ a, size = .ok a ∧ f a = .ok n := except_bind_eq_ok

-- A size may also panic or wrap beyond this bound; `Size.Adds` says how.
/-- The size is the number `n` whenever `n` is a length the format can announce. -/
def Size.Announces (size : Size) (n : Nat) : Prop := n ≤ 268435455 → size = .ok (.ofNat n)

theorem Size.announces_cast (n : Nat) : (castSize n).Announces n := fun _ => rfl

theorem Size.announces_literal (n : Nat) : (OfNat.ofNat n : Size).Announces n := fun _ => rfl

theorem Size.Announces.congr {size : Size} {n m : Nat} (announces : size.Announces n)
    (same : n = m) : size.Announces m := same ▸ announces

theorem Size.Announces.add [Build] {first second : Size} {n m : Nat} (left : first.Announces n)
    (right : second.Announces m) : (first + second).Announces (n + m) := by
  intro bound
  have sum : first + second = (do
      let a : UInt32 ← first
      let b : UInt32 ← second
      addU32 a b) := rfl
  rw [sum, left (by omega), right (by omega)]
  exact addU32_ofNat (by omega)

def writeSized (size : Size) (f : UInt32 → WResult) : WResult :=
  match size with
  | .ok n => f n
  | .error p => Emit.fault (.panic p)

theorem writeSized_emits {size : Size} {f : UInt32 → WResult} {bytes : List UInt8} {u : Unit} :
    (writeSized size f).Emits bytes u ↔ ∃ n, size = .ok n ∧ (f n).Emits bytes u := by
  cases size with
  | ok n =>
    constructor
    · exact fun emits => ⟨n, rfl, emits⟩
    · rintro ⟨_, same, emits⟩
      cases same
      exact emits
  | error p =>
    constructor
    · exact fun emits => absurd emits Emit.fault_emits
    · rintro ⟨_, same, -⟩
      cases same

/-! ### Formats written and read without loss -/

/-- The parser, the size and the writer of one format agree: what is written is
read back as the same value whatever follows, the announced size is the written
one, and a value that was read can be written again in no more bytes. -/
structure Exact {α : Type} (parse : MParser α) (binarySize : α → Size) (write : α → WResult) :
    Prop where
  isLocal : parse.Local
  shrinks : parse.Shrinks
  reads {a : α} {bytes : List UInt8} : (write a).Emits bytes () → parse.Reads bytes a
  size {a : α} {bytes : List UInt8} :
    (write a).Emits bytes () → (binarySize a).Announces bytes.length
  rewrites {input rest : List UInt8} {a : α} : parse input = .ok (a, rest) →
    ∃ bytes, (write a).Emits bytes () ∧ bytes.length + rest.length ≤ input.length

/-- A format whose reader accepts only what its writer emits. -/
theorem Exact.of_canonical {α : Type} {parse : MParser α} {binarySize : α → Size}
    {write : α → WResult} (shrinks : parse.Shrinks)
    (reads : ∀ {a : α} {bytes : List UInt8}, (write a).Emits bytes () → parse.Reads bytes a)
    (size : ∀ {a : α} {bytes : List UInt8},
      (write a).Emits bytes () → (binarySize a).Announces bytes.length)
    (canonical : ∀ {input rest : List UInt8} {a : α}, parse input = .ok (a, rest) →
      ∃ bytes, (write a).Emits bytes () ∧ input = bytes ++ rest) :
    Exact parse binarySize write where
  isLocal := by
    intro input a rest run
    obtain ⟨bytes, emits, rfl⟩ := canonical run
    exact ⟨bytes, rfl, reads emits⟩
  shrinks := shrinks
  reads := reads
  size := size
  rewrites := by
    intro input rest a run
    obtain ⟨bytes, emits, rfl⟩ := canonical run
    exact ⟨bytes, emits, by simp⟩

end V5
