import Cloudmqtt.Base.Canonical
import Cloudmqtt.V5.Integers

/-! The combinators of nom that the MQTT 3.1.1 format uses, on complete input. -/

set_option autoImplicit false

namespace V3

open Base Rust

open V5 (beValue u16Bytes)

inductive ErrorKind where
  | eof
  | mapRes
  | many1Count
  deriving DecidableEq, Repr

/-- `nom::error::Error`. Of an external error it keeps the kind only. -/
structure Error where
  input : List UInt8
  code : ErrorKind
  deriving DecidableEq

/-- `nom::Err`; a parser that repeats another one ends at an `error` of it. -/
inductive Err where
  | incomplete
  | error (e : Error)
  | failure (e : Error)
  deriving DecidableEq

/-- How a parser stops: with an error it returns, unwinding, or not at all. -/
inductive Fault where
  | err (e : Err)
  | panic (p : Panic)
  | endless
  deriving DecidableEq

abbrev MParser (α : Type) : Type := Parser UInt8 Fault α

def refusal (code : ErrorKind) (input : List UInt8) : Fault := .err (.error ⟨input, code⟩)

def refuse {α : Type} : MParser α := fun input => .error (refusal .mapRes input)

def unread : MParser (List UInt8) := fun input => .ok (input, input)

def ensure (holds : Bool) : MParser Unit := if holds then pure () else refuse

def whenFlag {α : Type} (flag : Bool) (p : MParser α) : MParser (Option α) :=
  if flag then some <$> p else pure none

def u8 : MParser UInt8
  | [] => .error (refusal .eof [])
  | b :: rest => .ok (b, rest)

def take (n : Nat) : MParser (List UInt8) := fun input =>
  Parser.take n (refusal .eof input) input

def beU16 : MParser UInt16 := (fun bytes => .ofNat (beValue bytes)) <$> take 2

/-- `nom::bits::bits` over fields that fill one byte. -/
def bits {α : Type} (fields : UInt8 → α) : MParser α := fields <$> u8

/-- `map_res`; its error stands where the parser began. -/
def mapRes {α β : Type} (p : MParser α) (convert : α → Option β) : MParser β := fun input =>
  Parser.tryMap p convert (refusal .mapRes input) input

/-- `Parser::and_then`. What the inner parser leaves is dropped. -/
def andThen {α : Type} (p : MParser (List UInt8)) (inner : MParser α) : MParser α := do
  let data ← p
  Parser.lift ((inner data).map Prod.fst)

def takeWhileUpTo (limit : Nat) (test : UInt8 → Bool) : MParser (List UInt8) := fun input =>
  let front := (input.take limit).takeWhile test
  .ok (front, input.drop front.length)

def recoverable : Fault → Bool
  | .err (.error _) => true
  | _ => false

def orRefuse {α : Type} (x : Option α) : MParser α :=
  match x with
  | some a => pure a
  | none => refuse

def many1Count {α : Type} (p : MParser α) : MParser Nat := fun input =>
  match p input with
  | .error e => .error (if recoverable e then refusal .many1Count input else e)
  | .ok (_, rest) =>
    Parser.countItems p recoverable (refusal .many1Count) .endless (rest.length + 1) 1 rest

def liftPanic {α : Type} (x : Except Panic α) : MParser α := Parser.lift (x.mapError .panic)

/-! ### What they read -/

theorem ensure_eq_ok {holds : Bool} {input rest : List UInt8} {u : Unit} :
    ensure holds input = .ok (u, rest) ↔ holds = true ∧ input = rest := by
  cases holds with
  | true => simp [ensure, Parser.pure_apply]
  | false => simp [ensure, refuse]

theorem orRefuse_eq_ok {α : Type} {x : Option α} {input rest : List UInt8} {a : α} :
    orRefuse x input = .ok (a, rest) ↔ x = some a ∧ input = rest := by
  cases x with
  | some b => simp [orRefuse, Parser.pure_apply]
  | none => simp [orRefuse, refuse]

theorem u8_eq_ok {input rest : List UInt8} {b : UInt8} :
    u8 input = .ok (b, rest) ↔ input = b :: rest := by
  cases input <;> simp [u8]

theorem take_eq_ok {n : Nat} {input rest bytes : List UInt8} :
    take n input = .ok (bytes, rest) ↔ input = bytes ++ rest ∧ bytes.length = n :=
  Parser.take_eq_ok

theorem beU16_eq_ok {input rest : List UInt8} {u : UInt16} :
    beU16 input = .ok (u, rest) ↔ input = u16Bytes u ++ rest := by
  simp only [beU16, Parser.map_eq_ok, take_eq_ok]
  constructor
  · rintro ⟨bytes, ⟨rfl, width⟩, rfl⟩
    rw [V5.u16Bytes_beValue width]
  · rintro rfl
    exact ⟨u16Bytes u, ⟨rfl, rfl⟩, V5.beValue_u16Bytes u⟩

theorem bits_eq_ok {α : Type} {fields : UInt8 → α} {input rest : List UInt8} {a : α} :
    bits fields input = .ok (a, rest) ↔ ∃ b, input = b :: rest ∧ fields b = a := by
  simp only [bits, Parser.map_eq_ok, u8_eq_ok]

theorem mapRes_eq_ok {α β : Type} {p : MParser α} {convert : α → Option β}
    {input rest : List UInt8} {b : β} :
    mapRes p convert input = .ok (b, rest) ↔ ∃ a, p input = .ok (a, rest) ∧ convert a = some b :=
  Parser.tryMap_eq_ok

theorem andThen_eq_ok {α : Type} {p : MParser (List UInt8)} {inner : MParser α}
    {input rest : List UInt8} {a : α} :
    andThen p inner input = .ok (a, rest) ↔
      ∃ data left, p input = .ok (data, rest) ∧ inner data = .ok (a, left) := by
  simp only [andThen, Parser.bind_eq_ok, Parser.lift_eq_ok, except_map_eq_ok]
  constructor
  · rintro ⟨data, middle, read, ⟨⟨a, left⟩, run, rfl⟩, rfl⟩
    exact ⟨data, left, read, run⟩
  · rintro ⟨data, left, read, run⟩
    exact ⟨data, rest, read, ⟨(a, left), run, rfl⟩, rfl⟩

theorem liftPanic_eq_ok {α : Type} {x : Except Panic α} {input rest : List UInt8} {a : α} :
    liftPanic x input = .ok (a, rest) ↔ x = .ok a ∧ input = rest := by
  rw [liftPanic, Parser.lift_eq_ok]
  cases x <;> simp [Except.mapError]

theorem many1Count_eq_ok {α : Type} {p : MParser α} {input left : List UInt8} {n : Nat}
    (run : many1Count p input = .ok (n, left)) :
    ∃ items, p.Greedy recoverable input items left ∧ items ≠ [] ∧ n = items.length := by
  rw [many1Count] at run
  split at run
  next => simp at run
  next a rest read =>
    obtain ⟨items, greedy, rfl⟩ := Parser.Greedy.of_countItems run
    refine ⟨a :: items, .item read greedy, by simp, ?_⟩
    rw [List.length_cons]
    omega

/-! ### Errors -/

/-- The parser stops with an error that it returns, if it stops. -/
def QuietAt {α : Type} (p : MParser α) (input : List UInt8) : Prop :=
  ∀ e, p input = .error e → ∃ err, e = .err err

def Quiet {α : Type} (p : MParser α) : Prop := ∀ input, QuietAt p input

theorem QuietAt.bind {α β : Type} {p : MParser α} {f : α → MParser β} {input : List UInt8}
    (first : QuietAt p input)
    (next : ∀ a rest, p input = .ok (a, rest) → QuietAt (f a) rest) :
    QuietAt (p >>= f) input := by
  intro e run
  rw [Parser.bind_apply] at run
  split at run
  next a rest read => exact next a rest read e run
  next e' failed =>
    obtain rfl := Except.error.inj run
    exact first _ failed

theorem quietAt_liftPanic {α : Type} {x : Except Panic α} {a : α} (value : x = .ok a)
    (input : List UInt8) : QuietAt (liftPanic x) input := by
  intro e run
  rw [value] at run
  cases run

namespace Quiet

variable {α β : Type}

theorem pure (a : α) : Quiet (Pure.pure a) := by
  intro input e run
  cases run

theorem refuse : Quiet (V3.refuse : MParser α) := by
  intro input e run
  exact ⟨_, (Except.error.inj run).symm⟩

theorem bind {p : MParser α} {f : α → MParser β} (first : Quiet p)
    (next : ∀ a, Quiet (f a)) : Quiet (p >>= f) :=
  fun input => (first input).bind fun a rest _ => next a rest

theorem map {p : MParser α} (f : α → β) (first : Quiet p) : Quiet (f <$> p) :=
  first.bind fun a => .pure (f a)

theorem unread : Quiet V3.unread := by
  intro input e run
  cases run

theorem ensure (holds : Bool) : Quiet (V3.ensure holds) := by
  cases holds with
  | true => exact pure ()
  | false => exact refuse

theorem whenFlag (flag : Bool) {p : MParser α} (quiet : Quiet p) :
    Quiet (V3.whenFlag flag p) := by
  cases flag with
  | true => exact quiet.map some
  | false => exact pure none

theorem takeWhileUpTo (limit : Nat) (test : UInt8 → Bool) :
    Quiet (V3.takeWhileUpTo limit test) := by
  intro input e run
  cases run

theorem orRefuse (x : Option α) : Quiet (V3.orRefuse x) := by
  cases x with
  | some a => exact pure a
  | none => exact refuse

theorem u8 : Quiet V3.u8 := by
  intro input e run
  cases input with
  | nil => exact ⟨_, (Except.error.inj run).symm⟩
  | cons b rest => cases run

theorem take (n : Nat) : Quiet (V3.take n) := by
  intro input e run
  unfold V3.take Parser.take at run
  split at run
  next => cases run
  next => exact ⟨_, (Except.error.inj run).symm⟩

theorem beU16 : Quiet V3.beU16 := (take 2).map _

theorem bits (fields : UInt8 → α) : Quiet (V3.bits fields) := u8.map fields

theorem mapRes {p : MParser α} (first : Quiet p) (convert : α → Option β) :
    Quiet (V3.mapRes p convert) := by
  intro input e run
  unfold V3.mapRes Parser.tryMap at run
  split at run
  next a rest _ =>
    split at run
    next => cases run
    next => exact ⟨_, (Except.error.inj run).symm⟩
  next e' failed =>
    obtain rfl := Except.error.inj run
    exact first input _ failed

theorem recognize {p : MParser α} (first : Quiet p) : Quiet (Parser.recognize p) := by
  intro input e run
  unfold Parser.recognize at run
  split at run
  next => cases run
  next e' failed =>
    obtain rfl := Except.error.inj run
    exact first input _ failed

theorem andThen {p : MParser (List UInt8)} {inner : MParser α} (first : Quiet p)
    (next : Quiet inner) : Quiet (V3.andThen p inner) := by
  apply first.bind
  intro data input e run
  unfold Parser.lift at run
  cases inside : inner data with
  | ok pair => simp [inside, Except.map] at run
  | error e' =>
    simp only [inside, Except.map, Except.error.injEq] at run
    obtain rfl := run
    exact next data _ inside

theorem many1Count {p : MParser α} (first : Quiet p) (shrinks : p.Shrinks) :
    Quiet (V3.many1Count p) := by
  intro input e run
  rw [V3.many1Count] at run
  split at run
  next e' failed =>
    obtain ⟨err, rfl⟩ := first _ _ failed
    split at run
    next => exact ⟨_, (Except.error.inj run).symm⟩
    next => exact ⟨_, (Except.error.inj run).symm⟩
  next a rest _ =>
    obtain ⟨input', failed, -⟩ := Parser.countItems_error shrinks (Nat.lt_succ_self _) run
    exact first _ _ failed

end Quiet

end V3
