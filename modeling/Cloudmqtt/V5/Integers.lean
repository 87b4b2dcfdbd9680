import Cloudmqtt.V5.Basic
import Mathlib.Data.List.TakeWhile
import Mathlib.Tactic.IntervalCases
import Mathlib.Tactic.Ring

/-! Integers of the MQTT 5 format. All of them are big-endian but the variable-length one. -/

set_option autoImplicit false

namespace V5

open Base Rust

/-! ### Fixed-width integers -/

/-- `winnow::binary::u8`; a partial input that has run out asks for more. -/
def u8With (isPartial : Bool) : MParser UInt8
  | [] => .error (if isPartial then .incomplete 1 else .backtrack)
  | b :: rest => .ok (b, rest)

abbrev u8 : MParser UInt8 := u8With false

def beValue (bytes : List UInt8) : Nat := bytes.foldl (fun acc b => acc * 256 + b.toNat) 0

def parseU16 : MParser UInt16 := (fun bytes => .ofNat (beValue bytes)) <$> Parser.take 2 .backtrack

def writeU16 (u : UInt16) : WResult := do
  writeByte (u >>> 8).toUInt8
  writeByte u.toUInt8

def parseU16Nonzero : MParser NonZeroU16 := Parser.tryMap parseU16 NonZeroU16.new .backtrack

def writeU16Nonzero (u : NonZeroU16) : WResult := writeU16 u.get

def parseU32 : MParser UInt32 := (fun bytes => .ofNat (beValue bytes)) <$> Parser.take 4 .backtrack

def writeU32 (u : UInt32) : WResult := do
  writeByte (u >>> 24).toUInt8
  writeByte (u >>> 16).toUInt8
  writeByte (u >>> 8).toUInt8
  writeByte u.toUInt8

theorem u8_reads (b : UInt8) : u8.Reads [b] b := fun _ => rfl

theorem u8_eq_ok {input rest : List UInt8} {b : UInt8} :
    u8 input = .ok (b, rest) ↔ input = b :: rest := by
  cases input <;> simp [u8, u8With]

theorem writeByte_emits {u : UInt8} {bytes : List UInt8} {v : Unit} :
    (writeByte u).Emits bytes v ↔ bytes = [u] := Emit.write_emits

theorem writeSlice_emits {slice bytes : List UInt8} {v : Unit} :
    (writeSlice slice).Emits bytes v ↔ bytes = slice := Emit.write_emits

theorem u8_shrinks : u8.Shrinks := by
  intro input a rest run
  simp [u8_eq_ok.mp run]

theorem u8_exact : Exact u8 (fun _ => 1) writeByte :=
  .of_canonical u8_shrinks
    (fun emits => writeByte_emits.mp emits ▸ u8_reads _)
    (fun emits => writeByte_emits.mp emits ▸ Size.announces_literal 1)
    (fun run => ⟨_, writeByte_emits.mpr rfl, u8_eq_ok.mp run⟩)

def u16Bytes (u : UInt16) : List UInt8 := [(u >>> 8).toUInt8, u.toUInt8]

theorem beValue_u16Bytes (u : UInt16) : UInt16.ofNat (beValue (u16Bytes u)) = u := by
  apply UInt16.toNat_inj.mp
  have bound := u.toNat_lt
  simp [u16Bytes, beValue, Nat.shiftRight_eq_div_pow]
  omega

theorem u16Bytes_beValue {bytes : List UInt8} (width : bytes.length = 2) :
    u16Bytes (.ofNat (beValue bytes)) = bytes := by
  match bytes, width with
  | [a, b], _ =>
    have ha := a.toNat_lt
    have hb := b.toNat_lt
    simp only [u16Bytes, beValue, List.foldl, List.cons.injEq, and_true, ← UInt8.toNat_inj]
    simp [Nat.shiftRight_eq_div_pow]
    omega

def dataWidth (bytes : List UInt8) : Nat := 2 + beValue (bytes.take 2)

def widthIf (flag : Bool) (width : List UInt8 → Nat) (bytes : List UInt8) : Nat :=
  if flag then width bytes else 0

theorem beValue_prefix {n : Nat} (short : n ≤ 65535) : beValue (u16Bytes (.ofNat n)) = n := by
  have small : (UInt16.ofNat n).toNat = n := by
    rw [UInt16.toNat_ofNat']
    omega
  have bound := (UInt16.ofNat n).toNat_lt
  simp [u16Bytes, beValue, Nat.shiftRight_eq_div_pow]
  omega

theorem dataWidth_append {data : List UInt8} (short : data.length ≤ 65535) (rest : List UInt8) :
    dataWidth (u16Bytes (.ofNat data.length) ++ data ++ rest) = 2 + data.length := by
  have front : (u16Bytes (.ofNat data.length) ++ data ++ rest).take 2 =
      u16Bytes (.ofNat data.length) := by
    simp [u16Bytes]
  rw [dataWidth, front, beValue_prefix short]

theorem writeU16_emits {u : UInt16} {bytes : List UInt8} {v : Unit} :
    (writeU16 u).Emits bytes v ↔ bytes = u16Bytes u := by
  simp [writeU16, Emit.seq_emits, writeByte_emits, u16Bytes]

theorem parseU16_eq_ok {input rest : List UInt8} {u : UInt16} :
    parseU16 input = .ok (u, rest) ↔ input = u16Bytes u ++ rest := by
  simp only [parseU16, Parser.map_eq_ok, Parser.take_eq_ok]
  constructor
  · rintro ⟨bytes, ⟨rfl, width⟩, rfl⟩
    rw [u16Bytes_beValue width]
  · rintro rfl
    exact ⟨u16Bytes u, ⟨rfl, rfl⟩, beValue_u16Bytes u⟩

theorem parseU16_exact : Exact parseU16 (fun _ => 2) writeU16 :=
  .of_canonical ((Parser.Shrinks.take (by decide) _).map _)
    (fun emits _ => writeU16_emits.mp emits ▸ parseU16_eq_ok.mpr rfl)
    (fun emits => writeU16_emits.mp emits ▸ Size.announces_literal 2)
    (fun run => ⟨_, writeU16_emits.mpr rfl, parseU16_eq_ok.mp run⟩)

theorem parseU16Nonzero_eq_ok {input rest : List UInt8} {u : NonZeroU16} :
    parseU16Nonzero input = .ok (u, rest) ↔ input = u16Bytes u.get ++ rest := by
  simp [parseU16Nonzero, Parser.tryMap_eq_ok, parseU16_eq_ok, NonZeroU16.new_eq_some]

theorem parseU16Nonzero_exact : Exact parseU16Nonzero (fun _ => 2) writeU16Nonzero :=
  .of_canonical (parseU16_exact.shrinks.tryMap _ _)
    (fun emits _ => writeU16_emits.mp emits ▸ parseU16Nonzero_eq_ok.mpr rfl)
    (fun emits => writeU16_emits.mp emits ▸ Size.announces_literal 2)
    (fun run => ⟨_, writeU16_emits.mpr rfl, parseU16Nonzero_eq_ok.mp run⟩)

def u32Bytes (u : UInt32) : List UInt8 :=
  [(u >>> 24).toUInt8, (u >>> 16).toUInt8, (u >>> 8).toUInt8, u.toUInt8]

theorem beValue_u32Bytes (u : UInt32) : UInt32.ofNat (beValue (u32Bytes u)) = u := by
  apply UInt32.toNat_inj.mp
  have bound := u.toNat_lt
  simp [u32Bytes, beValue, Nat.shiftRight_eq_div_pow]
  omega

theorem u32Bytes_beValue {bytes : List UInt8} (width : bytes.length = 4) :
    u32Bytes (.ofNat (beValue bytes)) = bytes := by
  match bytes, width with
  | [a, b, c, d], _ =>
    have ha := a.toNat_lt
    have hb := b.toNat_lt
    have hc := c.toNat_lt
    have hd := d.toNat_lt
    simp only [u32Bytes, beValue, List.foldl, List.cons.injEq, and_true, ← UInt8.toNat_inj]
    simp [Nat.shiftRight_eq_div_pow]
    omega

theorem writeU32_emits {u : UInt32} {bytes : List UInt8} {v : Unit} :
    (writeU32 u).Emits bytes v ↔ bytes = u32Bytes u := by
  simp [writeU32, Emit.seq_emits, writeByte_emits, u32Bytes]

theorem parseU32_eq_ok {input rest : List UInt8} {u : UInt32} :
    parseU32 input = .ok (u, rest) ↔ input = u32Bytes u ++ rest := by
  simp only [parseU32, Parser.map_eq_ok, Parser.take_eq_ok]
  constructor
  · rintro ⟨bytes, ⟨rfl, width⟩, rfl⟩
    rw [u32Bytes_beValue width]
  · rintro rfl
    exact ⟨u32Bytes u, ⟨rfl, rfl⟩, beValue_u32Bytes u⟩

theorem parseU32_exact : Exact parseU32 (fun _ => 4) writeU32 :=
  .of_canonical ((Parser.Shrinks.take (by decide) _).map _)
    (fun emits _ => writeU32_emits.mp emits ▸ parseU32_eq_ok.mpr rfl)
    (fun emits => writeU32_emits.mp emits ▸ Size.announces_literal 4)
    (fun run => ⟨_, writeU32_emits.mpr rfl, parseU32_eq_ok.mp run⟩)

/-! ### Variable-length integers -/

def continues (b : UInt8) : Bool := b &&& 0b1000_0000 != 0

/-- `take_while(0..=limit, test)`: a partial input that passes to its end asks
for more, unless the limit is met. -/
def takeWhileUpTo (isPartial : Bool) (limit : Nat) (test : UInt8 → Bool) : MParser (List UInt8) :=
  fun input =>
    let front := (input.take limit).takeWhile test
    if isPartial && decide (front.length < limit) && decide (front.length = input.length) then
      .error (.incomplete 1)
    else .ok (front, input.drop front.length)

def variableU32Value (bytes : List UInt8) : UInt32 :=
  bytes.zipIdx.foldl
    (fun output (val, exp) => output + (val.toUInt32 &&& 0b0111_1111) * 128 ^ exp) 0

def parseVariableU32With (isPartial : Bool) : MParser UInt32 := do
  let front ← takeWhileUpTo isPartial 3 continues
  let last ← Parser.verify (u8With isPartial) (fun b => !continues b) .backtrack
  pure (variableU32Value (front ++ [last]))

abbrev parseVariableU32 : MParser UInt32 := parseVariableU32With false

def variableIntegerMax : UInt32 := 268_435_455

-- The size unwinds where the writer below returns an error.
def variableU32BinarySize (u : UInt32) : Size :=
  if u ≤ 127 then 1
  else if u ≤ 16383 then 2
  else if u ≤ 2_097_151 then 3
  else if u ≤ 268_435_455 then 4
  else Size.panic .unreachable

def writeVariableU32 (u : UInt32) : WResult :=
  if u ≤ 127 then writeByte u.toUInt8
  else if u ≤ 16383 then do
    let first := (u % 128) ||| 0b1000_0000
    let second := u / 128
    writeByte first.toUInt8
    writeByte second.toUInt8
  else if u ≤ 2_097_151 then do
    let first := (u % 128) ||| 0b1000_0000
    let second := ((u / 128) % 128) ||| 0b1000_0000
    let third := u / (128 * 128)
    writeByte first.toUInt8
    writeByte second.toUInt8
    writeByte third.toUInt8
  else if u ≤ 268_435_455 then do
    let first := (u % 128) ||| 0b1000_0000
    let second := ((u / 128) % 128) ||| 0b1000_0000
    let third := ((u / (128 * 128)) % 128) ||| 0b1000_0000
    let fourth := u / (128 * 128 * 128)
    writeByte first.toUInt8
    writeByte second.toUInt8
    writeByte third.toUInt8
    writeByte fourth.toUInt8
  else Emit.fault (.error .invariant)

theorem continues_eq (b : UInt8) : continues b = decide (128 ≤ b.toNat) := by
  obtain ⟨⟨b⟩⟩ := b
  revert b
  decide +kernel

/-- The bytes of one variable-length integer: up to three that continue, one that does not. -/
structure VariableBytes (bytes : List UInt8) : Prop where
  split : ∃ front last, bytes = front ++ [last] ∧ front.length ≤ 3 ∧
    (∀ b ∈ front, continues b = true) ∧ continues last = false

theorem takeWhile_front {front : List UInt8} {last : UInt8} {rest : List UInt8} {n : Nat}
    (short : front.length ≤ n) (go : ∀ b ∈ front, continues b = true)
    (stop : continues last = false) :
    ((front ++ last :: rest).take n).takeWhile continues = front := by
  rw [List.take_append, List.take_of_length_le short, List.takeWhile_append_of_pos go]
  cases n - front.length with
  | zero => simp
  | succ k => simp [stop]

/-- In either mode a variable-length integer is read exactly off its bytes. -/
theorem parseVariableU32With_eq_ok {isPartial : Bool} {input rest : List UInt8} {v : UInt32} :
    parseVariableU32With isPartial input = .ok (v, rest) ↔
      ∃ bytes, VariableBytes bytes ∧ input = bytes ++ rest ∧ v = variableU32Value bytes := by
  simp only [parseVariableU32With, Parser.bind_eq_ok, Parser.verify_eq_ok, Parser.pure_apply,
    Except.ok.injEq, Prod.mk.injEq, Bool.not_eq_true']
  constructor
  · rintro ⟨front, middle, run, last, tail, ⟨byte, stop⟩, rfl, rfl⟩
    simp only [takeWhileUpTo] at run
    split at run
    next => simp at run
    next =>
      obtain ⟨rfl, rfl⟩ := Prod.mk.inj (Except.ok.inj run)
      obtain ⟨more, drop⟩ : ∃ more, input.drop ((input.take 3).takeWhile continues).length =
          last :: more ∧ more = tail := by
        cases left : input.drop ((input.take 3).takeWhile continues).length with
        | nil => simp [left, u8With] at byte
        | cons b more =>
          rw [left] at byte
          obtain ⟨rfl, rfl⟩ := Prod.mk.inj (Except.ok.inj byte)
          exact ⟨more, rfl, rfl⟩
      obtain ⟨drop, rfl⟩ := drop
      refine ⟨_, ⟨_, last, rfl, ?_, ?_, stop⟩, ?_, rfl⟩
      · exact (List.takeWhile_prefix _).length_le.trans (by simp)
      · intro b member
        exact List.mem_takeWhile_imp member
      · have isPrefix : (input.take 3).takeWhile continues <+: input :=
          (List.takeWhile_prefix _).trans (List.take_prefix _ _)
        have cut := List.prefix_iff_eq_append.mp isPrefix
        rw [drop] at cut
        rw [List.append_assoc]
        exact cut.symm
  · rintro ⟨bytes, ⟨front, last, rfl, short, go, stop⟩, rfl, rfl⟩
    refine ⟨front, last :: rest, ?_, last, rest, ⟨rfl, stop⟩, rfl, rfl⟩
    rw [List.append_assoc, List.singleton_append]
    simp only [takeWhileUpTo, takeWhile_front short go stop]
    simp

theorem parseVariableU32With_eq_error {input : List UInt8} {e : ErrMode}
    (run : parseVariableU32With true input = .error e) :
    e = .incomplete 1 ∨ e = .backtrack ∧
      ∀ more, parseVariableU32With true (input ++ more) = .error .backtrack := by
  simp only [parseVariableU32With, Parser.bind_apply, Parser.pure_apply, takeWhileUpTo,
    Parser.verify, u8With] at run ⊢
  match input with
  | [] => simp_all
  | [a] => cases first : continues a <;> simp_all
  | [a, b] => cases first : continues a <;> cases second : continues b <;> simp_all
  | [a, b, c] =>
    cases first : continues a <;> cases second : continues b <;> cases third : continues c <;>
      simp_all
  | a :: b :: c :: d :: rest =>
    cases first : continues a <;> cases second : continues b <;> cases third : continues c <;>
      cases fourth : continues d <;> simp_all

theorem parseVariableU32_reads {bytes : List UInt8} (shape : VariableBytes bytes) :
    parseVariableU32.Reads bytes (variableU32Value bytes) :=
  fun _ => parseVariableU32With_eq_ok.mpr ⟨bytes, shape, rfl, rfl⟩

theorem parseVariableU32_local : parseVariableU32.Local := by
  intro input v rest run
  obtain ⟨bytes, shape, rfl, rfl⟩ := parseVariableU32With_eq_ok.mp run
  exact ⟨bytes, rfl, parseVariableU32_reads shape⟩

theorem VariableBytes.length {bytes : List UInt8} (shape : VariableBytes bytes) :
    1 ≤ bytes.length ∧ bytes.length ≤ 4 := by
  obtain ⟨front, last, rfl, short, -, -⟩ := shape
  simp
  omega

theorem parseVariableU32_shrinks : parseVariableU32.Shrinks := by
  intro input v rest run
  obtain ⟨bytes, shape, rfl, -⟩ := parseVariableU32With_eq_ok.mp run
  have := shape.length
  simp only [List.length_append]
  omega

theorem toNat_low7 (b : UInt8) : (b.toUInt32 &&& 0b0111_1111).toNat = b.toNat % 128 := by
  obtain ⟨⟨b⟩⟩ := b
  revert b
  decide +kernel

theorem toNat_high7 (n : UInt32) :
    ((n % 128) ||| 0b1000_0000).toUInt8.toNat = n.toNat % 128 + 128 := by
  have small : n.toNat % 128 < 2 ^ 7 := Nat.mod_lt _ (by decide)
  have sum := Nat.two_pow_add_eq_or_of_lt small 1
  simp only [Nat.mul_one, Nat.reducePow] at sum
  simp only [UInt32.toNat_toUInt8, UInt32.toNat_or, UInt32.toNat_mod, UInt32.reduceToNat,
    Nat.or_comm _ 128, ← sum]
  omega

def digitsValue : List UInt8 → Nat
  | [] => 0
  | b :: rest => b.toNat % 128 + 128 * digitsValue rest

theorem digitsValue_lt (bytes : List UInt8) : digitsValue bytes < 128 ^ bytes.length := by
  induction bytes with
  | nil => simp [digitsValue]
  | cons b rest ih =>
    have digit : b.toNat % 128 < 128 := Nat.mod_lt _ (by decide)
    simp only [digitsValue, List.length_cons, Nat.pow_succ]
    omega

theorem toNat_pow128 {exp : Nat} (small : exp ≤ 3) : (128 ^ exp : UInt32).toNat = 128 ^ exp := by
  interval_cases exp <;> rfl

/-- One more byte, without overflow: the output so far stays below its next digit. -/
theorem toNat_addDigit {output : UInt32} {b : UInt8} {exp : Nat} (small : exp ≤ 3)
    (bound : output.toNat < 128 ^ exp) :
    (output + (b.toUInt32 &&& 0b0111_1111) * 128 ^ exp).toNat =
        output.toNat + b.toNat % 128 * 128 ^ exp ∧
      output.toNat + b.toNat % 128 * 128 ^ exp < 128 ^ (exp + 1) := by
  have digit : b.toNat % 128 ≤ 127 := by omega
  have term : b.toNat % 128 * 128 ^ exp ≤ 127 * 128 ^ exp := Nat.mul_le_mul_right _ digit
  have power : 128 ^ exp ≤ 128 ^ 3 := Nat.pow_le_pow_right (by decide) small
  rw [UInt32.toNat_add, UInt32.toNat_mul, toNat_low7, toNat_pow128 small, Nat.pow_succ]
  constructor
  · rw [Nat.mod_eq_of_lt (a := b.toNat % 128 * 128 ^ exp) (by omega), Nat.mod_eq_of_lt (by omega)]
  · omega

theorem toNat_foldDigits {bytes : List UInt8} {exp : Nat} {output : UInt32}
    (short : exp + bytes.length ≤ 4) (bound : output.toNat < 128 ^ exp) :
    ((bytes.zipIdx exp).foldl
        (fun output (val, exp) => output + (val.toUInt32 &&& 0b0111_1111) * 128 ^ exp) output).toNat =
      output.toNat + 128 ^ exp * digitsValue bytes := by
  induction bytes generalizing exp output with
  | nil => simp [digitsValue]
  | cons b rest ih =>
    simp only [List.length_cons] at short
    obtain ⟨sum, next⟩ := toNat_addDigit (b := b) (show exp ≤ 3 by omega) bound
    rw [List.zipIdx_cons, List.foldl_cons, ih (by omega) (by rwa [sum]), sum, digitsValue,
      Nat.pow_succ]
    ring

theorem toNat_variableU32Value {bytes : List UInt8} (short : bytes.length ≤ 4) :
    (variableU32Value bytes).toNat = digitsValue bytes := by
  rw [variableU32Value, toNat_foldDigits (by omega) (by decide)]
  simp

/-! ### The sum of the digits, checked -/

/-- `output += (*val as u32 & 0b0111_1111) * 128u32.pow(exp as u32)`. -/
def addDigit [Build] (output : UInt32) (val : UInt8) (exp : Nat) : Except Panic UInt32 := do
  let weight ← powU32 128 exp
  let digit ← mulU32 (val.toUInt32 &&& 0b0111_1111) weight
  addU32 output digit

/-- The loop of `parse_variable_u32`, in arithmetic that may overflow. -/
def addDigits [Build] (bytes : List UInt8) : Except Panic UInt32 :=
  bytes.zipIdx.foldlM (fun output (val, exp) => addDigit output val exp) 0

theorem addDigit_ok [Build] {output : UInt32} {b : UInt8} {exp : Nat} (small : exp ≤ 3)
    (bound : output.toNat < 128 ^ exp) :
    addDigit output b exp = .ok (output + (b.toUInt32 &&& 0b0111_1111) * 128 ^ exp) := by
  have power : 128 ^ exp ≤ 128 ^ 3 := Nat.pow_le_pow_right (by decide) small
  have most : 128 ^ (exp + 1) ≤ 128 ^ 4 := Nat.pow_le_pow_right (by decide) (by omega)
  obtain ⟨-, next⟩ := toNat_addDigit (b := b) small bound
  have product : (b.toUInt32 &&& 0b0111_1111).toNat * (128 ^ exp : UInt32).toNat =
      b.toNat % 128 * 128 ^ exp := by
    rw [toNat_low7, toNat_pow128 small]
  have weight : powU32 128 exp = .ok (128 ^ exp) := by
    apply powU32_ok
    change 128 ^ exp < 2 ^ 32
    omega
  have digit : mulU32 (b.toUInt32 &&& 0b0111_1111) (128 ^ exp) =
      .ok ((b.toUInt32 &&& 0b0111_1111) * 128 ^ exp) := by
    apply mulU32_ok
    rw [product]
    omega
  have added : addU32 output ((b.toUInt32 &&& 0b0111_1111) * 128 ^ exp) =
      .ok (output + (b.toUInt32 &&& 0b0111_1111) * 128 ^ exp) := by
    apply addU32_ok
    rw [UInt32.toNat_mul, product]
    omega
  apply except_bind_eq_ok.mpr
  exact ⟨_, weight, except_bind_eq_ok.mpr ⟨_, digit, added⟩⟩

-- Induction on the bytes; the output so far stays below the weight of the next digit.
theorem foldDigits_ok [Build] {bytes : List UInt8} {exp : Nat} {output : UInt32}
    (short : exp + bytes.length ≤ 4) (bound : output.toNat < 128 ^ exp) :
    (bytes.zipIdx exp).foldlM (fun output (val, exp) => addDigit output val exp) output =
      .ok ((bytes.zipIdx exp).foldl (fun output (val, exp) =>
        output + (val.toUInt32 &&& 0b0111_1111) * 128 ^ exp) output) := by
  induction bytes generalizing exp output with
  | nil => rfl
  | cons b rest ih =>
    rw [List.length_cons] at short
    have small : exp ≤ 3 := by omega
    obtain ⟨sum, next⟩ := toNat_addDigit (b := b) small bound
    rw [List.zipIdx_cons, List.foldlM_cons, List.foldl_cons]
    apply except_bind_eq_ok.mpr
    refine ⟨_, addDigit_ok small bound, ih (by omega) ?_⟩
    rw [sum]
    exact next

theorem addDigits_ok [Build] {bytes : List UInt8} (short : bytes.length ≤ 4) :
    addDigits bytes = .ok (variableU32Value bytes) := by
  apply foldDigits_ok
  · omega
  · decide

/-! ### What the writer emits is what the parser reads -/

theorem variableBytes_singleton {a : UInt8} (stop : a.toNat < 128) : VariableBytes [a] :=
  ⟨[], a, rfl, by simp, by simp, by simpa [continues_eq] using stop⟩

theorem VariableBytes.cons {a : UInt8} {bytes : List UInt8} (go : 128 ≤ a.toNat)
    (short : bytes.length ≤ 3) (shape : VariableBytes bytes) : VariableBytes (a :: bytes) := by
  obtain ⟨front, last, rfl, -, more, stop⟩ := shape
  refine ⟨a :: front, last, rfl, by simpa using short, ?_, stop⟩
  intro b member
  rcases List.mem_cons.mp member with rfl | member
  · simpa [continues_eq] using go
  · exact more b member

def variableWidth (n : Nat) : Nat :=
  if n ≤ 127 then 1 else if n ≤ 16383 then 2 else if n ≤ 2097151 then 3 else 4

theorem VariableBytes.width_le {bytes : List UInt8} (shape : VariableBytes bytes) :
    variableWidth (digitsValue bytes) ≤ bytes.length := by
  have value := digitsValue_lt bytes
  obtain ⟨positive, short⟩ := shape.length
  unfold variableWidth
  generalize digitsValue bytes = n at value ⊢
  generalize bytes.length = k at *
  interval_cases k <;> split_ifs <;> omega

theorem variableU32BinarySize_eq {u : UInt32} (bound : u.toNat ≤ 268435455) :
    variableU32BinarySize u = castSize (variableWidth u.toNat) := by
  have toNat_le (k : UInt32) : u ≤ k ↔ u.toNat ≤ k.toNat := UInt32.le_iff_toNat_le
  simp only [variableU32BinarySize, variableWidth, toNat_le, UInt32.reduceToNat]
  split_ifs <;> rfl

/-- Beyond what can be written there is no size: `variable_u32_binary_size` unwinds. -/
theorem variableU32BinarySize_unreachable {u : UInt32} (long : 268435455 < u.toNat) :
    variableU32BinarySize u = .panic .unreachable := by
  have toNat_le (k : UInt32) : u ≤ k ↔ u.toNat ≤ k.toNat := UInt32.le_iff_toNat_le
  simp only [variableU32BinarySize, toNat_le, UInt32.reduceToNat]
  rw [if_neg (by omega), if_neg (by omega), if_neg (by omega), if_neg (by omega)]

def Digits (bytes : List UInt8) (n : Nat) : Prop := VariableBytes bytes ∧ digitsValue bytes = n

theorem Digits.last {u : UInt32} (small : u.toNat < 128) : Digits [u.toUInt8] u.toNat := by
  have digit : u.toUInt8.toNat = u.toNat := by
    rw [UInt32.toNat_toUInt8]
    omega
  refine ⟨variableBytes_singleton (by omega), ?_⟩
  simp only [digitsValue]
  omega

theorem Digits.more {u : UInt32} {bytes : List UInt8} (digits : Digits bytes (u.toNat / 128))
    (short : bytes.length ≤ 3) : Digits ((u % 128 ||| 0b1000_0000).toUInt8 :: bytes) u.toNat := by
  have digit := toNat_high7 u
  obtain ⟨shape, value⟩ := digits
  refine ⟨.cons (by omega) short shape, ?_⟩
  simp only [digitsValue]
  omega

/-- The four widths share one shape: low digits that continue, then the last digit. -/
theorem writeVariableU32_emits {u : UInt32} {bytes : List UInt8} {v : Unit}
    (emits : (writeVariableU32 u).Emits bytes v) :
    VariableBytes bytes ∧ digitsValue bytes = u.toNat ∧ bytes.length = variableWidth u.toNat := by
  have toNat_le (k : UInt32) : u ≤ k ↔ u.toNat ≤ k.toNat := UInt32.le_iff_toNat_le
  have upper : (u / 128).toNat = u.toNat / 128 := UInt32.toNat_div u 128
  have upper2 : (u / (128 * 128)).toNat = (u / 128).toNat / 128 := by
    simp [Nat.div_div_eq_div_mul]
  have upper3 : (u / (128 * 128 * 128)).toNat = (u / (128 * 128)).toNat / 128 := by
    simp [Nat.div_div_eq_div_mul]
  suffices digits : Digits bytes u.toNat ∧ bytes.length = variableWidth u.toNat from
    ⟨digits.1.1, digits.1.2, digits.2⟩
  unfold writeVariableU32 at emits
  simp only [toNat_le, UInt32.reduceToNat] at emits
  unfold variableWidth
  split at emits
  next one =>
    obtain rfl := writeByte_emits.mp emits
    rw [if_pos one]
    exact ⟨.last (by omega), rfl⟩
  next one =>
    rw [if_neg one]
    split at emits
    next two =>
      simp only [Emit.seq_emits, writeByte_emits] at emits
      obtain ⟨_, _, rfl, rfl, rfl⟩ := emits
      rw [if_pos two]
      have top := Digits.last (u := u / 128) (by omega)
      exact ⟨.more (upper ▸ top) (by simp), rfl⟩
    next two =>
      rw [if_neg two]
      split at emits
      next three =>
        simp only [Emit.seq_emits, writeByte_emits] at emits
        obtain ⟨_, _, rfl, ⟨_, _, rfl, rfl, rfl⟩, rfl⟩ := emits
        rw [if_pos three]
        have top := Digits.last (u := u / (128 * 128)) (by omega)
        have middle := Digits.more (upper2 ▸ top) (by simp)
        exact ⟨.more (upper ▸ middle) (by simp), rfl⟩
      next three =>
        rw [if_neg three]
        split at emits
        next four =>
          simp only [Emit.seq_emits, writeByte_emits] at emits
          obtain ⟨_, _, rfl, ⟨_, _, rfl, ⟨_, _, rfl, rfl, rfl⟩, rfl⟩, rfl⟩ := emits
          have top := Digits.last (u := u / (128 * 128 * 128)) (by omega)
          have third := Digits.more (upper3 ▸ top) (by simp)
          have second := Digits.more (upper2 ▸ third) (by simp)
          exact ⟨.more (upper ▸ second) (by simp), rfl⟩
        next four => exact absurd emits Emit.fault_emits

theorem writeVariableU32_ok {u : UInt32} (bound : u.toNat ≤ 268435455) :
    ∃ bytes, (writeVariableU32 u).Emits bytes () := by
  have last : u ≤ 268435455 := UInt32.le_iff_toNat_le.mpr bound
  unfold writeVariableU32
  split_ifs <;> simp [Emit.seq_emits, writeByte_emits]

theorem writeVariableU32_le {u : UInt32} {bytes : List UInt8} {v : Unit}
    (emits : (writeVariableU32 u).Emits bytes v) : u.toNat ≤ 268435455 := by
  obtain ⟨shape, value, -⟩ := writeVariableU32_emits emits
  have bound := digitsValue_lt bytes
  have power : 128 ^ bytes.length ≤ 128 ^ 4 := Nat.pow_le_pow_right (by decide) shape.length.2
  omega

theorem parseVariableU32_le {isPartial : Bool} {input rest : List UInt8} {v : UInt32}
    (run : parseVariableU32With isPartial input = .ok (v, rest)) : v.toNat ≤ 268435455 := by
  obtain ⟨bytes, shape, -, rfl⟩ := parseVariableU32With_eq_ok.mp run
  have width := shape.length.2
  have value := digitsValue_lt bytes
  have power : 128 ^ bytes.length ≤ 128 ^ 4 := Nat.pow_le_pow_right (by decide) width
  rw [toNat_variableU32Value width]
  omega

theorem parseVariableU32_exact : Exact parseVariableU32 variableU32BinarySize writeVariableU32 where
  isLocal := parseVariableU32_local
  shrinks := parseVariableU32_shrinks
  reads := by
    intro u bytes emits
    obtain ⟨shape, value, -⟩ := writeVariableU32_emits emits
    have same : variableU32Value bytes = u :=
      UInt32.toNat_inj.mp ((toNat_variableU32Value shape.length.2).trans value)
    exact same ▸ parseVariableU32_reads shape
  size := by
    intro u bytes emits
    obtain ⟨-, -, width⟩ := writeVariableU32_emits emits
    rw [variableU32BinarySize_eq (writeVariableU32_le emits), ← width]
    exact Size.announces_cast _
  rewrites := by
    intro input rest u run
    have bound := parseVariableU32_le run
    obtain ⟨bytes, shape, rfl, rfl⟩ := parseVariableU32With_eq_ok.mp run
    obtain ⟨written, emits⟩ := writeVariableU32_ok bound
    obtain ⟨-, -, width⟩ := writeVariableU32_emits emits
    have shortest := shape.width_le
    rw [toNat_variableU32Value shape.length.2] at width
    exact ⟨written, emits, by simp only [List.length_append]; omega⟩

theorem variableWidth_mono {n m : Nat} (le : n ≤ m) : variableWidth n ≤ variableWidth m := by
  unfold variableWidth
  split_ifs <;> omega

theorem parseVariableU32_rewrites {input rest : List UInt8} {u : UInt32} {n : Nat}
    (run : parseVariableU32 input = .ok (u, rest)) (le : n ≤ u.toNat) :
    ∃ bytes, (writeVariableU32 (.ofNat n)).Emits bytes () ∧
      bytes.length + rest.length ≤ input.length := by
  have bound := parseVariableU32_le run
  obtain ⟨bytes, shape, rfl, rfl⟩ := parseVariableU32With_eq_ok.mp run
  have small : (UInt32.ofNat n).toNat = n := UInt32.toNat_ofNat_of_lt (by rw [UInt32.size]; omega)
  obtain ⟨written, emits⟩ := writeVariableU32_ok (u := .ofNat n) (by omega)
  obtain ⟨-, -, width⟩ := writeVariableU32_emits emits
  have shortest := shape.width_le
  rw [toNat_variableU32Value shape.length.2] at le
  have narrower := variableWidth_mono le
  rw [small] at width
  exact ⟨written, emits, by simp only [List.length_append]; omega⟩

end V5
