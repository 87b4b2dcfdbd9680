import Cloudmqtt.V3.Strings
import Cloudmqtt.V5.FixedHeader

/-! The fixed header of the MQTT 3.1.1 format: written, read, and read back. -/

set_option autoImplicit false

namespace V3

open Base Rust

open V5 (takeBits continues digitsValue variableU32Value VariableBytes Digits)

inductive MPacketKind where
  | connect
  | connack
  | publish (dup : Bool) (qos : MQualityOfService) (retain : Bool)
  | puback
  | pubrec
  | pubrel
  | pubcomp
  | subscribe
  | suback
  | unsubscribe
  | unsuback
  | pingreq
  | pingresp
  | disconnect
  deriving DecidableEq, Repr

structure MPacketHeader where
  kind : MPacketKind
  remainingLength : UInt32
  deriving DecidableEq

def MPacketKind.toByte : MPacketKind → UInt8
  | connect => (1 : UInt8) <<< 4
  | connack => (2 : UInt8) <<< 4
  | publish dup qos retain =>
    let upper : UInt8 := 0b0011
    let dup : UInt8 := if dup then 0b1000 else 0
    let retain := retain.toUInt8
    let qos := qos.toByte <<< 1
    (upper <<< 4) ||| dup ||| retain ||| qos
  | puback => (4 : UInt8) <<< 4
  | pubrec => (5 : UInt8) <<< 4
  | pubrel => ((6 : UInt8) <<< 4) ||| 2
  | pubcomp => (7 : UInt8) <<< 4
  | subscribe => ((8 : UInt8) <<< 4) ||| 2
  | suback => (9 : UInt8) <<< 4
  | unsubscribe => ((10 : UInt8) <<< 4) ||| 2
  | unsuback => (11 : UInt8) <<< 4
  | pingreq => (12 : UInt8) <<< 4
  | pingresp => (13 : UInt8) <<< 4
  | disconnect => (14 : UInt8) <<< 4

/-- The `match` of `mpacketkind` on the two halves of the byte. -/
def packetKind : UInt8 → UInt8 → Option MPacketKind
  | 1, 0b0000 => some .connect
  | 2, 0b0000 => some .connack
  | 3, lower =>
    (mqualityOfService ((lower &&& 0b0110) >>> 1)).map fun qos =>
      .publish (lower &&& 0b1000 != 0) qos (lower &&& 0b0001 != 0)
  | 4, 0b0000 => some .puback
  | 5, 0b0000 => some .pubrec
  | 6, 0b0010 => some .pubrel
  | 7, 0b0000 => some .pubcomp
  | 8, 0b0010 => some .subscribe
  | 9, 0b0000 => some .suback
  | 10, 0b0010 => some .unsubscribe
  | 11, 0b0000 => some .unsuback
  | 12, 0b0000 => some .pingreq
  | 13, 0b0000 => some .pingresp
  | 14, 0b0000 => some .disconnect
  | _, _ => none

def mpacketkind : MParser MPacketKind := do
  let (upper, lower) ← bits fun b => (takeBits b 0 4, takeBits b 4 4)
  orRefuse (packetKind upper lower)

def addDigit [Build] (output : UInt32) (val : UInt8) (exp : Nat) : Except Panic UInt32 := do
  let weight ← powU32 128 exp
  let digit ← mulU32 (val.toUInt32 &&& 0b0111_1111) weight
  addU32 output digit

def decodeVariableLength [Build] (bytes : List UInt8) : Except Panic UInt32 :=
  bytes.zipIdx.foldlM (fun output (val, exp) => addDigit output val exp) 0

-- The first byte is taken whatever it is, and the ones that continue behind it.
def mfixedheader [Build] : MParser MPacketHeader := do
  let kind ← mpacketkind
  let bytes ← Parser.recognize do
    let _ ← u8
    takeWhileUpTo 3 fun b => b &&& 0b1000_0000 != 0
  let remainingLength ← liftPanic (decodeVariableLength bytes)
  pure ⟨kind, remainingLength⟩

/-- The macro of `write_to`. -/
def writeRemainingLength (length : Nat) : Write :=
  if length ≤ 127 then writeAll [.ofNat length]
  else if length ≤ 16383 then
    let first := length % 128 ||| 0b1000_0000
    let second := length / 128
    writeAll [.ofNat first, .ofNat second]
  else if length ≤ 2_097_151 then
    let first := length % 128 ||| 0b1000_0000
    let second := (length / 128) % 128 ||| 0b1000_0000
    let third := length / (128 * 128)
    writeAll [.ofNat first, .ofNat second, .ofNat third]
  else if length ≤ 268_435_455 then
    let first := length % 128 ||| 0b1000_0000
    let second := (length / 128) % 128 ||| 0b1000_0000
    let third := (length / (128 * 128)) % 128 ||| 0b1000_0000
    let fourth := length / (128 * 128 * 128)
    writeAll [.ofNat first, .ofNat second, .ofNat third, .ofNat fourth]
  else Emit.fault (.error (.invalidSize length))

/-! ### The length that is written -/

theorem digits_last {n : Nat} (small : n < 128) : Digits [.ofNat n] n := by
  have byte : (UInt8.ofNat n).toNat = n := by
    rw [UInt8.toNat_ofNat']
    omega
  refine ⟨V5.variableBytes_singleton (by omega), ?_⟩
  simp only [digitsValue]
  omega

theorem digits_more {n : Nat} {bytes : List UInt8} (digits : Digits bytes (n / 128))
    (short : bytes.length ≤ 3) : Digits (.ofNat (n % 128 ||| 0b1000_0000) :: bytes) n := by
  have small : n % 128 < 2 ^ 7 := Nat.mod_lt _ (by decide)
  have sum := Nat.two_pow_add_eq_or_of_lt small 1
  simp only [Nat.mul_one, Nat.reducePow] at sum
  have byte : (UInt8.ofNat (n % 128 ||| 128)).toNat = n % 128 + 128 := by
    rw [UInt8.toNat_ofNat', Nat.or_comm, ← sum]
    omega
  obtain ⟨shape, value⟩ := digits
  refine ⟨.cons (by omega) short shape, ?_⟩
  simp only [digitsValue]
  omega

theorem writeRemainingLength_emits {n : Nat} {bytes : List UInt8} {u : Unit}
    (emits : (writeRemainingLength n).Emits bytes u) : Digits bytes n := by
  have second : n / (128 * 128) = n / 128 / 128 := (Nat.div_div_eq_div_mul n 128 128).symm
  have third : n / (128 * 128 * 128) = n / 128 / 128 / 128 := by
    rw [Nat.div_div_eq_div_mul, Nat.div_div_eq_div_mul]
  unfold writeRemainingLength at emits
  split at emits
  next one =>
    obtain rfl := writeAll_emits.mp emits
    exact digits_last (by omega)
  next =>
    split at emits
    next two =>
      obtain rfl := writeAll_emits.mp emits
      apply digits_more _ (by simp)
      exact digits_last (by omega)
    next =>
      split at emits
      next three =>
        obtain rfl := writeAll_emits.mp emits
        apply digits_more _ (by simp)
        apply digits_more _ (by simp)
        rw [second]
        exact digits_last (by omega)
      next =>
        split at emits
        next four =>
          obtain rfl := writeAll_emits.mp emits
          apply digits_more _ (by simp)
          apply digits_more _ (by simp)
          rw [second, third]
          apply digits_more _ (by simp)
          exact digits_last (by omega)
        next => exact absurd emits Emit.fault_emits

theorem writeRemainingLength_ok {n : Nat} (bound : n ≤ 268435455) :
    (writeRemainingLength n).Emits (writeRemainingLength n).emitted () := by
  unfold writeRemainingLength
  split_ifs <;> rfl

/-! ### The header that is read -/

theorem packetKind_toByte (kind : MPacketKind) :
    packetKind (takeBits kind.toByte 0 4) (takeBits kind.toByte 4 4) = some kind := by
  cases kind with
  | publish dup qos retain => cases dup <;> cases qos <;> cases retain <;> rfl
  | _ => rfl

theorem mpacketkind_reads (kind : MPacketKind) : mpacketkind.Reads [kind.toByte] kind := by
  intro rest
  rw [mpacketkind, Parser.bind_eq_ok]
  refine ⟨_, rest, bits_eq_ok.mpr ⟨kind.toByte, rfl, rfl⟩, ?_⟩
  exact orRefuse_eq_ok.mpr ⟨packetKind_toByte kind, rfl⟩

theorem decodeVariableLength_ok [Build] {bytes : List UInt8} (short : bytes.length ≤ 4) :
    decodeVariableLength bytes = .ok (variableU32Value bytes) := V5.addDigits_ok short

/-- The bytes behind the first that are taken for the length. -/
def continuation (more : List UInt8) : List UInt8 := (more.take 3).takeWhile continues

theorem prefix_continuation (more : List UInt8) : continuation more <+: more :=
  (List.takeWhile_prefix _).trans (List.take_prefix _ _)

theorem length_continuation (more : List UInt8) : (continuation more).length ≤ 3 := by
  apply (List.takeWhile_prefix _).length_le.trans
  rw [List.length_take]
  omega

theorem recognize_length (b : UInt8) (more : List UInt8) :
    Parser.recognize (do
      let _ ← u8
      takeWhileUpTo 3 fun b => b &&& 0b1000_0000 != 0) (b :: more) =
        .ok (b :: continuation more, more.drop (continuation more).length) := by
  have front := List.prefix_iff_eq_take.mp (prefix_continuation more)
  have inside := (prefix_continuation more).length_le
  have read : (do
      let _ ← u8
      takeWhileUpTo 3 fun b => b &&& 0b1000_0000 != 0 : MParser (List UInt8)) (b :: more) =
        .ok (continuation more, more.drop (continuation more).length) := rfl
  have width : (b :: more).length - (more.drop (continuation more).length).length =
      (continuation more).length + 1 := by
    rw [List.length_cons, List.length_drop]
    omega
  rw [Parser.recognize, read]
  simp only [width, List.take_succ_cons, ← front]

theorem decode_recognized [Build] (b : UInt8) (more : List UInt8) :
    decodeVariableLength (b :: continuation more) =
      .ok (variableU32Value (b :: continuation more)) :=
  decodeVariableLength_ok (Nat.succ_le_succ (length_continuation more))

theorem mfixedheader_cons [Build] (kind : MPacketKind) (b : UInt8) (more : List UInt8) :
    mfixedheader (kind.toByte :: b :: more) =
      .ok (⟨kind, variableU32Value (b :: continuation more)⟩,
        more.drop (continuation more).length) := by
  apply Parser.bind_eq_ok.mpr
  refine ⟨kind, b :: more, mpacketkind_reads kind _, ?_⟩
  apply Parser.bind_eq_ok.mpr
  refine ⟨_, _, recognize_length b more, ?_⟩
  apply Parser.bind_eq_ok.mpr
  exact ⟨_, _, liftPanic_eq_ok.mpr ⟨decode_recognized b more, rfl⟩, rfl⟩

theorem continuation_eq_nil {more : List UInt8} :
    continuation more = [] ↔ ∀ b ∈ more.head?, b < 128 := by
  cases more with
  | nil => simp [continuation]
  | cons b more =>
    rw [continuation, List.take_succ_cons, List.takeWhile_cons]
    simp [V5.continues_eq, UInt8.lt_iff_toNat_lt]

/-- A length that was written is read back when it was written in one byte. -/
theorem mfixedheader_reads [Build] (kind : MPacketKind) {n : Nat} (small : n ≤ 127)
    {rest : List UInt8} (clear : ∀ b ∈ rest.head?, b < 128) :
    mfixedheader (kind.toByte :: ((writeRemainingLength n).emitted ++ rest)) =
      .ok (⟨kind, .ofNat n⟩, rest) := by
  have written : (writeRemainingLength n).emitted = [.ofNat n] := by
    rw [writeRemainingLength, if_pos small]
    rfl
  obtain ⟨shape, value⟩ := digits_last (Nat.lt_succ_of_le small)
  have same : variableU32Value [.ofNat n] = .ofNat n := by
    apply UInt32.toNat_inj.mp
    rw [V5.toNat_variableU32Value shape.length.2, value, UInt32.toNat_ofNat']
    omega
  rw [written, List.singleton_append, mfixedheader_cons, continuation_eq_nil.mpr clear, same]
  rfl

-- The parser takes one byte and then those that continue, while the writer puts the
-- byte that ends the length last: of a longer length the last byte is left unread.
/-- A header that was written is read back exactly when its length is written in
one byte and the first byte behind it does not look like part of a length. -/
theorem mfixedheader_inverts_iff [Build] (kind : MPacketKind) {n : Nat} (bound : n ≤ 268435455)
    (rest : List UInt8) :
    mfixedheader (kind.toByte :: ((writeRemainingLength n).emitted ++ rest)) =
        .ok (⟨kind, .ofNat n⟩, rest) ↔
      n ≤ 127 ∧ ∀ b ∈ rest.head?, b < 128 := by
  constructor
  · intro read
    obtain ⟨⟨front, last, split, short, go, stop⟩, value⟩ :=
      writeRemainingLength_emits (writeRemainingLength_ok bound)
    rw [split] at value read
    cases front with
    | nil =>
      rw [List.nil_append, List.singleton_append, mfixedheader_cons] at read
      have behind := congrArg List.length (Prod.mk.inj (Except.ok.inj read)).2
      have inside := (prefix_continuation rest).length_le
      rw [List.length_drop] at behind
      have none : continuation rest = [] := List.length_eq_zero_iff.mp (by omega)
      refine ⟨?_, continuation_eq_nil.mp none⟩
      simp only [List.nil_append, digitsValue] at value
      omega
    | cons b front =>
      rw [List.cons_append, List.cons_append, mfixedheader_cons] at read
      have behind := congrArg List.length (Prod.mk.inj (Except.ok.inj read)).2
      have inside := (prefix_continuation (front ++ [last] ++ rest)).length_le
      have taken := List.prefix_iff_eq_take.mp (prefix_continuation (front ++ [last] ++ rest))
      rw [List.length_drop] at behind
      have width : (continuation (front ++ [last] ++ rest)).length = (front ++ [last]).length := by
        rw [List.length_append] at behind inside
        omega
      rw [width, List.take_left] at taken
      -- so the last byte was taken as one that continues
      have goes : continues last = true := by
        apply List.mem_takeWhile_imp (l := (front ++ [last] ++ rest).take 3)
        change last ∈ continuation (front ++ [last] ++ rest)
        rw [taken]
        simp
      rw [stop] at goes
      cases goes
  · rintro ⟨small, clear⟩
    exact mfixedheader_reads kind small clear

section

attribute [local instance] development

theorem mfixedheader_inverts_subscribe :
    mfixedheader (MPacketKind.subscribe.toByte ::
          ((writeRemainingLength 6).emitted ++ [0, 1, 0, 1, 97, 0])) =
        .ok (⟨.subscribe, .ofNat 6⟩, [0, 1, 0, 1, 97, 0]) ↔
      6 ≤ 127 ∧ ∀ b ∈ ([0, 1, 0, 1, 97, 0] : List UInt8).head?, b < 128 :=
  mfixedheader_inverts_iff .subscribe (by decide) [0, 1, 0, 1, 97, 0]

/-- Of the length 321 the first byte is read, and the second is left to the body. -/
theorem mfixedheader_twoBytes :
    (writeRemainingLength 321).emitted = [193, 2] ∧
      mfixedheader (MPacketKind.connect.toByte :: ((writeRemainingLength 321).emitted ++ [])) =
        .ok (⟨.connect, 65⟩, [2]) ∧
      ¬ ∀ (kind : MPacketKind) (n : Nat) (rest : List UInt8), n ≤ 268435455 →
        mfixedheader (kind.toByte :: ((writeRemainingLength n).emitted ++ rest)) =
          .ok (⟨kind, .ofNat n⟩, rest) := by
  have written : (writeRemainingLength 321).emitted = [193, 2] := rfl
  have read : mfixedheader (MPacketKind.connect.toByte ::
      ((writeRemainingLength 321).emitted ++ [])) = .ok (⟨.connect, 65⟩, [2]) := by
    rw [written]
    exact mfixedheader_cons .connect 193 [2]
  refine ⟨written, read, fun inverts => ?_⟩
  have same := (inverts .connect 321 [] (by decide)).symm.trans read
  simp at same

end

end V3
