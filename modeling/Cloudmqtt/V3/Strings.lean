import Cloudmqtt.V3.Nom

/-! Strings, qualities of service and packet identifiers of the MQTT 3.1.1 format. -/

set_option autoImplicit false

namespace V3

open Base Rust

open V5 (u16Bytes)

-- The errors of the writer itself, `Io`, come from outside: an `AsyncWrite` that
-- fails ends `write_to` there, with what it has taken before.
inductive MPacketWriteError where
  | invalidSize (size : Nat)
  deriving DecidableEq, Repr

/-- How `write_to` stops: with an error it returns, or unwinding. -/
inductive WriteFault where
  | error (e : MPacketWriteError)
  | panic (p : Panic)
  deriving DecidableEq, Repr

/-- Bytes handed to an `AsyncWrite` that takes them all. -/
abbrev Write : Type := Emit WriteFault UInt8 Unit

def writeAll (bytes : List UInt8) : Write := Emit.write bytes

abbrev toBeBytes (u : UInt16) : List UInt8 := u16Bytes u

/-! ### Strings -/

structure MString where
  value : String
  deriving DecidableEq

def MString.getLen (mstr : MString) : Nat := 2 + len mstr.value

-- The length is cut to 16 bits, the string itself is written whole.
def MString.writeTo (mstr : MString) : Write := do
  writeAll (toBeBytes (.ofNat (len mstr.value)))
  writeAll (asBytes mstr.value)

/-- U+0000 is not among them. -/
def controlCharacters (c : Char) : Bool :=
  decide ('\u0001' ≤ c ∧ c ≤ '\u001f') || decide ('\u007f' ≤ c ∧ c ≤ '\u009f')

def mstring : MParser MString :=
  mapRes (mapRes (do take (← beU16).toNat) fun data => (fromUtf8 data).map MString.mk) fun s =>
    if s.value.toList.any controlCharacters then none else some s

structure MString.Readable (mstr : MString) : Prop where
  short : len mstr.value ≤ 65535
  plain : ∀ c ∈ mstr.value.toList, controlCharacters c = false

def prefixed (data : List UInt8) : List UInt8 := toBeBytes (.ofNat data.length) ++ data

theorem length_prefixed (data : List UInt8) : (prefixed data).length = 2 + data.length := by
  rw [prefixed, List.length_append]
  rfl

def MString.bytes (mstr : MString) : List UInt8 := prefixed (asBytes mstr.value)

theorem MString.length_bytes (mstr : MString) : mstr.bytes.length = mstr.getLen := by
  rw [bytes, length_prefixed, length_asBytes]
  rfl

theorem writeAll_emits {slice bytes : List UInt8} {u : Unit} :
    (writeAll slice).Emits bytes u ↔ bytes = slice := Emit.write_emits

theorem MString.writeTo_emits (mstr : MString) : mstr.writeTo.Emits mstr.bytes () := by
  rw [MString.bytes, prefixed, length_asBytes]
  apply Emit.Emits.seq
  · exact writeAll_emits.mpr rfl
  · exact writeAll_emits.mpr rfl

theorem lengthTake_eq_ok {input rest data : List UInt8} :
    (do take (← beU16).toNat : MParser (List UInt8)) input = .ok (data, rest) ↔
      data.length ≤ 65535 ∧ input = prefixed data ++ rest := by
  simp only [Parser.bind_eq_ok, beU16_eq_ok, take_eq_ok, prefixed, List.append_assoc]
  constructor
  · rintro ⟨u, _, rfl, rfl, width⟩
    have bound := u.toNat_lt
    refine ⟨by omega, ?_⟩
    rw [width, UInt16.ofNat_toNat]
  · rintro ⟨short, rfl⟩
    refine ⟨.ofNat data.length, data ++ rest, rfl, rfl, ?_⟩
    rw [UInt16.toNat_ofNat']
    omega

theorem mstring_canonical : mstring.Canonical MString.Readable MString.bytes := by
  intro input rest s
  simp only [mstring, mapRes_eq_ok, lengthTake_eq_ok, Option.map_eq_some_iff, fromUtf8_eq_some,
    Option.ite_none_left_eq_some, Option.some.injEq, Bool.not_eq_true, List.any_eq_false]
  constructor
  · rintro ⟨_, ⟨_, ⟨short, rfl⟩, value, rfl, rfl⟩, plain, rfl⟩
    rw [length_asBytes] at short
    exact ⟨⟨short, plain⟩, rfl⟩
  · rintro ⟨⟨short, plain⟩, rfl⟩
    rw [← length_asBytes] at short
    exact ⟨s, ⟨_, ⟨short, rfl⟩, s.value, rfl, rfl⟩, plain, rfl⟩

theorem mstring_quiet : Quiet mstring :=
  ((Quiet.beU16.bind fun u => .take u.toNat).mapRes _).mapRes _

theorem MString.bytes_ne_nil (mstr : MString) : mstr.bytes ≠ [] := by
  intro empty
  have length := mstr.length_bytes
  rw [empty, getLen, List.length_nil] at length
  omega

/-! ### Qualities of service -/

inductive MQualityOfService where
  | atMostOnce
  | atLeastOnce
  | exactlyOnce
  deriving DecidableEq, Repr

def MQualityOfService.toByte : MQualityOfService → UInt8
  | .atMostOnce => 0x0
  | .atLeastOnce => 0x1
  | .exactlyOnce => 0x2

def mqualityOfService : UInt8 → Option MQualityOfService
  | 0b00 => some .atMostOnce
  | 0b01 => some .atLeastOnce
  | 0b10 => some .exactlyOnce
  | _ => none

theorem mqualityOfService_eq_some {b : UInt8} {qos : MQualityOfService} :
    mqualityOfService b = some qos ↔ b = qos.toByte := by
  apply tryFrom_eq_some_of_forall
  · decide +kernel
  · intro qos
    cases qos <;> rfl

/-! ### Packet identifiers -/

structure MPacketIdentifier where
  value : UInt16
  deriving DecidableEq, Repr

def mpacketidentifier : MParser MPacketIdentifier := MPacketIdentifier.mk <$> beU16

def MPacketIdentifier.writeTo (self : MPacketIdentifier) : Write := writeAll (toBeBytes self.value)

def MPacketIdentifier.getLen (_self : MPacketIdentifier) : Nat := 2

theorem mpacketidentifier_eq_ok {input rest : List UInt8} {id : MPacketIdentifier} :
    mpacketidentifier input = .ok (id, rest) ↔ input = toBeBytes id.value ++ rest := by
  simp only [mpacketidentifier, Parser.map_eq_ok, beU16_eq_ok]
  constructor
  · rintro ⟨u, rfl, rfl⟩
    rfl
  · rintro rfl
    exact ⟨id.value, rfl, rfl⟩

theorem mpacketidentifier_quiet : Quiet mpacketidentifier := Quiet.beU16.map _

end V3
