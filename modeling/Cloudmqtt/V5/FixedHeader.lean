import Cloudmqtt.V5.Strings

/-! The first byte of every packet. -/

set_option autoImplicit false

namespace V5

open Base Rust

def takeBits (byte : UInt8) (offset count : UInt8) : UInt8 := (byte <<< offset) >>> (8 - count)

inductive PacketType where
  | connect
  | connack
  | publish (dup : Bool) (qos : QualityOfService) (retain : Bool)
  | puback
  | pubrec
  | pubrel
  | pubcomp
  | subscribe
  | suback
  | unsubscribe
  | unsuback
  | pingreq
  | pingresp
  | disconnect
  | auth
  deriving DecidableEq, Repr

structure MFixedHeader where
  packetType : PacketType
  deriving DecidableEq, Repr

namespace MFixedHeader

/-- The packet types that the upper and the lower half of the byte allow. -/
def tryFrom (byte : UInt8) : Option MFixedHeader :=
  let packetFlags := takeBits byte 4 4
  match takeBits byte 0 4, packetFlags with
  | 0, _ => none
  | 1, 0 => some ⟨.connect⟩
  | 2, 0 => some ⟨.connack⟩
  | 3, flags => do
    let qos ← QualityOfService.tryFrom ((flags &&& 0b0110) >>> 1)
    some ⟨.publish (0b1000 &&& flags != 0) qos (0b0001 &&& flags != 0)⟩
  | 4, 0 => some ⟨.puback⟩
  | 5, 0 => some ⟨.pubrec⟩
  | 6, 0b0010 => some ⟨.pubrel⟩
  | 7, 0 => some ⟨.pubcomp⟩
  | 8, 0b0010 => some ⟨.subscribe⟩
  | 9, 0 => some ⟨.suback⟩
  | 10, 0b0010 => some ⟨.unsubscribe⟩
  | 11, 0 => some ⟨.unsuback⟩
  | 12, 0 => some ⟨.pingreq⟩
  | 13, 0 => some ⟨.pingresp⟩
  | 14, 0 => some ⟨.disconnect⟩
  | 15, 0 => some ⟨.auth⟩
  | _, _ => none

def parse : MParser MFixedHeader := Parser.tryMap u8 tryFrom .backtrack

def binarySize : Size := 1

def halves (upper lower : UInt8) : UInt8 := (upper <<< 4) ||| lower

def toU8 (self : MFixedHeader) : UInt8 :=
  match self.packetType with
  | .connect => halves 1 0
  | .connack => halves 2 0
  | .publish dup qos retain =>
    halves 3 ((dup.toUInt8 <<< 3) ||| (qos.toU8 <<< 1) ||| retain.toUInt8)
  | .puback => halves 4 0
  | .pubrec => halves 5 0
  | .pubrel => halves 6 0b0010
  | .pubcomp => halves 7 0
  | .subscribe => halves 8 0b0010
  | .suback => halves 9 0
  | .unsubscribe => halves 10 0b0010
  | .unsuback => halves 11 0
  | .pingreq => halves 12 0
  | .pingresp => halves 13 0
  | .disconnect => halves 14 0
  | .auth => halves 15 0

def write (self : MFixedHeader) : WResult := writeByte self.toU8

theorem tryFrom_toU8 (self : MFixedHeader) : tryFrom self.toU8 = some self := by
  obtain ⟨packetType⟩ := self
  cases packetType with
  | publish dup qos retain => cases dup <;> cases qos <;> cases retain <;> rfl
  | _ => rfl

theorem tryFrom_eq_some {byte : UInt8} {self : MFixedHeader} :
    tryFrom byte = some self ↔ byte = self.toU8 :=
  tryFrom_eq_some_of_forall (by decide +kernel) tryFrom_toU8

end MFixedHeader

end V5
