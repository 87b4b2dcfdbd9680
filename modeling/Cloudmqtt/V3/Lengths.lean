import Cloudmqtt.V3.Packet

/-! The length that `write_to` announces, and the bytes that it writes behind it. -/

set_option autoImplicit false

namespace V3

open Base Rust

open V5 (VariableBytes Digits)

/-! ### What is written -/

def present {α : Type} (option : Option α) (bytes : α → List UInt8) : List UInt8 :=
  (option.map bytes).getD []

theorem ifSome_emits {α : Type} {option : Option α} {write : α → Write} {bytes : α → List UInt8}
    (emits : ∀ a, (write a).Emits (bytes a) ()) :
    (ifSome option write).Emits (present option bytes) () := by
  cases option with
  | none => exact Emit.pure_emits.mpr ⟨rfl, rfl⟩
  | some a => exact emits a

theorem writePayload_emits (data : List UInt8) : (writePayload data).Emits (prefixed data) () := by
  apply Emit.Emits.seq
  · exact writeAll_emits.mpr rfl
  · exact writeAll_emits.mpr rfl

def MLastWill.bytes (self : MLastWill) : List UInt8 := self.topic.bytes ++ prefixed self.payload

def MConnect.bodyBytes (self : MConnect) : List UInt8 :=
  self.protocolName.bytes ++ ([self.protocolLevel] ++ ([self.connectFlags] ++
    (toBeBytes self.keepAlive ++ (self.clientId.bytes ++ (present self.will MLastWill.bytes ++
      (present self.username MString.bytes ++ present self.password prefixed))))))

theorem MConnect.writeBody_emits (self : MConnect) : self.writeBody.Emits self.bodyBytes () := by
  apply Emit.Emits.seq self.protocolName.writeTo_emits
  apply Emit.Emits.seq (writeAll_emits.mpr rfl)
  apply Emit.Emits.seq (writeAll_emits.mpr rfl)
  apply Emit.Emits.seq (writeAll_emits.mpr rfl)
  apply Emit.Emits.seq self.clientId.writeTo_emits
  apply Emit.Emits.seq
  · apply ifSome_emits
    intro will
    exact will.topic.writeTo_emits.seq (writePayload_emits will.payload)
  · apply Emit.Emits.seq
    · exact ifSome_emits MString.writeTo_emits
    · exact ifSome_emits writePayload_emits

def MPublish.bodyBytes (self : MPublish) : List UInt8 :=
  self.topicName.bytes ++ (present self.id (toBeBytes ·.value) ++ self.payload)

theorem MPublish.writeBody_emits (self : MPublish) : self.writeBody.Emits self.bodyBytes () := by
  apply Emit.Emits.seq self.topicName.writeTo_emits
  apply Emit.Emits.seq
  · exact ifSome_emits fun id => writeAll_emits.mpr rfl
  · exact writeAll_emits.mpr rfl

/-- The length `write_to` computes and the bytes it writes behind it, for the
packets that it can write. -/
def MPacket.frame : MPacket → Option (Nat × List UInt8)
  | connect packet => some (packet.remainingLength, packet.bodyBytes)
  | connack packet =>
    some (2, [packet.sessionPresent.toUInt8, packet.connectReturnCode.toByte])
  | publish packet => some (packet.remainingLength, packet.bodyBytes)
  | puback ⟨id⟩ | pubrec ⟨id⟩ | pubrel ⟨id⟩ | pubcomp ⟨id⟩ => some (2, toBeBytes id.value)
  | subscribe packet => some (packet.id.getLen + packet.subscriptions.getLen,
      toBeBytes packet.id.value ++ packet.subscriptions.data)
  | suback packet => some (packet.id.getLen + packet.subscriptionAcks.getLen,
      toBeBytes packet.id.value ++ packet.subscriptionAcks.bytes)
  | pingreq _ | pingresp _ => some (0, [])
  | unsubscribe _ | unsuback _ | disconnect _ => none

def Framed (n : Nat) (body bytes : List UInt8) : Prop :=
  ∃ first length, bytes = first :: (length ++ body) ∧ Digits length n

theorem framed_of_writeFramed {packetType : UInt8} {n : Nat} {write : Write}
    {body bytes : List UInt8} (writes : write.Emits body ())
    (emits : (writeFramed packetType n write).Emits bytes ()) : Framed n body bytes := by
  simp only [writeFramed, Emit.seq_emits, writeAll_emits] at emits
  obtain ⟨_, _, rfl, ⟨length, _, written, behind, rfl⟩, rfl⟩ := emits
  obtain rfl := (writes.unique behind).1
  exact ⟨packetType, length, rfl, writeRemainingLength_emits written⟩

theorem MPacket.framed_of_writeTo {packet : MPacket} {bytes : List UInt8}
    (emits : packet.writeTo.Emits bytes ()) :
    ∃ n body, packet.frame = some (n, body) ∧ Framed n body bytes := by
  cases packet with
  | connect packet => exact ⟨_, _, rfl, framed_of_writeFramed packet.writeBody_emits emits⟩
  | publish packet => exact ⟨_, _, rfl, framed_of_writeFramed packet.writeBody_emits emits⟩
  | connack packet | puback packet | pubrec packet | pubrel packet | pubcomp packet =>
    exact ⟨_, _, rfl, framed_of_writeFramed (writeAll_emits.mpr rfl) emits⟩
  | subscribe packet | suback packet =>
    refine ⟨_, _, rfl, framed_of_writeFramed ?_ emits⟩
    exact Emit.Emits.seq (writeAll_emits.mpr rfl) (writeAll_emits.mpr rfl)
  | pingreq | pingresp =>
    obtain rfl := writeAll_emits.mp emits
    exact ⟨_, _, rfl, _, [0], rfl, digits_last (by decide)⟩
  | unsubscribe | unsuback | disconnect => exact absurd emits Emit.fault_emits

/-! ### The announced length -/

/-- The number written behind the first byte is that of the bytes that follow it. -/
def Honest (bytes : List UInt8) : Prop := ∃ body, Framed body.length body bytes

theorem variableBytes_unique {length length' body body' : List UInt8}
    (shape : VariableBytes length) (shape' : VariableBytes length')
    (same : length ++ body = length' ++ body') : length = length' ∧ body = body' := by
  have read := V5.parseVariableU32_reads shape body
  rw [same, V5.parseVariableU32_reads shape' body'] at read
  obtain rfl := (Prod.mk.inj (Except.ok.inj read)).2
  exact ⟨List.append_cancel_right same, rfl⟩

theorem Framed.honest_iff {n : Nat} {body bytes : List UInt8} (framed : Framed n body bytes) :
    Honest bytes ↔ body.length = n := by
  constructor
  · obtain ⟨first, length, rfl, shape, value⟩ := framed
    rintro ⟨body', first', length', same, shape', value'⟩
    obtain ⟨rfl, rfl⟩ := variableBytes_unique shape shape' (List.cons.inj same).2
    rw [← value, value']
  · intro width
    rw [← width] at framed
    exact ⟨body, framed⟩

theorem length_present {α : Type} (option : Option α) {bytes : α → List UInt8} {width : α → Nat}
    (each : ∀ a, (bytes a).length = width a) :
    (present option bytes).length = (option.map width).getD 0 := by
  cases option with
  | none => rfl
  | some a => exact each a

theorem length_toBeBytes (u : UInt16) : (toBeBytes u).length = 2 := rfl

theorem MLastWill.length_bytes (self : MLastWill) : self.bytes.length = self.getLen := by
  rw [bytes, List.length_append, MString.length_bytes, length_prefixed]
  rfl

/-- The ten bytes that are not added up: the name "MQTT", the level, the flags and
the keep alive. -/
theorem MConnect.length_bodyBytes {self : MConnect} (named : self.protocolName.value = "MQTT") :
    self.bodyBytes.length = self.remainingLength := by
  have name : self.protocolName.bytes.length = 6 := by
    rw [MString.length_bytes, MString.getLen, named]
    rfl
  have will := length_present self.will MLastWill.length_bytes
  have username := length_present self.username MString.length_bytes
  have password := length_present self.password length_prefixed
  simp only [bodyBytes, remainingLength, List.length_append, List.length_singleton, name, will,
    username, password, MString.length_bytes, length_toBeBytes]
  omega

theorem MPublish.length_bodyBytes (self : MPublish) :
    self.bodyBytes.length = self.remainingLength := by
  have each (id : MPacketIdentifier) : (toBeBytes id.value).length = id.getLen := rfl
  have id := length_present self.id each
  simp only [bodyBytes, remainingLength, List.length_append, MString.length_bytes, id]
  omega

theorem MSubscriptionAcks.length_bytes (self : MSubscriptionAcks) :
    self.bytes.length = self.acks.length := by
  simp [bytes, List.length_flatMap]

-- Only the acknowledgements of a SUBACK are announced by a constant of their own.
/-- A written packet announces its length, but for a SUBACK with any other number
of acknowledgements than one. -/
theorem MPacket.writeTo_honest_iff {packet : MPacket} {bytes : List UInt8}
    (emits : packet.writeTo.Emits bytes ())
    (named : ∀ connect, packet = .connect connect → connect.protocolName.value = "MQTT") :
    Honest bytes ↔ ∀ suback, packet = .suback suback → suback.subscriptionAcks.acks.length = 1 := by
  obtain ⟨n, body, framed, bytesFramed⟩ := framed_of_writeTo emits
  rw [bytesFramed.honest_iff]
  cases packet with
  | suback packet =>
    obtain ⟨rfl, rfl⟩ := Prod.mk.inj (Option.some.inj framed)
    rw [List.length_append, length_toBeBytes, MSubscriptionAcks.length_bytes]
    constructor
    · rintro same _ ⟨⟩
      exact Nat.add_left_cancel same
    · intro single
      rw [single packet rfl]
      rfl
  | connect packet =>
    obtain ⟨rfl, rfl⟩ := Prod.mk.inj (Option.some.inj framed)
    exact iff_of_true (packet.length_bodyBytes (named packet rfl)) fun _ same => nomatch same
  | publish packet =>
    obtain ⟨rfl, rfl⟩ := Prod.mk.inj (Option.some.inj framed)
    exact iff_of_true packet.length_bodyBytes fun _ same => nomatch same
  | subscribe packet =>
    obtain ⟨rfl, rfl⟩ := Prod.mk.inj (Option.some.inj framed)
    refine iff_of_true ?_ fun _ same => nomatch same
    rw [List.length_append]
    rfl
  | connack | puback | pubrec | pubrel | pubcomp | pingreq | pingresp =>
    obtain ⟨rfl, rfl⟩ := Prod.mk.inj (Option.some.inj framed)
    exact iff_of_true rfl fun _ same => nomatch same
  | unsubscribe | unsuback | disconnect => cases framed

def singleSuback : MSuback := ⟨⟨1⟩, ⟨[.maximumQualityAtMostOnce]⟩⟩

theorem MPacket.writeTo_honest_single : Honest [0x90, 3, 0, 1, 0] ↔
    ∀ suback, MPacket.suback singleSuback = .suback suback →
      suback.subscriptionAcks.acks.length = 1 := by
  have emits : (MPacket.suback singleSuback).writeTo.Emits [0x90, 3, 0, 1, 0] () := rfl
  exact writeTo_honest_iff emits fun _ same => nomatch same

def doubleSuback : MSuback := ⟨⟨1⟩, ⟨[.maximumQualityAtMostOnce, .failure]⟩⟩

/-- A SUBACK for two subscriptions announces three bytes and has four. -/
theorem MPacket.writeTo_doubleSuback :
    (MPacket.suback doubleSuback).writeTo.Emits [0x90, 3, 0, 1, 0, 0x80] () ∧
      ¬ Honest [0x90, 3, 0, 1, 0, 0x80] := by
  have framed : Framed 3 [0, 1, 0, 0x80] [0x90, 3, 0, 1, 0, 0x80] :=
    ⟨0x90, [3], rfl, digits_last (by decide)⟩
  refine ⟨rfl, fun honest => ?_⟩
  have width := framed.honest_iff.mp honest
  cases width

end V3
