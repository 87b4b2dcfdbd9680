import Cloudmqtt.Client.Stream
import Cloudmqtt.V5.Equality

/-! Owned packets: a packet together with the bytes it was written as and parsed from. -/

set_option autoImplicit false

namespace Client

open Base Rust V5

section

variable [Build]

theorem MqttPacketCodec.Sendable.written {packet : MqttPacket}
    (sendable : MqttPacketCodec.Sendable packet)
    (ended : packet.writePacket.outcome = .ok ()) : ∃ bytes, packet.write.Emits bytes () := by
  have bodyEmits := Emit.emits_iff.mpr ⟨rfl, ended⟩
  obtain ⟨length, lengthEmits⟩ := writeVariableU32_ok
    (u := .ofNat packet.writePacket.emitted.length)
    (by rw [MqttPacket.toNat_ofNat sendable.short]; exact sendable.short)
  exact ⟨_, (MqttPacket.write_emits sendable.valid.iterable sendable.short).mpr
    ⟨length, _, lengthEmits, bodyEmits, rfl⟩⟩

namespace MqttPacket

open MqttPacketCodec V5.MqttPacket

/-- The packet that is parsed back from the bytes a packet was written as. -/
structure Owns (bytes : List UInt8) (packet owned : MqttPacket) : Prop where
  sendable : Sendable owned
  made : MqttPacket.new packet = .ok owned
  parsed : parseComplete bytes = .ok owned
  same : owned.eq packet = .ok true
  rewritten : owned.write.Emits bytes ()

theorem owns_of_write {packet : MqttPacket} (sendable : Sendable packet) {bytes : List UInt8}
    (written : packet.write.Emits bytes ()) : ∃ owned, Owns bytes packet owned := by
  have iterable := sendable.valid.iterable
  have short := sendable.short
  obtain ⟨length, body, lengthEmits, bodyEmits, rfl⟩ := (write_emits iterable short).mp written
  obtain rfl := (Emit.emits_iff.mp bodyEmits).1
  obtain ⟨owned, read, same⟩ := parse_frame sendable.valid short lengthEmits bodyEmits []
  rw [List.append_nil] at read
  have parsed : parseComplete
      (MFixedHeader.toU8 ⟨packet.packetType⟩ :: (length ++ packet.writePacket.emitted)) =
        .ok owned := by
    rw [parseComplete, read]
    rfl
  obtain ⟨valid, -, short'⟩ := body_of_parse read
  obtain ⟨sameType, sameBody⟩ := write_congr same
  have known := (new_of_write iterable short written).mpr parsed
  refine ⟨owned, ⟨valid, short'⟩, known, parsed, same, ?_⟩
  apply (write_emits valid.iterable short').mpr
  exact ⟨length, _, lengthEmits, sameBody ▸ bodyEmits, by rw [sameType]⟩

/-- `MqttPacket::new` takes a packet to the one that stands for all packets equal to it:
it loses nothing, packing again changes nothing, and two packets are packed alike
exactly when they compare equal. -/
theorem new_represents {p q : MqttPacket} (sendable : Sendable p) (sendable' : Sendable q)
    (ended : p.writePacket.outcome = .ok ()) (ended' : q.writePacket.outcome = .ok ()) :
    ∃ owned owned', MqttPacket.new p = .ok owned ∧ MqttPacket.new q = .ok owned' ∧
      owned.eq p = .ok true ∧ MqttPacket.new owned = .ok owned ∧
      (owned = owned' ↔ p.eq q = .ok true) := by
  obtain ⟨bytes, written⟩ := sendable.written ended
  obtain ⟨others, written'⟩ := sendable'.written ended'
  obtain ⟨owned, owns⟩ := owns_of_write sendable written
  obtain ⟨owned', owns'⟩ := owns_of_write sendable' written'
  have again : MqttPacket.new owned = .ok owned :=
    (new_of_write owns.sendable.valid.iterable owns.sendable.short owns.rewritten).mpr owns.parsed
  refine ⟨owned, owned', owns.made, owns'.made, owns.same, again, ?_⟩
  constructor
  · rintro rfl
    exact equality.euclid owns.same owns'.same
  · intro same
    have bytes_eq : bytes = others := bytes_congr sendable.valid.iterable
      sendable'.valid.iterable sendable.short sendable'.short written written' same
    have parsed := owns.parsed
    rw [bytes_eq, owns'.parsed] at parsed
    exact (Except.ok.inj parsed).symm

end MqttPacket

end

theorem MqttPacket.sendable_pubackWith {slice : List UInt8}
    (valid : UserProperties.Valid ⟨slice⟩)
    (short : (@MqttPacket.writePacket development (.pubackWith slice)).emitted.length ≤ 268435455) :
    @MqttPacketCodec.Sendable development (.pubackWith slice) := by
  refine @MqttPacketCodec.Sendable.mk development _ ?_ short
  rintro _ ⟨⟩
  exact valid

theorem MqttPacket.new_represents_puback :
    ∃ owned owned',
      @MqttPacket.new development (.pubackWith [0, 1, 107, 0, 1, 118]) = .ok owned ∧
      @MqttPacket.new development (.pubackWith [0, 1, 107, 0, 1, 118, 31, 0, 0]) = .ok owned' ∧
      owned.eq (.pubackWith [0, 1, 107, 0, 1, 118]) = .ok true ∧
      @MqttPacket.new development owned = .ok owned ∧
      (owned = owned' ↔ (MqttPacket.pubackWith [0, 1, 107, 0, 1, 118]).eq
        (.pubackWith [0, 1, 107, 0, 1, 118, 31, 0, 0]) = .ok true) := by
  apply @MqttPacket.new_represents development
  · exact MqttPacket.sendable_pubackWith (UserProperties.valid_iff.mpr (by decide)) (by decide)
  · exact MqttPacket.sendable_pubackWith (UserProperties.valid_iff.mpr (by decide)) (by decide)
  · rfl
  · rfl

end Client
