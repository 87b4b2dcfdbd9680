import Cloudmqtt.V5.RoundTrip

/-! The lengths that a written packet announces, of itself and of its property sections. -/

set_option autoImplicit false

namespace V5

open Base Rust

namespace MqttPacket

variable [Build]

def Section.WrittenIn (s : Section) (body : List UInt8) : Prop :=
  ∃ front written back, s.front.Emits front () ∧ s.properties.write.Emits written () ∧
    body = front ++ (written ++ back)

theorem Section.writtenIn_last {s : Section} {body : List UInt8}
    (emits : (do s.front; s.properties.write).Emits body ()) : s.WrittenIn body := by
  obtain ⟨front, written, first, second, rfl⟩ := Emit.seq_emits.mp emits
  exact ⟨front, written, [], first, second, by rw [List.append_nil]⟩

theorem Section.writtenIn_before {s : Section} {rest : WResult} {body : List UInt8}
    (emits : (do s.front; s.properties.write; rest).Emits body ()) : s.WrittenIn body := by
  simp only [Emit.seq_emits] at emits
  obtain ⟨front, _, first, ⟨written, back, second, -, rfl⟩, rfl⟩ := emits
  exact ⟨front, written, back, first, second, rfl⟩

-- The second section of a CONNECT stands inside its will, so the parts before it are
-- regrouped around it.
theorem connect_sections_written {p : MConnect} {body : List UInt8}
    (emits : p.write.Emits body ()) {s : Section} (member : s ∈ (connect p).sections) :
    s.WrittenIn body := by
  have split : p.write = (do
      p.writeHeader
      p.properties.write
      writeString p.clientIdentifier
      writeOption Will.write p.will
      writeOption writeString p.username
      writeOption writeBinaryData p.password) := by
    simp only [MConnect.writeHeader, Emit.seq_assoc]
    rfl
  rw [split] at emits
  rcases List.mem_cons.mp member with rfl | member
  · exact Section.writtenIn_before emits
  · obtain ⟨will, held, rfl⟩ := List.mem_map.mp member
    rw [Option.mem_toList.mp held] at emits
    have inWill : Emit.Emits (do
        (do p.writeHeader; p.properties.write; writeString p.clientIdentifier)
        will.properties.write
        (do writeString will.topic
            writeBinaryData will.payload
            writeOption writeString p.username
            writeOption writeBinaryData p.password)) body () := by
      simp only [Emit.seq_assoc]
      simpa only [writeOption, Will.write, Emit.seq_assoc] using emits
    exact Section.writtenIn_before inWill

theorem sections_written {p : MqttPacket} {body : List UInt8} (emits : p.writePacket.Emits body ())
    {s : Section} (member : s ∈ p.sections) : s.WrittenIn body := by
  cases p with
  | connect p => exact connect_sections_written emits member
  | auth p =>
    obtain rfl := List.mem_singleton.mp member
    exact Section.writtenIn_last emits
  | connack p =>
    obtain rfl := List.mem_singleton.mp member
    exact Section.writtenIn_last (Emit.seq_assoc _ _ _ ▸ emits)
  | puback p | pubcomp p | pubrec p | pubrel p =>
    obtain rfl := List.mem_singleton.mp member
    exact Section.writtenIn_last (Emit.seq_assoc _ _ _ ▸ emits)
  | suback p | subscribe p | unsuback p | unsubscribe p =>
    obtain rfl := List.mem_singleton.mp member
    exact Section.writtenIn_before emits
  | disconnect p =>
    obtain ⟨isShort, packet⟩ := p.isShortPacket_ok
    cases isShort with
    | true => simp [sections, packet] at member
    | false =>
      simp only [sections, packet, List.mem_singleton] at member
      subst member
      simp only [writePacket, MDisconnect.write, packet] at emits
      exact Section.writtenIn_last emits
  | publish p =>
    obtain rfl := List.mem_singleton.mp member
    obtain ⟨topic, identifier, section_, topicEmits, -, idEmits, sectionEmits, rfl⟩ :=
      MPublish.write_emits.mp emits
    exact ⟨topic ++ identifier, section_, p.payload,
      Emit.seq_emits.mpr ⟨topic, identifier, topicEmits, idEmits, rfl⟩, sectionEmits, by simp⟩
  | pingreq p => exact absurd member List.not_mem_nil
  | pingresp p => exact absurd member List.not_mem_nil

/-- The length that a section begins with is that of what all its slots are written as. -/
theorem Section.announces {s : Section} (valid : s.properties.Valid) {written : List UInt8}
    (emits : s.properties.write.Emits written ()) (short : written.length ≤ 268435455)
    (after : List UInt8) :
    ∃ length, parseVariableU32 (written ++ after) = .ok (length, s.properties.body ++ after) ∧
      length.toNat = s.properties.body.length := by
  have shorter := Properties.body_le emits
  obtain ⟨field, fieldEmits, rfl, -⟩ := (Properties.write_emits valid (by omega)).mp emits
  refine ⟨_, ?_, toNat_ofNat (by omega)⟩
  rw [List.append_assoc]
  exact parseVariableU32_exact.reads fieldEmits _

/-- A packet that is written has the size computed for it, the length field is
that of the bytes behind it, and so is the one in front of each section. -/
theorem write_announces {p : MqttPacket} (iterable : p.Iterable)
    (short : p.writePacket.emitted.length ≤ 268435455) {bytes : List UInt8}
    (written : p.write.Emits bytes ()) :
    (∃ size, p.binarySize = .ok size ∧ size.toNat = bytes.length) ∧
      ∃ header tail length body, bytes = header :: tail ∧
        parseVariableU32 tail = .ok (length, body) ∧ length.toNat = body.length ∧
        ∀ s ∈ p.sections, ∃ front announced n after, s.front.Emits front () ∧
          body = front ++ announced ∧
          parseVariableU32 announced = .ok (n, s.properties.body ++ after) ∧
          n.toNat = s.properties.body.length := by
  obtain ⟨field, body, fieldEmits, bodyEmits, rfl⟩ := (write_emits iterable short).mp written
  obtain rfl := (Emit.emits_iff.mp bodyEmits).1
  obtain ⟨shape, -, -⟩ := writeVariableU32_emits fieldEmits
  have narrow := shape.length.2
  refine ⟨⟨_, binarySize_eq iterable short fieldEmits bodyEmits, ?_⟩, _, _, _, _, rfl,
    parseVariableU32_exact.reads fieldEmits _, toNat_ofNat short, fun s member => ?_⟩
  · rw [UInt32.toNat_ofNat_of_lt' (by rw [UInt32.size]; omega)]
    simp only [List.length_cons, List.length_append]
    omega
  · obtain ⟨front, announced, after, frontEmits, sectionEmits, same⟩ :=
      sections_written bodyEmits member
    have lengths := congrArg List.length same
    rw [List.length_append, List.length_append] at lengths
    obtain ⟨n, read, length⟩ :=
      Section.announces (iterable s member) sectionEmits (by omega) after
    exact ⟨front, announced ++ after, n, after, frontEmits, same, read, length⟩

def connectWithWill : MConnect :=
  ⟨"c", none, none, true, some ⟨.new _, "t", [1, 2], .atLeastOnce, false⟩, .new _, 60⟩

omit [Build] in
theorem write_announces_connect : ∃ bytes,
    (@write development (.connect connectWithWill)).Emits bytes () ∧
    (∃ size, @binarySize development (.connect connectWithWill) = .ok size ∧
      size.toNat = bytes.length) ∧
    ∃ header tail length body, bytes = header :: tail ∧
      parseVariableU32 tail = .ok (length, body) ∧ length.toNat = body.length ∧
      ∀ s ∈ @sections development (.connect connectWithWill), ∃ front announced n after,
        s.front.Emits front () ∧ body = front ++ announced ∧
        parseVariableU32 announced = .ok (n, s.properties.body ++ after) ∧
        n.toNat = s.properties.body.length := by
  refine ⟨_, rfl, @write_announces development _ ?_ ?_ _ rfl⟩
  · refine @Valid.iterable development (.connect connectWithWill) ⟨Properties.new_valid _, ?_⟩
    rintro _ ⟨⟩
    exact Properties.new_valid _
  · decide

end MqttPacket

end V5
