import Cloudmqtt.V5.Packet

/-! Whole packets are read back as they were written, and what was read can be written again. -/

set_option autoImplicit false

namespace V5

open Base Rust

namespace MqttPacket

theorem parse_eq_ok {input rest : List UInt8} {p : MqttPacket} :
    parse input = .ok (p, rest) ↔ ∃ t tail u body left,
      input = MFixedHeader.toU8 ⟨t⟩ :: tail ∧ parseVariableU32 tail = .ok (u, body ++ rest) ∧
      u.toNat = body.length ∧ parsePacket t body = .ok (p, left) := by
  simp only [parse, MFixedHeader.parse, Parser.bind_eq_ok, Parser.tryMap_eq_ok, u8_eq_ok,
    MFixedHeader.tryFrom_eq_some, Parser.lengthAndThen, lengthTake_eq_ok, Parser.map_eq_ok,
    Parser.lift_eq_ok]
  constructor
  · rintro ⟨⟨t⟩, tail, ⟨_, rfl, rfl⟩, body, _, ⟨u, read, length⟩, packet, rfl⟩
    cases run : parsePacket t body with
    | error e => simp [run, Except.map] at packet
    | ok pair =>
      obtain ⟨q, left⟩ := pair
      simp only [run, Except.map, Except.ok.injEq] at packet
      exact ⟨t, tail, u, body, left, rfl, read, length, packet ▸ run⟩
  · rintro ⟨t, tail, u, body, left, rfl, read, length, run⟩
    exact ⟨⟨t⟩, tail, ⟨_, rfl, rfl⟩, body, rest, ⟨u, read, length⟩, by rw [run]; rfl, rfl⟩

theorem parseComplete_eq_ok {t : PacketType} {u : UInt32} {length data : List UInt8}
    {p : MqttPacket} (announced : (writeVariableU32 u).Emits length ()) :
    parseComplete (MFixedHeader.toU8 ⟨t⟩ :: (length ++ data)) = .ok p ↔
      u.toNat ≤ data.length ∧ ∃ left, parsePacket t (data.take u.toNat) = .ok (p, left) := by
  have read := parseVariableU32_exact.reads announced data
  rw [parseComplete, except_map_eq_ok]
  constructor
  · rintro ⟨⟨_, rest⟩, parsed, rfl⟩
    obtain ⟨t', tail, u', body, left, same, read', length', run⟩ := parse_eq_ok.mp parsed
    obtain ⟨header, rfl⟩ := List.cons.inj same
    obtain ⟨rfl, rfl⟩ := Prod.mk.inj (Except.ok.inj (read.symm.trans read'))
    obtain rfl : t = t' := congrArg MFixedHeader.packetType
      (Option.some.inj ((MFixedHeader.tryFrom_toU8 _).symm.trans
        ((congrArg MFixedHeader.tryFrom header).trans (MFixedHeader.tryFrom_toU8 _))))
    rw [length', List.take_left, List.length_append]
    exact ⟨Nat.le_add_right .., left, run⟩
  · rintro ⟨inside, left, run⟩
    refine ⟨(p, data.drop u.toNat), parse_eq_ok.mpr ⟨t, _, u, data.take u.toNat, left, rfl, ?_, ?_,
      run⟩, rfl⟩
    · rw [List.take_append_drop]
      exact read
    · exact (List.length_take_of_le inside).symm

theorem toNat_ofNat {n : Nat} (short : n ≤ 268435455) : (UInt32.ofNat n).toNat = n :=
  UInt32.toNat_ofNat_of_lt (by rw [UInt32.size]; omega)

theorem eq_publish {q : MqttPacket} {p : MPublish} :
    q.eq (publish p) = .ok true ↔ ∃ r, q = publish r ∧ r.eq p = .ok true := by
  cases q <;> simp [eq]

variable [Build]

/-- A packet whose body is short enough is written as header byte, length field and body. -/
theorem write_emits {p : MqttPacket} (iterable : p.Iterable)
    (short : p.writePacket.emitted.length ≤ 268435455) {bytes : List UInt8} :
    p.write.Emits bytes () ↔ ∃ length body,
      (writeVariableU32 (.ofNat body.length)).Emits length () ∧ p.writePacket.Emits body () ∧
      bytes = MFixedHeader.toU8 ⟨p.packetType⟩ :: (length ++ body) := by
  simp only [write, Emit.seq_emits, MFixedHeader.write, writeByte_emits, writeSized_emits]
  have sized {body : List UInt8} (emits : p.writePacket.Emits body ()) :
      p.packetSize = .ok (.ofNat body.length) := by
    obtain rfl := (Emit.emits_iff.mp emits).1
    exact packetSize_announces iterable emits short
  constructor
  · rintro ⟨_, _, rfl, ⟨length, body, ⟨n, size, lengthEmits⟩, bodyEmits, rfl⟩, rfl⟩
    obtain rfl := Except.ok.inj (size.symm.trans (sized bodyEmits))
    exact ⟨length, body, lengthEmits, bodyEmits, rfl⟩
  · rintro ⟨length, body, lengthEmits, bodyEmits, rfl⟩
    exact ⟨_, _, rfl, ⟨length, body, ⟨_, sized bodyEmits, lengthEmits⟩, bodyEmits, rfl⟩, rfl⟩

theorem parse_frame {p : MqttPacket} {length body : List UInt8} (valid : p.Valid)
    (short : body.length ≤ 268435455)
    (lengthEmits : (writeVariableU32 (.ofNat body.length)).Emits length ())
    (bodyEmits : p.writePacket.Emits body ()) (rest : List UInt8) :
    ∃ q, parse (MFixedHeader.toU8 ⟨p.packetType⟩ :: (length ++ body) ++ rest) = .ok (q, rest) ∧
      q.eq p = .ok true := by
  obtain ⟨q, read, same⟩ := (MqttPacket.body p.packetType).reads ⟨rfl, valid⟩ bodyEmits short
  refine ⟨q, parse_eq_ok.mpr ⟨p.packetType, length ++ (body ++ rest), _, _, [], ?_,
    parseVariableU32_exact.reads lengthEmits _, toNat_ofNat short, read⟩, same⟩
  rw [List.cons_append, List.append_assoc]

/-- Whatever `write` appends, `parse` reads back as an equal packet, and nothing after it. -/
theorem parse_of_write {p : MqttPacket} {bytes : List UInt8} (valid : p.Valid)
    (short : p.writePacket.emitted.length ≤ 268435455) (written : p.write.Emits bytes ())
    (rest : List UInt8) : ∃ q, parse (bytes ++ rest) = .ok (q, rest) ∧ q.eq p = .ok true := by
  obtain ⟨length, body, lengthEmits, bodyEmits, rfl⟩ :=
    (write_emits valid.iterable short).mp written
  obtain rfl := (Emit.emits_iff.mp bodyEmits).1
  exact parse_frame valid short lengthEmits bodyEmits rest

omit [Build] in
theorem parse_of_write_unsuback :
    ∃ q, parse ([0xB0, 0x05, 0x00, 0x07, 0x00, 0x00, 0x11] ++ [0xC0]) = .ok (q, [0xC0]) ∧
      q.eq (.unsuback ⟨⟨⟨7, by decide⟩⟩, .new _,
        [⟨.success, by decide⟩, ⟨.noSubscriptionExisted, by decide⟩]⟩) = .ok true := by
  refine @parse_of_write development _ _ ?_ ?_ ?_ [0xC0]
  · exact Properties.new_valid acknowledgeFields
  · decide
  · rfl

/-- A packet that was read is well formed, and its body can be written. -/
theorem body_of_parse {input rest : List UInt8} {p : MqttPacket}
    (parsed : parse input = .ok (p, rest)) :
    p.Valid ∧ p.writePacket.Emits p.writePacket.emitted () ∧
      p.writePacket.emitted.length ≤ 268435455 := by
  obtain ⟨t, tail, u, body, left, rfl, read, length, run⟩ := parse_eq_ok.mp parsed
  obtain ⟨⟨-, valid⟩, bytes, emits, fewer⟩ := (MqttPacket.body t).rewrites run
  obtain rfl := (Emit.emits_iff.mp emits).1
  have bound := parseVariableU32_le read
  exact ⟨valid, emits, by omega⟩

theorem binarySize_eq {p : MqttPacket} {length body : List UInt8} (iterable : p.Iterable)
    (short : body.length ≤ 268435455)
    (lengthEmits : (writeVariableU32 (.ofNat body.length)).Emits length ())
    (bodyEmits : p.writePacket.Emits body ()) :
    p.binarySize = .ok (.ofNat (1 + length.length + body.length)) := by
  obtain ⟨shape, -, -⟩ := writeVariableU32_emits lengthEmits
  have narrow := shape.length.2
  have size : p.packetSize = .ok (.ofNat body.length) :=
    packetSize_announces iterable bodyEmits short
  have head : MFixedHeader.binarySize + variableU32BinarySize (.ofNat body.length) =
      .ok (.ofNat (1 + length.length)) :=
    ((Size.announces_literal 1).add (parseVariableU32_exact.size lengthEmits)) (by omega)
  rw [binarySize, size]
  change MFixedHeader.binarySize + variableU32BinarySize (.ofNat body.length) +
    Size.value (.ofNat body.length) = _
  rw [head]
  exact addU32_ofNat (by omega)

-- The two checks that `parse` makes and `write` does not are the whole difference.
/-- Of a PUBLISH the writer checks less than the parser: the topic name not at
all, and that there is an identifier only where there must be none. -/
theorem parse_of_write_publish {p : MPublish} {bytes : List UInt8} (valid : p.properties.Valid)
    (short : (publish p).writePacket.emitted.length ≤ 268435455)
    (written : (publish p).write.Emits bytes ()) :
    (∃ q, parseComplete bytes = .ok (publish q) ∧ q.eq p = .ok true) ↔
      sanityCheckTopicName p.topicName = true ∧
        (p.packetIdentifier.isSome ∨ p.qualityOfService = .atMostOnce) := by
  constructor
  · rintro ⟨q, read, same⟩
    obtain ⟨⟨_, rest⟩, parsed, rfl : _ = publish q⟩ := except_map_eq_ok.mp read
    have accepted : q.Valid := (body_of_parse parsed).1
    obtain ⟨-, sameQos, -, sameTopic, sameIdentifier⟩ :=
      of_decide_eq_true (Except.ok.inj (andAlso_eq_true.mp same).1)
    rw [← sameTopic, ← sameIdentifier, ← sameQos]
    refine ⟨accepted.topic, ?_⟩
    by_cases none : q.qualityOfService = .atMostOnce
    · exact .inr none
    · exact .inl (accepted.identifier.mpr none)
  · rintro ⟨sane, needed⟩
    have iterable : (publish p).Iterable := List.forall_mem_singleton.mpr valid
    obtain ⟨length, body, lengthEmits, bodyEmits, rfl⟩ := (write_emits iterable short).mp written
    obtain rfl := (Emit.emits_iff.mp bodyEmits).1
    obtain ⟨-, -, -, -, unneeded, -⟩ := MPublish.write_emits.mp bodyEmits
    have whole : (publish p).Valid := ⟨sane, ⟨fun some none => unneeded ⟨none, some⟩,
      needed.resolve_right⟩, valid⟩
    obtain ⟨q, read, same⟩ := parse_frame whole short lengthEmits bodyEmits []
    rw [List.append_nil] at read
    obtain ⟨r, rfl, same⟩ := eq_publish.mp same
    exact ⟨r, by rw [parseComplete, read]; rfl, same⟩

/-- Everything the parser accepts has a size, can be written, and is read again
as an equal packet that uses up what was written. -/
theorem write_of_parse {input rest : List UInt8} {p : MqttPacket}
    (parsed : parse input = .ok (p, rest)) :
    ∃ size bytes, p.binarySize = .ok size ∧ p.write.Emits bytes () ∧ size.toNat = bytes.length ∧
      ∃ q, parse bytes = .ok (q, []) ∧ q.eq p = .ok true := by
  obtain ⟨valid, bodyEmits, short⟩ := body_of_parse parsed
  obtain ⟨length, lengthEmits⟩ := writeVariableU32_ok
    (u := .ofNat p.writePacket.emitted.length) (by rwa [toNat_ofNat short])
  have written := (write_emits valid.iterable short).mpr ⟨length, _, lengthEmits, bodyEmits, rfl⟩
  obtain ⟨q, read, same⟩ := parse_frame valid short lengthEmits bodyEmits []
  rw [List.append_nil] at read
  obtain ⟨shape, -, -⟩ := writeVariableU32_emits lengthEmits
  have narrow := shape.length.2
  refine ⟨_, _, binarySize_eq valid.iterable short lengthEmits bodyEmits, written, ?_, q, read,
    same⟩
  rw [UInt32.toNat_ofNat_of_lt' (by rw [UInt32.size]; omega)]
  simp only [List.length_cons, List.length_append]
  omega

omit [Build] in
theorem write_of_parse_puback :
    ∃ size bytes, @binarySize development (.puback ⟨⟨⟨1, by decide⟩⟩, ⟨.success, by decide⟩,
        .new _⟩) = .ok size ∧
      (@write development
        (.puback ⟨⟨⟨1, by decide⟩⟩, ⟨.success, by decide⟩, .new _⟩)).Emits bytes () ∧
      size.toNat = bytes.length ∧ ∃ q, parse bytes = .ok (q, []) ∧
        q.eq (.puback ⟨⟨⟨1, by decide⟩⟩, ⟨.success, by decide⟩, .new _⟩) = .ok true :=
  @write_of_parse development [0x40, 0x82, 0x00, 0x00, 0x01] [] _ rfl

end MqttPacket

end V5
