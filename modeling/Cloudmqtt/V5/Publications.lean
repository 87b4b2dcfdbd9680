import Cloudmqtt.V5.Complete

/-! What an accepted PUBLISH observes of the protocol. The parser of the body is
given the flags of the fixed header, and checks the topic name against two characters.
-/

set_option autoImplicit false

namespace V5

open Base Rust

/-- DUP is clear where nothing is delivered twice, an identifier is there when it is
needed, and the topic name has no wildcard and no null character. -/
structure MPublish.Invariants (p : MPublish) : Prop where
  duplicate : p.qualityOfService = .atMostOnce → p.duplicate = false
  identifier : p.packetIdentifier.isSome ↔ p.qualityOfService ≠ .atMostOnce
  topic : ∀ c ∈ ['#', '+', Char.ofNat 0], c ∉ p.topicName.toList

def topicBytes (input : List UInt8) : List UInt8 :=
  let body := input.tail.drop (fieldWidth input.tail)
  (body.take (dataWidth body)).drop 2

theorem topicBytes_eq {header : UInt8} {length data rest : List UInt8}
    (shape : VariableBytes length) (short : data.length ≤ 65535) :
    topicBytes (header :: (length ++ (prefixed data ++ rest))) = data := by
  have width : dataWidth (prefixed data ++ rest) = 2 + data.length := dataWidth_append short rest
  rw [topicBytes, List.tail_cons, fieldWidth_append shape, List.drop_left, width,
    ← length_prefixed, List.take_left]
  rfl

namespace MqttPacket

theorem publish_of_parse {input rest : List UInt8} {p : MPublish}
    (run : parse input = .ok (.publish p, rest)) :
    input.head? = some (MFixedHeader.toU8 ⟨.publish p.duplicate p.qualityOfService p.retain⟩) ∧
      topicBytes input = asBytes p.topicName ∧ p.Valid := by
  have : Build := development
  have valid := (body_of_parse run).1
  obtain ⟨t, tail, u, body, left, rfl, read, length, bodyRun⟩ := parse_eq_ok.mp run
  obtain ⟨⟨rfl, -⟩, -⟩ := (MqttPacket.body t).rewrites bodyRun
  obtain ⟨field, shape, rfl, rfl⟩ := parseVariableU32With_eq_ok.mp read
  obtain ⟨q, bodyRead, same⟩ := Parser.map_eq_ok.mp bodyRun
  obtain rfl := MqttPacket.publish.inj same
  obtain ⟨-, -, -, -, -, -, topic, identifier, left, topicEmits, -, -, rfl⟩ :=
    MPublish.parse_eq_ok.mp bodyRead
  obtain ⟨short, rfl⟩ := writeString_emits.mp topicEmits
  refine ⟨rfl, ?_, valid⟩
  rw [List.append_assoc]
  exact topicBytes_eq shape (by rwa [length_asBytes])

/-- Of the invariants only that an identifier is there when it is needed holds for
whatever is accepted. -/
theorem publish_invariants_iff {input rest : List UInt8} {p : MPublish}
    (run : parse input = .ok (.publish p, rest)) :
    p.Invariants ↔ (input.head? ≠ some 0x38 ∧ input.head? ≠ some 0x39) ∧
      0x2B ∉ topicBytes input ∧ 0x00 ∉ topicBytes input := by
  obtain ⟨header, topic, valid⟩ := publish_of_parse run
  have duplicate : (p.qualityOfService = .atMostOnce → p.duplicate = false) ↔
      input.head? ≠ some 0x38 ∧ input.head? ≠ some 0x39 := by
    rw [header]
    cases p.duplicate <;> cases p.qualityOfService <;> cases p.retain <;> decide
  have plus : '+' ∉ p.topicName.toList ↔ 0x2B ∉ topicBytes input := by
    rw [topic, mem_asBytes (by decide)]
    exact Iff.rfl
  have null : Char.ofNat 0 ∉ p.topicName.toList ↔ 0x00 ∉ topicBytes input := by
    rw [topic, mem_asBytes (by decide)]
    exact Iff.rfl
  have hash := (sanityCheckTopicName_iff.mp valid.topic).1
  rw [← duplicate, ← plus, ← null]
  constructor
  · intro invariants
    exact ⟨invariants.duplicate, invariants.topic '+' (by simp), invariants.topic _ (by simp)⟩
  · rintro ⟨duplicate, plus, null⟩
    refine ⟨duplicate, valid.identifier, ?_⟩
    simp only [List.forall_mem_cons, List.not_mem_nil, false_implies, implies_true, and_true]
    exact ⟨hash, plus, null⟩

theorem publish_invariants_iff_plain : ∃ p,
    parse [0x30, 0x04, 0x00, 0x01, 0x61, 0x00] = .ok (.publish p, []) ∧
      (p.Invariants ↔
        (([0x30, 0x04, 0x00, 0x01, 0x61, 0x00] : List UInt8).head? ≠ some 0x38 ∧
          ([0x30, 0x04, 0x00, 0x01, 0x61, 0x00] : List UInt8).head? ≠ some 0x39) ∧
        0x2B ∉ topicBytes [0x30, 0x04, 0x00, 0x01, 0x61, 0x00] ∧
          0x00 ∉ topicBytes [0x30, 0x04, 0x00, 0x01, 0x61, 0x00]) := by
  have accepted : ∃ p,
      parse [0x30, 0x04, 0x00, 0x01, 0x61, 0x00] = .ok (.publish p, []) := ⟨_, rfl⟩
  obtain ⟨p, run⟩ := accepted
  exact ⟨p, run, publish_invariants_iff run⟩

/-- The second delivery of a message that is delivered at most once, and a name
with a wildcard. -/
theorem publish_accepts_violations :
    (∃ p, parse [0x38, 0x04, 0x00, 0x01, 0x61, 0x00] = .ok (.publish p, []) ∧ ¬ p.Invariants) ∧
      ∃ p, parse [0x30, 0x04, 0x00, 0x01, 0x2B, 0x00] = .ok (.publish p, []) ∧ ¬ p.Invariants := by
  constructor
  · refine ⟨_, rfl, fun invariants => ?_⟩
    have duplicate := invariants.duplicate rfl
    cases duplicate
  · refine ⟨_, rfl, fun invariants => ?_⟩
    exact invariants.topic '+' (by simp) (by decide)

end MqttPacket

end V5
