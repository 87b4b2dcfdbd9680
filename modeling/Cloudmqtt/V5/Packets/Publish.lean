import Cloudmqtt.V5.Sections

/-! PUBLISH. Its flags come from the fixed header. -/

set_option autoImplicit false

namespace V5

open Base Rust

def publishFields : List PropertyKind :=
  [.payloadFormatIndicator, .messageExpiryInterval, .topicAlias, .responseTopic, .correlationData,
    .userProperties, .subscriptionIdentifier, .contentType]

structure MPublish where
  duplicate : Bool
  qualityOfService : QualityOfService
  retain : Bool
  topicName : String
  packetIdentifier : Option PacketIdentifier
  properties : Properties publishFields
  payload : List UInt8

-- Called by `parse` and not by `write`.
def sanityCheckTopicName (topicName : String) : Bool :=
  topicName.toList.all fun c => c != '#' && c != '*'

theorem sanityCheckTopicName_iff {s : String} :
    sanityCheckTopicName s = true ↔ '#' ∉ s.toList ∧ '*' ∉ s.toList := by
  simp only [sanityCheckTopicName, List.all_eq_true, Bool.and_eq_true, bne_iff_ne]
  constructor
  · intro all
    exact ⟨fun found => (all _ found).1 rfl, fun found => (all _ found).2 rfl⟩
  · rintro ⟨hash, asterisk⟩ c found
    exact ⟨fun same => hash (same ▸ found), fun same => asterisk (same ▸ found)⟩

namespace MPublish

def parse (duplicate : Bool) (qualityOfService : QualityOfService) (retain : Bool) :
    MParser MPublish := do
  let topicName ← parseString
  if sanityCheckTopicName topicName then
    let packetIdentifier ← optional (qualityOfService ≠ .atMostOnce) PacketIdentifier.parse
    let properties ← Properties.parse publishFields
    let payload ← Parser.finish
    pure ⟨duplicate, qualityOfService, retain, topicName, packetIdentifier, properties, payload⟩
  else Parser.fail .backtrack

def binarySize [Build] (self : MPublish) : Size :=
  stringBinarySize self.topicName +
    optionSize PacketIdentifier.binarySize self.packetIdentifier +
    self.properties.binarySize + castSize self.payload.length

-- The check comes after the topic name is written. That an identifier is missing
-- where the quality of service needs one is not checked.
def write [Build] (self : MPublish) : WResult := do
  writeString self.topicName
  if self.qualityOfService = .atMostOnce ∧ self.packetIdentifier.isSome then
    Emit.fault (.error .invariant)
  else
    writeOption PacketIdentifier.write self.packetIdentifier
    self.properties.write
    writeSlice self.payload

def eq (self other : MPublish) : Except Panic Bool :=
  andAlso (.ok (decide (self.duplicate = other.duplicate ∧
      self.qualityOfService = other.qualityOfService ∧ self.retain = other.retain ∧
      self.topicName = other.topicName ∧ self.packetIdentifier = other.packetIdentifier)))
    (andAlso (self.properties.eq other.properties) (.ok (decide (self.payload = other.payload))))

/-- What `parse` leaves behind: an identifier exactly when the quality of service needs one. -/
structure Valid (p : MPublish) : Prop where
  topic : sanityCheckTopicName p.topicName = true
  identifier : p.packetIdentifier.isSome ↔ p.qualityOfService ≠ .atMostOnce
  properties : p.properties.Valid

/-! ### Laws -/

theorem identifier_eq_ok {qos : QualityOfService} {input rest : List UInt8}
    {identifier : Option PacketIdentifier} :
    optional (qos ≠ .atMostOnce) PacketIdentifier.parse input = .ok (identifier, rest) ↔
      (identifier.isSome ↔ qos ≠ .atMostOnce) ∧
        ∃ bytes, (writeOption PacketIdentifier.write identifier).Emits bytes () ∧
          input = bytes ++ rest := by
  unfold optional
  by_cases none : qos = .atMostOnce
  · simp only [none, ne_eq, not_true, decide_false, Bool.false_eq_true, if_false,
      Parser.pure_apply, Except.ok.injEq, Prod.mk.injEq]
    cases identifier with
    | none => simp [writeOption]
    | some pi => simp
  · simp only [none, ne_eq, not_false_iff, decide_true, if_true, Parser.map_eq_ok]
    cases identifier with
    | none => simp
    | some pi =>
      obtain ⟨u⟩ := pi
      simp [writeOption, PacketIdentifier.parse, PacketIdentifier.write, Parser.map_eq_ok,
        parseU16Nonzero_eq_ok, writeU16_emits]

theorem parse_eq_ok {dup : Bool} {qos : QualityOfService} {retain : Bool}
    {input rest : List UInt8} {self : MPublish} :
    parse dup qos retain input = .ok (self, rest) ↔
      self.duplicate = dup ∧ self.qualityOfService = qos ∧ self.retain = retain ∧
      sanityCheckTopicName self.topicName = true ∧
      (self.packetIdentifier.isSome ↔ self.qualityOfService ≠ .atMostOnce) ∧ rest = [] ∧
      ∃ topic identifier tail, (writeString self.topicName).Emits topic () ∧
        (writeOption PacketIdentifier.write self.packetIdentifier).Emits identifier () ∧
        Properties.parse publishFields tail = .ok (self.properties, self.payload) ∧
        input = topic ++ (identifier ++ tail) := by
  constructor
  · intro run
    obtain ⟨topicName, middle, topicRead, run⟩ := Parser.bind_eq_ok.mp run
    by_cases sane : sanityCheckTopicName topicName = true
    · rw [if_pos sane] at run
      obtain ⟨identifier, tail, identifierRead, run⟩ := Parser.bind_eq_ok.mp run
      obtain ⟨properties, payload, read, run⟩ := Parser.bind_eq_ok.mp run
      obtain ⟨_, _, last, run⟩ := Parser.bind_eq_ok.mp run
      obtain ⟨rfl, rfl⟩ := Prod.mk.inj (Except.ok.inj last)
      obtain ⟨rfl, rfl⟩ := Prod.mk.inj (Except.ok.inj run)
      obtain ⟨short, rfl⟩ := parseString_eq_ok.mp topicRead
      obtain ⟨needed, bytes, emits, rfl⟩ := identifier_eq_ok.mp identifierRead
      exact ⟨rfl, rfl, rfl, sane, needed, rfl, _, bytes, tail,
        writeString_emits.mpr ⟨short, rfl⟩, emits, read, rfl⟩
    · rw [if_neg sane] at run
      simp [Parser.fail] at run
  · rintro ⟨rfl, rfl, rfl, sane, needed, rfl, topic, identifier, tail, topicEmits, emits, read, rfl⟩
    refine Parser.bind_eq_ok.mpr ⟨self.topicName, identifier ++ tail,
      parseString_exact.reads topicEmits _, ?_⟩
    rw [if_pos sane]
    exact Parser.bind_eq_ok.mpr ⟨self.packetIdentifier, tail,
      identifier_eq_ok.mpr ⟨needed, identifier, emits, rfl⟩,
      Parser.bind_eq_ok.mpr ⟨self.properties, self.payload, read,
        Parser.bind_eq_ok.mpr ⟨self.payload, [], rfl, rfl⟩⟩⟩

theorem write_emits [Build] {self : MPublish} {bytes : List UInt8} :
    self.write.Emits bytes () ↔ ∃ topic identifier section_,
      (writeString self.topicName).Emits topic () ∧
      ¬ (self.qualityOfService = .atMostOnce ∧ self.packetIdentifier.isSome = true) ∧
      (writeOption PacketIdentifier.write self.packetIdentifier).Emits identifier () ∧
      self.properties.write.Emits section_ () ∧
      bytes = topic ++ (identifier ++ (section_ ++ self.payload)) := by
  by_cases invariant : self.qualityOfService = .atMostOnce ∧ self.packetIdentifier.isSome = true
  · simp [write, Emit.seq_emits, invariant]
  · simp only [write, invariant, if_false, Emit.seq_emits, writeSlice_emits]
    constructor
    · rintro ⟨topic, _, topicEmits, ⟨identifier, _, emits, ⟨section_, _, sectionEmits, rfl, rfl⟩,
        rfl⟩, rfl⟩
      exact ⟨topic, identifier, section_, topicEmits, not_false, emits, sectionEmits, rfl⟩
    · rintro ⟨topic, identifier, section_, topicEmits, -, emits, sectionEmits, rfl⟩
      exact ⟨topic, _, topicEmits, ⟨identifier, _, emits, ⟨section_, _, sectionEmits, rfl, rfl⟩,
        rfl⟩, rfl⟩

/-- The size is right for packets that the parser would refuse, too. -/
theorem size [Build] {self : MPublish} (valid : self.properties.Valid) {bytes : List UInt8}
    (emits : self.write.Emits bytes ()) : self.binarySize.Announces bytes.length := by
  obtain ⟨topic, identifier, section_, topicEmits, -, idEmits, sectionEmits, rfl⟩ :=
    write_emits.mp emits
  have sum := (((parseString_exact.size topicEmits).add
    (optionSize_announces PacketIdentifier.exact idEmits)).add
    (Properties.size valid sectionEmits)).add (Size.announces_cast self.payload.length)
  exact sum.congr (by simp only [List.length_append]; omega)

theorem publishFields_nodup : publishFields.Nodup := by decide

theorem body [Build] (dup : Bool) (qos : QualityOfService) (retain : Bool) :
    Body 0 (fun self => (self.duplicate = dup ∧ self.qualityOfService = qos ∧
        self.retain = retain) ∧ self.Valid) eq (parse dup qos retain) binarySize write where
  reads {self bytes} valid emits short := by
    obtain ⟨⟨hDup, hQos, hRetain⟩, valid⟩ := valid
    obtain ⟨topic, identifier, section_, topicEmits, -, idEmits, sectionEmits, rfl⟩ :=
      write_emits.mp emits
    simp only [List.length_append] at short
    obtain ⟨properties, reads, same⟩ :=
      Properties.reads publishFields_nodup valid.properties sectionEmits (by omega)
    refine ⟨{ self with properties }, parse_eq_ok.mpr ⟨hDup, hQos, hRetain, valid.topic,
      valid.identifier, rfl, topic, identifier, _, topicEmits, idEmits, reads _, rfl⟩, ?_⟩
    exact andAlso_eq_true.mpr ⟨by simp, andAlso_eq_true.mpr ⟨same, by simp⟩⟩
  size valid emits := size valid.2.properties emits
  rewrites {input rest self} run := by
    obtain ⟨hDup, hQos, hRetain, sane, needed, -, topic, identifier, tail, topicEmits, idEmits,
      read, rfl⟩ := parse_eq_ok.mp run
    obtain ⟨valid, section_, sectionEmits, fewer⟩ := Properties.rewrites publishFields_nodup read
    refine ⟨⟨⟨hDup, hQos, hRetain⟩, sane, needed, valid⟩, _, write_emits.mpr
      ⟨topic, identifier, section_, topicEmits, ?_, idEmits, sectionEmits, rfl⟩, ?_⟩
    · rintro ⟨none, some⟩
      exact needed.mp some none
    · simp only [List.length_append]
      omega

end MPublish

end V5
