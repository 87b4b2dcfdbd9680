import Cloudmqtt.V5.Packets.Session

/-! Acknowledgements: PUBACK, PUBREC, PUBREL, PUBCOMP, SUBACK and UNSUBACK.

The first four differ in their reason codes only, and so do the last two.
-/

set_option autoImplicit false

namespace V5

open Base Rust

def acknowledgeFields : List PropertyKind := [.reasonString, .userProperties]

/-- The common type of PUBACK, PUBREC, PUBREL and PUBCOMP. -/
structure Acknowledge (combined : CombinedCodes) where
  packetIdentifier : PacketIdentifier
  reason : CombinedReasonCode combined
  properties : Properties acknowledgeFields

namespace Acknowledge

variable {combined : CombinedCodes}

def parse (success : CombinedReasonCode combined) : MParser (Acknowledge combined) := do
  let packetIdentifier ← PacketIdentifier.parse
  let reason ← unlessEmpty success (CombinedReasonCode.parse combined)
  let properties ← unlessEmpty (Properties.new acknowledgeFields)
    (Properties.parse acknowledgeFields)
  pure ⟨packetIdentifier, reason, properties⟩

def binarySize [Build] (self : Acknowledge combined) : Size :=
  self.packetIdentifier.binarySize + self.reason.binarySize + self.properties.binarySize

def write [Build] (self : Acknowledge combined) : WResult := do
  self.packetIdentifier.write
  self.reason.write
  self.properties.write

def eq (self other : Acknowledge combined) : Except Panic Bool :=
  andAlso (.ok (decide (self.packetIdentifier = other.packetIdentifier)))
    (andAlso (.ok (decide (self.reason = other.reason))) (self.properties.eq other.properties))

end Acknowledge

def pubackReasonCodes : CombinedCodes :=
  ⟨[.implementationSpecificError, .noMatchingSubscribers, .notAuthorized, .packetIdentifierInUse,
    .payloadFormatInvalid, .quotaExceeded, .success, .topicNameInvalid, .unspecifiedError],
    by decide⟩

theorem success_mem_puback : ReasonCode.success ∈ pubackReasonCodes.codes := by decide

abbrev MPuback : Type := Acknowledge pubackReasonCodes

def MPuback.parse : MParser MPuback := Acknowledge.parse ⟨.success, success_mem_puback⟩

def pubrecReasonCodes : CombinedCodes :=
  ⟨[.implementationSpecificError, .noMatchingSubscribers, .notAuthorized, .packetIdentifierInUse,
    .packetIdentifierNotFound, .payloadFormatInvalid, .quotaExceeded, .success, .topicNameInvalid,
    .unspecifiedError], by decide⟩

abbrev MPubrec : Type := Acknowledge pubrecReasonCodes

def MPubrec.parse : MParser MPubrec := Acknowledge.parse ⟨.success, by decide⟩

def pubrelReasonCodes : CombinedCodes := ⟨[.success, .packetIdentifierNotFound], by decide⟩

abbrev MPubrel : Type := Acknowledge pubrelReasonCodes

def MPubrel.parse : MParser MPubrel := Acknowledge.parse ⟨.success, by decide⟩

def pubcompReasonCodes : CombinedCodes := ⟨[.packetIdentifierNotFound, .success], by decide⟩

abbrev MPubcomp : Type := Acknowledge pubcompReasonCodes

def MPubcomp.parse : MParser MPubcomp := Acknowledge.parse ⟨.success, by decide⟩

/-- The common type of SUBACK and UNSUBACK. -/
structure AcknowledgeAll (combined : CombinedCodes) where
  packetIdentifier : PacketIdentifier
  properties : Properties acknowledgeFields
  reasons : List (CombinedReasonCode combined)

namespace AcknowledgeAll

variable {combined : CombinedCodes}

def tryCastSlice (combined : CombinedCodes) (payload : List UInt8) :
    Except ErrMode (List (CombinedReasonCode combined)) :=
  match payload.mapM (CombinedReasonCode.tryFrom combined) with
  | some reasons => .ok reasons
  | none => .error .cut

/-- The payload is checked to hold valid reason codes, then cast. -/
def parseReasons (combined : CombinedCodes) : MParser (List (CombinedReasonCode combined)) := do
  let payload ← (Parser.repeatTillEof (CombinedReasonCode.parse combined) .backtrack 0).recognize
  Parser.lift (tryCastSlice combined payload)

def parse (combined : CombinedCodes) : MParser (AcknowledgeAll combined) := do
  let packetIdentifier ← PacketIdentifier.parse
  let properties ← Properties.parse acknowledgeFields
  let reasons ← parseReasons combined
  pure ⟨packetIdentifier, properties, reasons⟩

def binarySize [Build] (self : AcknowledgeAll combined) : Size :=
  self.packetIdentifier.binarySize + castSize self.reasons.length + self.properties.binarySize

def writeReasons (reasons : List (CombinedReasonCode combined)) : WResult :=
  writeSlice (reasons.map CombinedReasonCode.toU8)

def write [Build] (self : AcknowledgeAll combined) : WResult := do
  self.packetIdentifier.write
  self.properties.write
  writeReasons self.reasons

def eq (self other : AcknowledgeAll combined) : Except Panic Bool :=
  andAlso (.ok (decide (self.packetIdentifier = other.packetIdentifier)))
    (andAlso (self.properties.eq other.properties) (.ok (decide (self.reasons = other.reasons))))

end AcknowledgeAll

def subackReasonCodes : CombinedCodes :=
  ⟨[.grantedQoS0, .grantedQoS1, .grantedQoS2, .implementationSpecificError, .notAuthorized,
    .packetIdentifierInUse, .quotaExceeded, .sharedSubscriptionsNotSupported,
    .subscriptionIdentifiersNotSupported, .topicFilterInvalid, .unspecifiedError,
    .wildcardSubscriptionsNotSupported], by decide⟩

abbrev MSuback : Type := AcknowledgeAll subackReasonCodes

def MSuback.parse : MParser MSuback := AcknowledgeAll.parse subackReasonCodes

def unsubackReasonCodes : CombinedCodes :=
  ⟨[.implementationSpecificError, .noSubscriptionExisted, .notAuthorized, .packetIdentifierInUse,
    .success, .topicFilterInvalid, .unspecifiedError], by decide⟩

abbrev MUnsuback : Type := AcknowledgeAll unsubackReasonCodes

def MUnsuback.parse : MParser MUnsuback := AcknowledgeAll.parse unsubackReasonCodes

/-! ### Laws -/

variable {combined : CombinedCodes}

theorem acknowledgeFields_nodup : acknowledgeFields.Nodup := by decide

theorem AcknowledgeAll.items_reasons {payload : List UInt8}
    {reasons : List (CombinedReasonCode combined)} :
    Parser.Items (CombinedReasonCode.parse combined) payload reasons ↔
      payload = reasons.map CombinedReasonCode.toU8 := by
  constructor
  · intro read
    induction read with
    | nil => rfl
    | cons _ head _ ih =>
      obtain ⟨byte, read, found⟩ := Parser.tryMap_eq_ok.mp head
      rw [u8_eq_ok.mp read, ih, CombinedReasonCode.tryFrom_eq_some.mp found]
      rfl
  · rintro rfl
    induction reasons with
    | nil => exact .nil
    | cons reason more ih =>
      exact .of_reads (c := [reason.toU8]) (by simp)
        ((CombinedReasonCode.exact combined).reads (writeByte_emits.mpr rfl)) ih

theorem AcknowledgeAll.tryCastSlice_toU8 (reasons : List (CombinedReasonCode combined)) :
    tryCastSlice combined (reasons.map CombinedReasonCode.toU8) = .ok reasons := by
  have cast : (reasons.map CombinedReasonCode.toU8).mapM (CombinedReasonCode.tryFrom combined) =
      some reasons := by
    induction reasons with
    | nil => rfl
    | cons reason more ih =>
      rw [List.map_cons, List.mapM_cons, CombinedReasonCode.tryFrom_eq_some.mpr rfl, ih]
      rfl
  rw [tryCastSlice, cast]

theorem AcknowledgeAll.parseReasons_eq_ok {input rest : List UInt8}
    {reasons : List (CombinedReasonCode combined)} :
    parseReasons combined input = .ok (reasons, rest) ↔
      input = reasons.map CombinedReasonCode.toU8 ∧ rest = [] := by
  simp only [parseReasons, Parser.bind_eq_ok, Parser.lift_eq_ok, items_reasons,
    Parser.recognize_repeat_eq_ok (CombinedReasonCode.exact combined).shrinks]
  constructor
  · rintro ⟨_, _, ⟨rfl, rfl, read, rfl, -⟩, cast, rfl⟩
    rw [tryCastSlice_toU8] at cast
    exact ⟨by rw [Except.ok.inj cast], rfl⟩
  · rintro ⟨rfl, rfl⟩
    exact ⟨_, [], ⟨rfl, rfl, reasons, rfl, Nat.zero_le _⟩, tryCastSlice_toU8 reasons, rfl⟩

theorem AcknowledgeAll.reasons_body :
    Body 0 (fun _ => True) (fun a b => .ok (decide (a = b))) (parseReasons combined)
      (fun reasons => castSize reasons.length) writeReasons where
  reads {reasons _} _ emits _ := by
    obtain rfl := writeSlice_emits.mp emits
    exact ⟨reasons, parseReasons_eq_ok.mpr ⟨rfl, rfl⟩, by simp⟩
  size _ emits := by
    obtain rfl := writeSlice_emits.mp emits
    rw [List.length_map]
    exact Size.announces_cast _
  rewrites run := by
    obtain ⟨rfl, -⟩ := parseReasons_eq_ok.mp run
    exact ⟨trivial, _, writeSlice_emits.mpr rfl, by simp⟩

variable [Build]

namespace Acknowledge

theorem long_faithful :
    Faithful (fun self : Acknowledge combined => self.properties.Valid) eq
      (do let packetIdentifier ← PacketIdentifier.parse
          let reason ← CombinedReasonCode.parse combined
          let properties ← Properties.parse acknowledgeFields
          pure ⟨packetIdentifier, reason, properties⟩)
      binarySize write :=
  Faithful.after_two PacketIdentifier.exact (CombinedReasonCode.exact combined)
    (Properties.faithful acknowledgeFields_nodup) Acknowledge.mk packetIdentifier reason properties
    (fun _ _ _ => rfl) (fun _ _ _ => rfl) (fun _ _ _ => rfl)

theorem body (success : CombinedReasonCode combined) :
    Body 4 (fun self : Acknowledge combined => self.properties.Valid) eq (parse success)
      binarySize write where
  reads valid emits short := by
    obtain ⟨b, reads, same⟩ := long_faithful.reads valid emits short
    obtain ⟨id, _, reason, _, properties, idRead, reasonRead, read, made⟩ :=
      Parser.triple_eq_ok.mp reads.whole
    exact ⟨b, Parser.triple_eq_ok.mpr ⟨id, _, reason, _, properties, idRead,
      unlessEmpty_of_ok (CombinedReasonCode.exact _).shrinks reasonRead,
      unlessEmpty_of_ok (Properties.parse_shrinks _) read, made⟩, same⟩
  size := long_faithful.size
  rewrites run := by
    obtain ⟨id, _, reason, _, properties, idRead, reasonRead, read, rfl⟩ :=
      Parser.triple_eq_ok.mp run
    obtain ⟨u, wordRead, rfl⟩ := Parser.map_eq_ok.mp idRead
    obtain rfl := parseU16Nonzero_eq_ok.mp wordRead
    obtain ⟨valid, bytes, emits, fewer⟩ :=
      shortForms_rewrite acknowledgeFields_nodup reasonRead read
    refine ⟨valid, u16Bytes u.get ++ bytes,
      Emit.seq_emits.mpr ⟨_, _, writeU16_emits.mpr rfl, emits, rfl⟩, ?_⟩
    have width : (u16Bytes u.get).length = 2 := rfl
    simp only [List.length_append]
    omega

end Acknowledge

theorem AcknowledgeAll.body :
    Body 0 (fun self : AcknowledgeAll combined => self.properties.Valid ∧ True) eq (parse combined)
      binarySize write :=
  let layout := Body.after_two PacketIdentifier.exact (Properties.faithful acknowledgeFields_nodup)
    reasons_body (@AcknowledgeAll.mk combined) packetIdentifier properties reasons
    (fun _ _ _ => rfl) (fun _ _ _ => rfl) (fun _ _ _ => rfl)
  { reads := layout.reads
    rewrites := layout.rewrites
    -- the sizes are added in another order than the parts are written
    size := fun valid emits => by
      obtain ⟨s, t, u, first, second, last, rfl⟩ := Emit.seq_seq_emits.mp emits
      have sum := ((PacketIdentifier.exact.size first).add (reasons_body.size trivial last)).add
        (Properties.size valid.1 second)
      exact sum.congr (by simp only [List.length_append]; omega) }

end V5
