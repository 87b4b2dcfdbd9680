import Cloudmqtt.V5.FixedHeader
import Cloudmqtt.V5.ReasonCode
import Cloudmqtt.V5.Sections

/-! Packets of a session: AUTH, CONNACK, DISCONNECT, PINGREQ and PINGRESP. -/

set_option autoImplicit false

namespace V5

open Base Rust

/-! ### AUTH -/

def authReasonCodes : CombinedCodes :=
  ⟨[.continueAuthentication, .reAuthenticate, .success], by decide⟩

def authFields : List PropertyKind :=
  [.authenticationMethod, .authenticationData, .reasonString, .userProperties]

structure MAuth where
  reason : CombinedReasonCode authReasonCodes
  properties : Properties authFields

namespace MAuth

def parse : MParser MAuth := do
  let reason ← CombinedReasonCode.parse authReasonCodes
  let properties ← Properties.parse authFields
  pure ⟨reason, properties⟩

def binarySize [Build] (self : MAuth) : Size :=
  self.reason.binarySize + self.properties.binarySize

def write [Build] (self : MAuth) : WResult := do
  self.reason.write
  self.properties.write

def eq (self other : MAuth) : Except Panic Bool :=
  andAlso (.ok (decide (self.reason = other.reason))) (self.properties.eq other.properties)

end MAuth

/-! ### CONNACK -/

def connackReasonCodes : CombinedCodes :=
  ⟨[.success, .unspecifiedError, .malformedPacket, .protocolError, .implementationSpecificError,
    .clientIdentifierNotValid, .badUsernameOrPassword, .notAuthorized, .serverUnavailable,
    .serverBusy, .banned, .badAuthenticationMethod, .topicNameInvalid, .packetTooLarge,
    .quotaExceeded, .payloadFormatInvalid, .retainNotSupported, .qoSNotSupported,
    .useAnotherServer, .serverMoved, .connectionRateExceeded], by decide⟩

theorem success_mem_connack : ReasonCode.success ∈ connackReasonCodes.codes := by decide

def connackFields : List PropertyKind :=
  [.sessionExpiryInterval, .receiveMaximum, .maximumQoS, .retainAvailable, .maximumPacketSize,
    .assignedClientIdentifier, .topicAliasMaximum, .reasonString, .userProperties,
    .wildcardSubscriptionAvailable, .subscriptionIdentifiersAvailable,
    .sharedSubscriptionAvailable, .serverKeepAlive, .responseInformation, .serverReference,
    .authenticationMethod, .authenticationData]

structure MConnack where
  sessionPresent : Bool
  reasonCode : CombinedReasonCode connackReasonCodes
  properties : Properties connackFields

namespace MConnack

/-- The acknowledge flags: the top bit, then seven zero bits. -/
def tryFlags (byte : UInt8) : Option Bool :=
  if takeBits byte 1 7 = 0 then some (takeBits byte 0 1 == 1) else none

def flags (sessionPresent : Bool) : UInt8 := sessionPresent.toUInt8 <<< 7

def parse : MParser MConnack := do
  let sessionPresent ← Parser.tryMap u8 tryFlags .backtrack
  let reasonCode ← CombinedReasonCode.parse connackReasonCodes
  let properties ← Properties.parse connackFields
  pure ⟨sessionPresent, reasonCode, properties⟩

def binarySize [Build] (self : MConnack) : Size :=
  1 + self.reasonCode.binarySize + self.properties.binarySize

def write [Build] (self : MConnack) : WResult := do
  writeByte (flags self.sessionPresent)
  self.reasonCode.write
  self.properties.write

def eq (self other : MConnack) : Except Panic Bool :=
  andAlso (.ok (self.sessionPresent == other.sessionPresent))
    (andAlso (.ok (decide (self.reasonCode = other.reasonCode)))
      (self.properties.eq other.properties))

end MConnack

/-! ### DISCONNECT -/

def disconnectReasonCodes : CombinedCodes :=
  ⟨[.administrativeAction, .connectionRateExceeded, .disconnectWithWillMessage,
    .implementationSpecificError, .keepAliveTimeout, .malformedPacket, .maximumConnectTime,
    .messageRateTooHigh, .normalDisconnection, .notAuthorized, .packetTooLarge,
    .payloadFormatInvalid, .protocolError, .qoSNotSupported, .quotaExceeded,
    .receiveMaximumExceeded, .retainNotSupported, .serverBusy, .serverMoved, .serverShuttingDown,
    .sessionTakenOver, .sharedSubscriptionsNotSupported, .subscriptionIdentifiersNotSupported,
    .topicAliasInvalid, .topicFilterInvalid, .topicNameInvalid, .unspecifiedError,
    .useAnotherServer, .wildcardSubscriptionsNotSupported], by decide⟩

def disconnectFields : List PropertyKind :=
  [.sessionExpiryInterval, .reasonString, .userProperties, .serverReference]

structure MDisconnect where
  reasonCode : CombinedReasonCode disconnectReasonCodes
  properties : Properties disconnectFields

namespace MDisconnect

def normalDisconnection : CombinedReasonCode disconnectReasonCodes :=
  ⟨.normalDisconnection, by decide⟩

def parse : MParser MDisconnect := do
  let reasonCode ← unlessEmpty normalDisconnection (CombinedReasonCode.parse disconnectReasonCodes)
  let properties ← unlessEmpty (Properties.new disconnectFields) (Properties.parse disconnectFields)
  pure ⟨reasonCode, properties⟩

-- `write` and `binary_size` compare with the default packet; comparing properties
-- can unwind in the iterator of the user properties, but not against empty ones.
/-- The reason code is the default one and there are no properties, so nothing is written. -/
def isShortPacket (self : MDisconnect) : Except Panic Bool :=
  andAlso (.ok (decide (self.reasonCode = normalDisconnection)))
    (self.properties.eq (Properties.new disconnectFields))

def binarySize [Build] (self : MDisconnect) : Size :=
  match self.isShortPacket with
  | .ok true => 0
  | .ok false => self.reasonCode.binarySize + self.properties.binarySize
  | .error p => Size.panic p

def write [Build] (self : MDisconnect) : WResult :=
  match self.isShortPacket with
  | .ok true => pure ()
  | .ok false => do
    self.reasonCode.write
    self.properties.write
  | .error p => Emit.fault (.panic p)

def eq (self other : MDisconnect) : Except Panic Bool :=
  andAlso (.ok (decide (self.reasonCode = other.reasonCode))) (self.properties.eq other.properties)

end MDisconnect

/-! ### PINGREQ and PINGRESP -/

structure MPingreq where
  deriving DecidableEq, Inhabited

def MPingreq.parse : MParser MPingreq := (fun _ => ⟨⟩) <$> Parser.eof .backtrack

def MPingreq.binarySize (_ : MPingreq) : Size := 0

def MPingreq.write (_ : MPingreq) : WResult := pure ()

structure MPingresp where
  deriving DecidableEq, Inhabited

def MPingresp.parse : MParser MPingresp := (fun _ => ⟨⟩) <$> Parser.eof .backtrack

def MPingresp.binarySize (_ : MPingresp) : Size := 0

def MPingresp.write (_ : MPingresp) : WResult := pure ()

/-! ### Laws -/

theorem MConnack.tryFlags_eq_some {byte : UInt8} {sessionPresent : Bool} :
    tryFlags byte = some sessionPresent ↔ byte = flags sessionPresent := by
  apply tryFrom_eq_some_of_forall
  · decide +kernel
  · intro present
    cases present <;> rfl

theorem MPingreq.body :
    Body 0 (fun _ => True) (fun self other => .ok (decide (self = other))) MPingreq.parse
      MPingreq.binarySize MPingreq.write :=
  .nothing fun _ => rfl

theorem MPingresp.body :
    Body 0 (fun _ => True) (fun self other => .ok (decide (self = other))) MPingresp.parse
      MPingresp.binarySize MPingresp.write :=
  .nothing fun _ => rfl

variable [Build]

theorem MAuth.faithful :
    Faithful (fun self : MAuth => self.properties.Valid) MAuth.eq MAuth.parse MAuth.binarySize
      MAuth.write :=
  Faithful.after_one (CombinedReasonCode.exact authReasonCodes) (Properties.faithful (by decide))
    MAuth.mk MAuth.reason MAuth.properties (fun _ _ => rfl) (fun _ _ => rfl)

theorem MConnack.faithful :
    Faithful (fun self : MConnack => self.properties.Valid) MConnack.eq MConnack.parse
      MConnack.binarySize MConnack.write :=
  Faithful.after_two (enum_exact fun _ _ => tryFlags_eq_some)
    (CombinedReasonCode.exact connackReasonCodes) (Properties.faithful (by decide)) MConnack.mk
    MConnack.sessionPresent MConnack.reasonCode MConnack.properties (fun _ _ _ => rfl)
    (fun _ _ _ => rfl) (fun _ _ _ => rfl)

/-- Reason code and properties, where a packet may end before either. What was left
out is written in two bytes. -/
theorem shortForms_rewrite {combined : CombinedCodes} {fields : List PropertyKind}
    (distinct : fields.Nodup) {default reason : CombinedReasonCode combined}
    {input middle rest : List UInt8} {properties : Properties fields}
    (first : unlessEmpty default (CombinedReasonCode.parse combined) input = .ok (reason, middle))
    (second : unlessEmpty (.new fields) (Properties.parse fields) middle = .ok (properties, rest)) :
    properties.Valid ∧ ∃ bytes,
      (do reason.write; properties.write : WResult).Emits bytes () ∧
        bytes.length ≤ max 2 input.length := by
  have reasonEmits : reason.write.Emits [reason.toU8] () := writeByte_emits.mpr rfl
  rcases unlessEmpty_eq_ok.mp second with ⟨rfl, rfl, rfl⟩ | ⟨more, read⟩
  · exact ⟨Properties.new_valid fields, [reason.toU8] ++ [0],
      Emit.seq_emits.mpr ⟨_, _, reasonEmits, Properties.new_write_emits fields, rfl⟩, by simp⟩
  · rcases unlessEmpty_eq_ok.mp first with ⟨rfl, rfl, rfl⟩ | ⟨-, reasonRead⟩
    · exact absurd rfl more
    · have shorter := (CombinedReasonCode.exact combined).shrinks _ _ _ reasonRead
      obtain ⟨valid, bytes, emits, fewer⟩ := Properties.rewrites distinct read
      refine ⟨valid, [reason.toU8] ++ bytes, Emit.seq_emits.mpr ⟨_, _, reasonEmits, emits, rfl⟩, ?_⟩
      simp only [List.length_append, List.length_singleton]
      omega

namespace MDisconnect

theorem long_faithful :
    Faithful (fun self : MDisconnect => self.properties.Valid) MDisconnect.eq
      (do let reasonCode ← CombinedReasonCode.parse disconnectReasonCodes
          let properties ← Properties.parse disconnectFields
          pure ⟨reasonCode, properties⟩)
      (fun self => self.reasonCode.binarySize + self.properties.binarySize)
      (fun self => do self.reasonCode.write; self.properties.write) :=
  Faithful.after_one (CombinedReasonCode.exact disconnectReasonCodes)
    (Properties.faithful (by decide)) MDisconnect.mk reasonCode properties (fun _ _ => rfl)
    (fun _ _ => rfl)

omit [Build] in
theorem isShortPacket_ok (self : MDisconnect) : ∃ short, self.isShortPacket = .ok short := by
  unfold isShortPacket
  rw [Properties.eq_new]
  cases decide (self.reasonCode = normalDisconnection) <;> exact ⟨_, rfl⟩

omit [Build] in
theorem isShortPacket_true {self : MDisconnect} :
    self.isShortPacket = .ok true ↔ self = ⟨normalDisconnection, .new disconnectFields⟩ := by
  obtain ⟨reasonCode, properties⟩ := self
  simp only [isShortPacket, andAlso_eq_true, Properties.eq_new_true, Except.ok.injEq,
    decide_eq_true_eq, mk.injEq]

theorem body :
    Body 2 (fun self : MDisconnect => self.properties.Valid) MDisconnect.eq MDisconnect.parse
      MDisconnect.binarySize MDisconnect.write where
  reads {self bytes} valid emits short := by
    obtain ⟨isShort, packet⟩ := self.isShortPacket_ok
    simp only [write, packet] at emits
    cases isShort with
    | true =>
      obtain ⟨rfl, -⟩ := Emit.pure_emits.mp emits
      obtain rfl := isShortPacket_true.mp packet
      exact ⟨_, rfl, packet⟩
    | false =>
      obtain ⟨b, reads, same⟩ := long_faithful.reads valid emits short
      obtain ⟨reason, middle, properties, reasonRead, read, made⟩ :=
        Parser.pair_eq_ok.mp reads.whole
      exact ⟨b, Parser.pair_eq_ok.mpr ⟨reason, middle, properties,
        unlessEmpty_of_ok (CombinedReasonCode.exact _).shrinks reasonRead,
        unlessEmpty_of_ok (Properties.parse_shrinks _) read, made⟩, same⟩
  size {self bytes} valid emits := by
    obtain ⟨isShort, packet⟩ := self.isShortPacket_ok
    simp only [write, packet] at emits
    simp only [binarySize, packet]
    cases isShort with
    | true =>
      obtain ⟨rfl, -⟩ := Emit.pure_emits.mp emits
      exact Size.announces_literal 0
    | false => exact long_faithful.size valid emits
  rewrites {input rest self} run := by
    obtain ⟨reason, middle, properties, reasonRead, read, rfl⟩ := Parser.pair_eq_ok.mp run
    have distinct : disconnectFields.Nodup := by decide
    obtain ⟨valid, bytes, emits, fewer⟩ := shortForms_rewrite distinct reasonRead read
    obtain ⟨isShort, packet⟩ := isShortPacket_ok ⟨reason, properties⟩
    simp only [write, packet]
    cases isShort with
    | true => exact ⟨valid, [], Emit.pure_emits.mpr ⟨rfl, rfl⟩, by simp⟩
    | false => exact ⟨valid, bytes, emits, by omega⟩

end MDisconnect

end V5
