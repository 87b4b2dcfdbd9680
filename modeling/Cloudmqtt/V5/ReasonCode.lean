import Cloudmqtt.V5.Strings
import Mathlib.Data.List.Nodup

/-! Reason codes, and the selections of them that the packet types accept. -/

set_option autoImplicit false

namespace V5

open Base Rust

inductive ReasonCode where
  | grantedQoS0
  | normalDisconnection
  | success
  | grantedQoS1
  | grantedQoS2
  | disconnectWithWillMessage
  | noMatchingSubscribers
  | noSubscriptionExisted
  | continueAuthentication
  | reAuthenticate
  | unspecifiedError
  | malformedPacket
  | protocolError
  | implementationSpecificError
  | unsupportedProtocolVersion
  | clientIdentifierNotValid
  | badUsernameOrPassword
  | notAuthorized
  | serverUnavailable
  | serverBusy
  | banned
  | serverShuttingDown
  | badAuthenticationMethod
  | keepAliveTimeout
  | sessionTakenOver
  | topicFilterInvalid
  | topicNameInvalid
  | packetIdentifierInUse
  | packetIdentifierNotFound
  | receiveMaximumExceeded
  | topicAliasInvalid
  | packetTooLarge
  | messageRateTooHigh
  | quotaExceeded
  | administrativeAction
  | payloadFormatInvalid
  | retainNotSupported
  | qoSNotSupported
  | useAnotherServer
  | serverMoved
  | sharedSubscriptionsNotSupported
  | connectionRateExceeded
  | maximumConnectTime
  | subscriptionIdentifiersNotSupported
  | wildcardSubscriptionsNotSupported
  deriving DecidableEq

namespace ReasonCode

def code : ReasonCode → UInt8
  | grantedQoS0 => 0x00
  | normalDisconnection => 0x00
  | success => 0x00
  | grantedQoS1 => 0x01
  | grantedQoS2 => 0x02
  | disconnectWithWillMessage => 0x04
  | noMatchingSubscribers => 0x10
  | noSubscriptionExisted => 0x11
  | continueAuthentication => 0x18
  | reAuthenticate => 0x19
  | unspecifiedError => 0x80
  | malformedPacket => 0x81
  | protocolError => 0x82
  | implementationSpecificError => 0x83
  | unsupportedProtocolVersion => 0x84
  | clientIdentifierNotValid => 0x85
  | badUsernameOrPassword => 0x86
  | notAuthorized => 0x87
  | serverUnavailable => 0x88
  | serverBusy => 0x89
  | banned => 0x8A
  | serverShuttingDown => 0x8B
  | badAuthenticationMethod => 0x8C
  | keepAliveTimeout => 0x8D
  | sessionTakenOver => 0x8E
  | topicFilterInvalid => 0x8F
  | topicNameInvalid => 0x90
  | packetIdentifierInUse => 0x91
  | packetIdentifierNotFound => 0x92
  | receiveMaximumExceeded => 0x93
  | topicAliasInvalid => 0x94
  | packetTooLarge => 0x95
  | messageRateTooHigh => 0x96
  | quotaExceeded => 0x97
  | administrativeAction => 0x98
  | payloadFormatInvalid => 0x99
  | retainNotSupported => 0x9A
  | qoSNotSupported => 0x9B
  | useAnotherServer => 0x9C
  | serverMoved => 0x9D
  | sharedSubscriptionsNotSupported => 0x9E
  | connectionRateExceeded => 0x9F
  | maximumConnectTime => 0xA0
  | subscriptionIdentifiersNotSupported => 0xA1
  | wildcardSubscriptionsNotSupported => 0xA2

end ReasonCode

/-- The variants of a combined reason code. As discriminants, their codes differ. -/
structure CombinedCodes where
  codes : List ReasonCode
  distinct : (codes.map ReasonCode.code).Nodup

/-- A value of the enumeration that `make_combined_reason_code!` defines. -/
structure CombinedReasonCode (combined : CombinedCodes) where
  reason : ReasonCode
  member : reason ∈ combined.codes
  deriving DecidableEq

namespace CombinedReasonCode

variable {combined : CombinedCodes}

def toU8 (self : CombinedReasonCode combined) : UInt8 := self.reason.code

def tryFrom (combined : CombinedCodes) (byte : UInt8) : Option (CombinedReasonCode combined) :=
  match found : combined.codes.find? fun reason => reason.code = byte with
  | some reason => some ⟨reason, List.mem_of_find?_eq_some found⟩
  | none => none

def parse (combined : CombinedCodes) : MParser (CombinedReasonCode combined) :=
  Parser.tryMap u8 (tryFrom combined) .backtrack

def binarySize (_ : CombinedReasonCode combined) : Size := 1

def write (self : CombinedReasonCode combined) : WResult := writeByte self.toU8

theorem tryFrom_eq_some {byte : UInt8} {self : CombinedReasonCode combined} :
    tryFrom combined byte = some self ↔ byte = self.toU8 := by
  obtain ⟨reason, member⟩ := self
  unfold tryFrom toU8
  constructor
  · intro found
    split at found
    next other named =>
      have code := List.find?_some named
      simp only [decide_eq_true_eq] at code
      simp only [Option.some.injEq, mk.injEq] at found
      exact code.symm.trans (congrArg ReasonCode.code found)
    next => simp at found
  · rintro rfl
    split
    next other named =>
      have code := List.find?_some named
      simp only [decide_eq_true_eq] at code
      have same := List.inj_on_of_nodup_map combined.distinct
        (List.mem_of_find?_eq_some named) member code
      simp [same]
    next missing => simpa using List.find?_eq_none.mp missing reason member

theorem exact (combined : CombinedCodes) :
    Exact (parse combined) binarySize (write : CombinedReasonCode combined → WResult) :=
  enum_exact fun _ _ => tryFrom_eq_some

end CombinedReasonCode

end V5
