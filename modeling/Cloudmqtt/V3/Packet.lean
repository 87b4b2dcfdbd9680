import Cloudmqtt.V3.Header
import Cloudmqtt.V3.Subscriptions

/-! The packets of the MQTT 3.1.1 format, their writer and their parser. -/

set_option autoImplicit false

namespace V3

open Base Rust

open V5 (takeBits)

/-! ### Packets -/

structure MLastWill where
  topic : MString
  payload : List UInt8
  qos : MQualityOfService
  retain : Bool
  deriving DecidableEq

def MLastWill.getLen (self : MLastWill) : Nat := self.topic.getLen + (2 + self.payload.length)

inductive MConnectReturnCode where
  | accepted
  | protocolNotAccepted
  | identifierRejected
  | serverUnavailable
  | badUsernamePassword
  | notAuthorized
  deriving DecidableEq, Repr

def MConnectReturnCode.toByte : MConnectReturnCode → UInt8
  | accepted => 0x0
  | protocolNotAccepted => 0x1
  | identifierRejected => 0x2
  | serverUnavailable => 0x3
  | badUsernamePassword => 0x4
  | notAuthorized => 0x5

def MConnectReturnCode.ofByte : UInt8 → Option MConnectReturnCode
  | 0 => some accepted
  | 1 => some protocolNotAccepted
  | 2 => some identifierRejected
  | 3 => some serverUnavailable
  | 4 => some badUsernamePassword
  | 5 => some notAuthorized
  | _ => none

structure MConnect where
  protocolName : MString
  protocolLevel : UInt8
  cleanSession : Bool
  will : Option MLastWill
  username : Option MString
  password : Option (List UInt8)
  keepAlive : UInt16
  clientId : MString
  deriving DecidableEq

structure MConnack where
  sessionPresent : Bool
  connectReturnCode : MConnectReturnCode
  deriving DecidableEq

structure MPublish where
  dup : Bool
  qos : MQualityOfService
  retain : Bool
  topicName : MString
  id : Option MPacketIdentifier
  payload : List UInt8
  deriving DecidableEq

structure MPuback where
  id : MPacketIdentifier
  deriving DecidableEq

structure MPubrec where
  id : MPacketIdentifier
  deriving DecidableEq

structure MPubrel where
  id : MPacketIdentifier
  deriving DecidableEq

structure MPubcomp where
  id : MPacketIdentifier
  deriving DecidableEq

structure MSubscribe where
  id : MPacketIdentifier
  subscriptions : MSubscriptionRequests
  deriving DecidableEq

structure MSuback where
  id : MPacketIdentifier
  subscriptionAcks : MSubscriptionAcks
  deriving DecidableEq

structure MUnsubscribe where
  id : MPacketIdentifier
  unsubscriptions : MUnsubscriptionRequests
  deriving DecidableEq

structure MUnsuback where
  id : MPacketIdentifier
  deriving DecidableEq

structure MPingreq where
  deriving DecidableEq

structure MPingresp where
  deriving DecidableEq

structure MDisconnect where
  deriving DecidableEq

inductive MPacket where
  | connect (packet : MConnect)
  | connack (packet : MConnack)
  | publish (packet : MPublish)
  | puback (packet : MPuback)
  | pubrec (packet : MPubrec)
  | pubrel (packet : MPubrel)
  | pubcomp (packet : MPubcomp)
  | subscribe (packet : MSubscribe)
  | suback (packet : MSuback)
  | unsubscribe (packet : MUnsubscribe)
  | unsuback (packet : MUnsuback)
  | pingreq (packet : MPingreq)
  | pingresp (packet : MPingresp)
  | disconnect (packet : MDisconnect)
  deriving DecidableEq

/-! ### Writing -/

def ifSome {α : Type} (option : Option α) (write : α → Write) : Write :=
  match option with
  | some value => write value
  | none => pure ()

def writePayload (data : List UInt8) : Write := do
  writeAll (toBeBytes (.ofNat data.length))
  writeAll data

def boolsToU8 (b0 b1 b2 b3 b4 b5 b6 b7 : Bool) : UInt8 :=
  (b0.toUInt8 <<< 7) ||| (b1.toUInt8 <<< 6) ||| (b2.toUInt8 <<< 5) ||| (b3.toUInt8 <<< 4) |||
    (b4.toUInt8 <<< 3) ||| (b5.toUInt8 <<< 2) ||| (b6.toUInt8 <<< 1) ||| b7.toUInt8

-- The two bits of the will's quality of service are "exactly once" and "not exactly
-- once", so that "at most once" gets the bits of "at least once".
def MConnect.connectFlags (self : MConnect) : UInt8 :=
  boolsToU8 self.username.isSome self.password.isSome
    ((self.will.map (·.retain)).getD false)
    ((self.will.map (decide <| ·.qos = .exactlyOnce)).getD false)
    ((self.will.map (decide <| ·.qos ≠ .exactlyOnce)).getD false)
    self.will.isSome self.cleanSession false

-- The lengths are those of slices in memory, whose sum fits a `usize`.
def MConnect.remainingLength (self : MConnect) : Nat :=
  10 + self.clientId.getLen + (self.will.map MLastWill.getLen).getD 0 +
    (self.username.map MString.getLen).getD 0 + (self.password.map (2 + ·.length)).getD 0

def MConnect.writeBody (self : MConnect) : Write := do
  self.protocolName.writeTo
  writeAll [self.protocolLevel]
  writeAll [self.connectFlags]
  writeAll (toBeBytes self.keepAlive)
  self.clientId.writeTo
  ifSome self.will fun will => do
    will.topic.writeTo
    writePayload will.payload
  ifSome self.username MString.writeTo
  ifSome self.password writePayload

def MPublish.remainingLength (self : MPublish) : Nat :=
  self.topicName.getLen + (self.id.map MPacketIdentifier.getLen).getD 0 + self.payload.length

def MPublish.packetType (self : MPublish) : UInt8 :=
  let dupMask : UInt8 := if self.dup then 0b0000_1000 else 0
  let qosMask := self.qos.toByte <<< 1
  0b0011_0000 ||| dupMask ||| qosMask ||| self.retain.toUInt8

def MPublish.writeBody (self : MPublish) : Write := do
  self.topicName.writeTo
  ifSome self.id MPacketIdentifier.writeTo
  writeAll self.payload

def writeFramed (packetType : UInt8) (remainingLength : Nat) (body : Write) : Write := do
  writeAll [packetType]
  writeRemainingLength remainingLength
  body

def MPacket.writeTo : MPacket → Write
  | connect packet => writeFramed 0b0001_0000 packet.remainingLength packet.writeBody
  | connack packet => writeFramed 0b0010_0000 2
      (writeAll [packet.sessionPresent.toUInt8, packet.connectReturnCode.toByte])
  | publish packet => writeFramed packet.packetType packet.remainingLength packet.writeBody
  | puback packet => writeFramed 0b0100_0000 2 packet.id.writeTo
  | pubrec packet => writeFramed 0b0101_0000 2 packet.id.writeTo
  | pubrel packet => writeFramed 0b0110_0010 2 packet.id.writeTo
  | pubcomp packet => writeFramed 0b0111_0000 2 packet.id.writeTo
  | subscribe packet =>
    writeFramed 0b1000_0010 (packet.id.getLen + packet.subscriptions.getLen) do
      packet.id.writeTo
      packet.subscriptions.writeTo
  | suback packet =>
    writeFramed 0b1001_0000 (packet.id.getLen + packet.subscriptionAcks.getLen) do
      packet.id.writeTo
      packet.subscriptionAcks.writeTo
  | unsubscribe _ => Emit.fault (.panic .todo)
  | unsuback _ => Emit.fault (.panic .todo)
  | pingreq _ => writeAll [0b1100_0000, 0b0]
  | pingresp _ => writeAll [0b1101_0000, 0b0]
  | disconnect _ => Emit.fault (.panic .todo)

/-! ### Parsing -/

def mconnectreturn : MParser MConnectReturnCode := do
  let returnCode ← u8
  orRefuse (MConnectReturnCode.ofByte returnCode)

def mpayload : MParser (List UInt8) := do
  take (← beU16).toNat

/-- The bits of the CONNECT flags, from the highest on. -/
structure ConnectFlags where
  userName : UInt8
  password : UInt8
  willRetain : UInt8
  willQos : UInt8
  will : UInt8
  cleanSession : UInt8
  reserved : UInt8

def connectFlags (byte : UInt8) : ConnectFlags where
  userName := takeBits byte 0 1
  password := takeBits byte 1 1
  willRetain := takeBits byte 2 1
  willQos := takeBits byte 3 2
  will := takeBits byte 5 1
  cleanSession := takeBits byte 6 1
  reserved := takeBits byte 7 1

def mlastwill (flags : ConnectFlags) : MParser MLastWill := do
  let topic ← mstring
  let payload ← mpayload
  let qos ← orRefuse (mqualityOfService flags.willQos)
  pure ⟨topic, payload, qos, flags.willRetain != 0⟩

/-- The `Connect` arm of `mpacketdata`. -/
def mconnect : MParser MConnect := do
  let protocolName ← mstring
  ensure (protocolName.value == "MQTT")
  let protocolLevel ← u8
  ensure (protocolLevel == 4)
  let flags ← bits connectFlags
  ensure (flags.reserved == 0)
  ensure (!(flags.will == 0 && flags.willQos != 0))
  let keepAlive ← beU16
  let clientId ← mstring
  let will ← whenFlag (flags.will == 1) (mlastwill flags)
  let username ← whenFlag (flags.userName == 1) mstring
  let password ← whenFlag (flags.password == 1) mpayload
  pure {
    protocolName, protocolLevel, will, username, password, keepAlive, clientId
    cleanSession := flags.cleanSession == 1 }

def mconnack : MParser MConnack := do
  let (reserved, sessionPresent) ← bits fun byte => (takeBits byte 0 7, takeBits byte 7 1)
  ensure (reserved == 0)
  let connectReturnCode ← mconnectreturn
  pure ⟨sessionPresent == 1, connectReturnCode⟩

section

variable [Build] [Target]

def mpublish (dup : Bool) (qos : MQualityOfService) (retain : Bool) (remainingLength : UInt32) :
    MParser MPublish := do
  let variableHeaderStart ← unread
  let topicName ← mstring
  let id ← whenFlag (qos != .atMostOnce) mpacketidentifier
  ensure (!(dup && qos == .atMostOnce))
  let variableHeaderEnd ← unread
  let variableHeaderLen ←
    liftPanic (subUsize variableHeaderStart.length variableHeaderEnd.length)
  let payloadLength ← orRefuse (checkedSubU32 remainingLength (.ofNat variableHeaderLen))
  let payload ← take payloadLength.toNat
  pure { dup, qos, retain, topicName, id, payload }

def mpacketdata (fixedHeader : MPacketHeader) : MParser MPacket :=
  match fixedHeader.kind with
  | .connect => MPacket.connect <$> mconnect
  | .connack => MPacket.connack <$> mconnack
  | .publish dup qos retain =>
    MPacket.publish <$> mpublish dup qos retain fixedHeader.remainingLength
  | .puback => (fun id => MPacket.puback ⟨id⟩) <$> mpacketidentifier
  | .pubrec => (fun id => MPacket.pubrec ⟨id⟩) <$> mpacketidentifier
  | .pubrel => (fun id => MPacket.pubrel ⟨id⟩) <$> mpacketidentifier
  | .pubcomp => (fun id => MPacket.pubcomp ⟨id⟩) <$> mpacketidentifier
  | .subscribe => do
    let id ← mpacketidentifier
    let subscriptions ← msubscriptionrequests
    pure (.subscribe ⟨id, subscriptions⟩)
  | .suback => do
    let id ← mpacketidentifier
    let subscriptionAcks ← msubscriptionacks
    pure (.suback ⟨id, subscriptionAcks⟩)
  | .unsubscribe => do
    let id ← mpacketidentifier
    let unsubscriptions ← munsubscriptionrequests
    pure (.unsubscribe ⟨id, unsubscriptions⟩)
  | .unsuback => (fun id => MPacket.unsuback ⟨id⟩) <$> mpacketidentifier
  | .pingreq => pure (.pingreq .mk)
  | .pingresp => pure (.pingresp .mk)
  | .disconnect => pure (.disconnect .mk)

-- What `mpacketdata` leaves of the announced bytes is dropped by `and_then`.
def mpacket : MParser MPacket := do
  let header ← mfixedheader
  andThen (take header.remainingLength.toNat) (mpacketdata header)

end

end V3
