import Cloudmqtt.V5.Packets.Acknowledge
import Cloudmqtt.V5.Packets.Connect
import Cloudmqtt.V5.Packets.Publish
import Cloudmqtt.V5.Packets.Subscribe

/-! Control packets: the fixed header, the remaining length and the body of one packet type. -/

set_option autoImplicit false

namespace V5

open Base Rust

inductive MqttPacket where
  | auth (packet : MAuth)
  | connack (packet : MConnack)
  | connect (packet : MConnect)
  | disconnect (packet : MDisconnect)
  | pingreq (packet : MPingreq)
  | pingresp (packet : MPingresp)
  | puback (packet : MPuback)
  | pubcomp (packet : MPubcomp)
  | publish (packet : MPublish)
  | pubrec (packet : MPubrec)
  | pubrel (packet : MPubrel)
  | suback (packet : MSuback)
  | subscribe (packet : MSubscribe)
  | unsuback (packet : MUnsuback)
  | unsubscribe (packet : MUnsubscribe)

namespace MqttPacket

def parsePacket : PacketType → MParser MqttPacket
  | .connect => .connect <$> MConnect.parse
  | .connack => .connack <$> MConnack.parse
  | .publish dup qos retain => .publish <$> MPublish.parse dup qos retain
  | .puback => .puback <$> MPuback.parse
  | .pubrec => .pubrec <$> MPubrec.parse
  | .pubrel => .pubrel <$> MPubrel.parse
  | .pubcomp => .pubcomp <$> MPubcomp.parse
  | .subscribe => .subscribe <$> MSubscribe.parse
  | .suback => .suback <$> MSuback.parse
  | .unsubscribe => .unsubscribe <$> MUnsubscribe.parse
  | .unsuback => .unsuback <$> MUnsuback.parse
  | .pingreq => .pingreq <$> MPingreq.parse
  | .pingresp => .pingresp <$> MPingresp.parse
  | .disconnect => .disconnect <$> MDisconnect.parse
  | .auth => .auth <$> MAuth.parse

def parse : MParser MqttPacket := do
  let fixedHeader ← MFixedHeader.parse
  Parser.lengthAndThen (UInt32.toNat <$> parseVariableU32) (parsePacket fixedHeader.packetType)
    .backtrack

def parseComplete (input : List UInt8) : Except ErrMode MqttPacket :=
  (parse input).map Prod.fst

def packetType : MqttPacket → PacketType
  | auth _ => .auth
  | connack _ => .connack
  | connect _ => .connect
  | disconnect _ => .disconnect
  | pingreq _ => .pingreq
  | pingresp _ => .pingresp
  | puback _ => .puback
  | pubcomp _ => .pubcomp
  | publish p => .publish p.duplicate p.qualityOfService p.retain
  | pubrec _ => .pubrec
  | pubrel _ => .pubrel
  | suback _ => .suback
  | subscribe _ => .subscribe
  | unsuback _ => .unsuback
  | unsubscribe _ => .unsubscribe

def eq : MqttPacket → MqttPacket → Except Panic Bool
  | auth p, auth q => p.eq q
  | connack p, connack q => p.eq q
  | connect p, connect q => p.eq q
  | disconnect p, disconnect q => p.eq q
  | pingreq p, pingreq q => .ok (decide (p = q))
  | pingresp p, pingresp q => .ok (decide (p = q))
  | puback p, puback q => p.eq q
  | pubcomp p, pubcomp q => p.eq q
  | publish p, publish q => p.eq q
  | pubrec p, pubrec q => p.eq q
  | pubrel p, pubrel q => p.eq q
  | suback p, suback q => p.eq q
  | subscribe p, subscribe q => p.eq q
  | unsuback p, unsuback q => p.eq q
  | unsubscribe p, unsubscribe q => p.eq q
  | _, _ => .ok false

section

variable [Build]

def packetSize : MqttPacket → Size
  | auth p => p.binarySize
  | connack p => p.binarySize
  | connect p => p.binarySize
  | disconnect p => p.binarySize
  | pingreq p => p.binarySize
  | pingresp p => p.binarySize
  | puback p => p.binarySize
  | pubcomp p => p.binarySize
  | publish p => p.binarySize
  | pubrec p => p.binarySize
  | pubrel p => p.binarySize
  | suback p => p.binarySize
  | subscribe p => p.binarySize
  | unsuback p => p.binarySize
  | unsubscribe p => p.binarySize

def binarySize (self : MqttPacket) : Size :=
  self.packetSize.bind fun packetSize =>
    MFixedHeader.binarySize + variableU32BinarySize packetSize + Size.value packetSize

def writePacket : MqttPacket → WResult
  | auth p => p.write
  | connack p => p.write
  | connect p => p.write
  | disconnect p => p.write
  | pingreq p => p.write
  | pingresp p => p.write
  | puback p => p.write
  | pubcomp p => p.write
  | publish p => p.write
  | pubrec p => p.write
  | pubrel p => p.write
  | suback p => p.write
  | subscribe p => p.write
  | unsuback p => p.write
  | unsubscribe p => p.write

/-- The arms of `write`, which differ in their packet type only. -/
def write (self : MqttPacket) : WResult := do
  MFixedHeader.write ⟨self.packetType⟩
  writeSized self.packetSize writeVariableU32
  self.writePacket

end

/-- The slices in the packet come from their parsers, and a PUBLISH is one that
its parser would accept. -/
def Valid : MqttPacket → Prop
  | auth p => p.properties.Valid
  | connack p => p.properties.Valid
  | connect p => p.Valid
  | disconnect p => p.properties.Valid
  | pingreq _ => True
  | pingresp _ => True
  | puback p => p.properties.Valid
  | pubcomp p => p.properties.Valid
  | publish p => p.Valid
  | pubrec p => p.properties.Valid
  | pubrel p => p.properties.Valid
  | suback p => p.properties.Valid
  | subscribe p => p.properties.Valid ∧ p.subscriptions.Valid Subscription.parse
  | unsuback p => p.properties.Valid
  | unsubscribe p => p.properties.Valid ∧ p.unsubscriptions.Valid Unsubscription.parse

structure Section where
  front : WResult
  fields : List PropertyKind
  properties : Properties fields

/-- The sections that `writePacket` writes; a DISCONNECT in its short form has none. -/
def sections [Build] : MqttPacket → List Section
  | auth p => [⟨p.reason.write, _, p.properties⟩]
  | connack p =>
    [⟨do writeByte (MConnack.flags p.sessionPresent); p.reasonCode.write, _, p.properties⟩]
  | connect p =>
    ⟨p.writeHeader, _, p.properties⟩ :: p.will.toList.map fun will =>
      ⟨do p.writeHeader; p.properties.write; writeString p.clientIdentifier, _, will.properties⟩
  | disconnect p =>
    match p.isShortPacket with
    | .ok true => []
    | _ => [⟨p.reasonCode.write, _, p.properties⟩]
  | pingreq _ | pingresp _ => []
  | puback p => [⟨do p.packetIdentifier.write; p.reason.write, _, p.properties⟩]
  | pubcomp p => [⟨do p.packetIdentifier.write; p.reason.write, _, p.properties⟩]
  | publish p =>
    [⟨do writeString p.topicName; writeOption PacketIdentifier.write p.packetIdentifier, _,
      p.properties⟩]
  | pubrec p => [⟨do p.packetIdentifier.write; p.reason.write, _, p.properties⟩]
  | pubrel p => [⟨do p.packetIdentifier.write; p.reason.write, _, p.properties⟩]
  | suback p => [⟨p.packetIdentifier.write, _, p.properties⟩]
  | subscribe p => [⟨p.packetIdentifier.write, _, p.properties⟩]
  | unsuback p => [⟨p.packetIdentifier.write, _, p.properties⟩]
  | unsubscribe p => [⟨p.packetIdentifier.write, _, p.properties⟩]

def Iterable [Build] (self : MqttPacket) : Prop := ∀ s ∈ self.sections, s.properties.Valid

end MqttPacket

/-! ### Laws -/

theorem Body.variant {α : Type} [Build] {least : Nat} {valid : α → Prop}
    {eq : α → α → Except Panic Bool} {parse : MParser α} {size : α → Size} {write : α → WResult}
    (body : Body least valid eq parse size write) (le : least ≤ 4) (make : α → MqttPacket)
    {among : MqttPacket → Prop} (cases : ∀ {p}, among p ↔ ∃ a, p = make a ∧ valid a)
    (hEq : ∀ a b, (make a).eq (make b) = eq a b) (hSize : ∀ a, (make a).packetSize = size a)
    (hWrite : ∀ a, (make a).writePacket = write a) :
    Body 4 among MqttPacket.eq (make <$> parse) MqttPacket.packetSize MqttPacket.writePacket where
  reads valid emits short := by
    obtain ⟨a, rfl, inner⟩ := cases.mp valid
    obtain ⟨b, read, same⟩ := body.reads inner (hWrite a ▸ emits) short
    exact ⟨make b, Parser.map_eq_ok.mpr ⟨b, read, rfl⟩, (hEq b a).trans same⟩
  size valid emits := by
    obtain ⟨a, rfl, inner⟩ := cases.mp valid
    rw [hSize]
    exact body.size inner (hWrite a ▸ emits)
  rewrites run := by
    obtain ⟨a, read, rfl⟩ := Parser.map_eq_ok.mp run
    obtain ⟨valid, bytes, emits, fewer⟩ := body.rewrites read
    exact ⟨cases.mpr ⟨a, rfl, valid⟩, bytes, (hWrite a).symm ▸ emits, by omega⟩

namespace MqttPacket

variable [Build]

theorem write_emitted (self : MqttPacket) :
    ∃ more, self.write.emitted = MFixedHeader.toU8 ⟨self.packetType⟩ :: more :=
  ⟨_, rfl⟩

theorem body (t : PacketType) :
    Body 4 (fun p => p.packetType = t ∧ p.Valid) eq (parsePacket t) packetSize writePacket := by
  cases t
  case' connect =>
    refine MConnect.body.variant (by decide) connect ?_ (fun _ _ => rfl) (fun _ => rfl) fun _ => rfl
  case' connack =>
    refine MConnack.faithful.body.variant (by decide) connack ?_ (fun _ _ => rfl)
      (fun _ => rfl) fun _ => rfl
  case' publish dup qos retain =>
    refine (MPublish.body dup qos retain).variant (by decide) publish ?_ (fun _ _ => rfl)
      (fun _ => rfl) fun _ => rfl
  case' puback =>
    refine (Acknowledge.body _).variant (by decide) puback ?_ (fun _ _ => rfl)
      (fun _ => rfl) fun _ => rfl
  case' pubrec =>
    refine (Acknowledge.body _).variant (by decide) pubrec ?_ (fun _ _ => rfl)
      (fun _ => rfl) fun _ => rfl
  case' pubrel =>
    refine (Acknowledge.body _).variant (by decide) pubrel ?_ (fun _ _ => rfl)
      (fun _ => rfl) fun _ => rfl
  case' pubcomp =>
    refine (Acknowledge.body _).variant (by decide) pubcomp ?_ (fun _ _ => rfl)
      (fun _ => rfl) fun _ => rfl
  case' subscribe =>
    refine MSubscribe.body.variant (by decide) subscribe ?_ (fun _ _ => rfl)
      (fun _ => rfl) fun _ => rfl
  case' suback =>
    refine AcknowledgeAll.body.variant (by decide) suback ?_ (fun _ _ => rfl)
      (fun _ => rfl) fun _ => rfl
  case' unsubscribe =>
    refine MUnsubscribe.body.variant (by decide) unsubscribe ?_ (fun _ _ => rfl)
      (fun _ => rfl) fun _ => rfl
  case' unsuback =>
    refine AcknowledgeAll.body.variant (by decide) unsuback ?_ (fun _ _ => rfl)
      (fun _ => rfl) fun _ => rfl
  case' pingreq =>
    refine MPingreq.body.variant (by decide) pingreq ?_ (fun _ _ => rfl) (fun _ => rfl) fun _ => rfl
  case' pingresp =>
    refine MPingresp.body.variant (by decide) pingresp ?_ (fun _ _ => rfl)
      (fun _ => rfl) fun _ => rfl
  case' disconnect =>
    refine MDisconnect.body.variant (by decide) disconnect ?_ (fun _ _ => rfl)
      (fun _ => rfl) fun _ => rfl
  case' auth =>
    refine MAuth.faithful.body.variant (by decide) auth ?_ (fun _ _ => rfl)
      (fun _ => rfl) fun _ => rfl
  all_goals
    intro p
    cases p <;> simp [packetType, Valid]

theorem iterable_connect {p : MConnect} : (connect p).Iterable ↔ p.Valid := by
  simp only [Iterable, sections, List.forall_mem_cons, List.forall_mem_map, Option.mem_toList]
  exact ⟨fun ⟨properties, will⟩ => ⟨properties, will⟩, fun valid => ⟨valid.1, valid.2⟩⟩

theorem iterable_disconnect {p : MDisconnect} :
    (disconnect p).Iterable ↔ p.properties.Valid := by
  obtain ⟨isShort, packet⟩ := p.isShortPacket_ok
  cases isShort with
  | true =>
    obtain rfl := MDisconnect.isShortPacket_true.mp packet
    exact iff_of_true (by simp [Iterable, sections, packet]) (Properties.new_valid _)
  | false => simp [Iterable, sections, packet]

/-- The size of a body that is written, also where the parser would refuse it. -/
theorem packetSize_announces {self : MqttPacket} (iterable : self.Iterable) {bytes : List UInt8}
    (emits : self.writePacket.Emits bytes ()) : self.packetSize.Announces bytes.length := by
  cases self with
  | auth p => exact MAuth.faithful.size (iterable _ List.mem_cons_self) emits
  | connack p => exact MConnack.faithful.size (iterable _ List.mem_cons_self) emits
  | connect p => exact MConnect.size (iterable_connect.mp iterable) emits
  | disconnect p => exact MDisconnect.body.size (iterable_disconnect.mp iterable) emits
  | pingreq p => exact MPingreq.body.size (a := p) trivial emits
  | pingresp p => exact MPingresp.body.size (a := p) trivial emits
  | puback p => exact Acknowledge.long_faithful.size (iterable _ List.mem_cons_self) emits
  | pubcomp p => exact Acknowledge.long_faithful.size (iterable _ List.mem_cons_self) emits
  | publish p => exact MPublish.size (iterable _ List.mem_cons_self) emits
  | pubrec p => exact Acknowledge.long_faithful.size (iterable _ List.mem_cons_self) emits
  | pubrel p => exact Acknowledge.long_faithful.size (iterable _ List.mem_cons_self) emits
  | suback p => exact AcknowledgeAll.body.size ⟨iterable _ List.mem_cons_self, trivial⟩ emits
  | subscribe p => exact MSubscribe.size (iterable _ List.mem_cons_self) emits
  | unsuback p => exact AcknowledgeAll.body.size ⟨iterable _ List.mem_cons_self, trivial⟩ emits
  | unsubscribe p => exact MUnsubscribe.size (iterable _ List.mem_cons_self) emits

theorem Valid.iterable {self : MqttPacket} (valid : self.Valid) : self.Iterable := by
  cases self with
  | connect p => exact iterable_connect.mpr valid
  | disconnect p => exact iterable_disconnect.mpr valid
  | publish p => exact List.forall_mem_singleton.mpr valid.properties
  | pingreq p => exact fun _ member => absurd member List.not_mem_nil
  | pingresp p => exact fun _ member => absurd member List.not_mem_nil
  | subscribe p => exact List.forall_mem_singleton.mpr valid.1
  | unsubscribe p => exact List.forall_mem_singleton.mpr valid.1
  | _ => exact List.forall_mem_singleton.mpr valid

end MqttPacket

end V5
