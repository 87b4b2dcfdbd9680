import Cloudmqtt.Core.PacketIdentifierStore
import Cloudmqtt.V5.Packet

/-! The client's state machine. It does no input or output: every call returns
what its caller is expected to do.
-/

set_option autoImplicit false

namespace Core

open Rust V5

/-- `rustc_hash::FxHasher`, fed with one `str`. -/
class FxHasher where
  hash : String → UInt64

structure MqttInstant where
  now : UInt64
  deriving DecidableEq, Repr

/-- `u64::abs_diff`. -/
def MqttInstant.elapsedSeconds (self currentTime : MqttInstant) : UInt64 :=
  if self.now < currentTime.now then currentTime.now - self.now else self.now - currentTime.now

inductive PingState where
  | waitingForElapsed
  | waitingForPingrespSince (since : MqttInstant)
  deriving DecidableEq, Repr

structure ClientData where
  keepAlive : UInt16
  clientIdHash : Option UInt64
  lastTimeRun : MqttInstant

structure Connected where
  lastTimeSent : MqttInstant
  pingState : PingState

structure ConnectingWithoutAuth where
  connectSent : MqttInstant

inductive ConnectionState where
  | disconnected
  | connectingWithoutAuth (conn : ConnectingWithoutAuth)
  | connected (con : Connected)

def ConnectionState.isConnected : ConnectionState → Bool
  | connected _ => true
  | _ => false

structure AcknowledgeAction where
  packetIdentifier : PacketIdentifier

inductive ReceivePacket where
  | noFurtherAction (packet : MqttPacket)
  | acknowledgeNeeded (packet : MqttPacket) (acknowledge : AcknowledgeAction)

inductive ExpectedAction where
  | sendPacket (packet : MqttPacket)
  | saveClientIdentifier (identifier : String)
  | storePacket (id : PacketIdentifier)
  | releasePacket (id : PacketIdentifier)
  | receivePacket (received : ReceivePacket)
  | disconnect

inductive ExternalInfos where
  | consumePacket (packet : MqttPacket)
  | publishPacket (packet : MqttPacket)
  | none

structure MqttClientFSM (σ : Type) where
  data : ClientData
  connectionState : ConnectionState
  clientPis : σ

namespace MqttClientFSM

variable {σ : Type}

def new (clientPis : σ) : MqttClientFSM σ := ⟨⟨0, none, ⟨0⟩⟩, .disconnected, clientPis⟩

def default [Target] : MqttClientFSM UsizePacketIdentifierStore := new .new

def isConnected (self : MqttClientFSM σ) : Bool := self.connectionState.isConnected

theorem isConnected_iff {self : MqttClientFSM σ} :
    self.isConnected = true ↔ ∃ con, self.connectionState = .connected con := by
  unfold isConnected ConnectionState.isConnected
  split
  next con connected => exact iff_of_true rfl ⟨con, connected⟩
  next unconnected =>
    apply iff_of_false Bool.false_ne_true
    rintro ⟨con, connected⟩
    exact unconnected con connected

theorem isConnected_of_connected {self : MqttClientFSM σ} {con : Connected}
    (connected : self.connectionState = .connected con) : self.isConnected = true :=
  isConnected_iff.mpr ⟨con, connected⟩

theorem isConnected_of_disconnected {self : MqttClientFSM σ}
    (disconnected : self.connectionState = .disconnected) : self.isConnected = false := by
  rw [isConnected, disconnected]
  rfl

theorem isConnected_of_connecting {self : MqttClientFSM σ} {conn : ConnectingWithoutAuth}
    (connecting : self.connectionState = .connectingWithoutAuth conn) :
    self.isConnected = false := by
  rw [isConnected, connecting]
  rfl

def clientIdHash [FxHasher] (connect : MConnect) : Option UInt64 :=
  if connect.clientIdentifier.isEmpty then none else some (FxHasher.hash connect.clientIdentifier)

def handleConnect [FxHasher] (self : MqttClientFSM σ) (currentTime : MqttInstant)
    (connect : MConnect) : Except Panic (ExpectedAction × MqttClientFSM σ) :=
  match self.connectionState with
  | .disconnected =>
    -- a remembered hash is asserted to be there again, and the same
    if self.data.clientIdHash.isSome && decide (clientIdHash connect ≠ self.data.clientIdHash) then
      .error .assertion
    else .ok (.sendPacket (.connect connect), { self with
      data := { self.data with
        keepAlive := connect.keepAlive, clientIdHash := clientIdHash connect }
      connectionState := .connectingWithoutAuth ⟨currentTime⟩ })
  | _ => .error .assertion

-- A CONNACK with another code than success panics rather than being reported.
/-- The CONNACK arm; a server may override the keep alive and name the client. -/
def handleConnack [FxHasher] (self : MqttClientFSM σ) (conn : ConnectingWithoutAuth)
    (connack : MConnack) : Except Panic (Option ExpectedAction × MqttClientFSM σ) :=
  if connack.reasonCode ≠ ⟨.success, success_mem_connack⟩ then
    .error (.explicit "Connection unsuccessful")
  else
    let keepAlive : Option UInt16 := connack.properties.slot .serverKeepAlive
    let clientIdentifier : Option String := connack.properties.slot .assignedClientIdentifier
    .ok (clientIdentifier.map .saveClientIdentifier, { self with
      data := { self.data with
        keepAlive := keepAlive.getD self.data.keepAlive
        clientIdHash := (clientIdentifier.map FxHasher.hash).or self.data.clientIdHash }
      connectionState := .connected ⟨conn.connectSent, .waitingForElapsed⟩ })

def handleConnectingWithoutAuth [FxHasher] (self : MqttClientFSM σ)
    (externalInfos : ExternalInfos) : Except Panic (Option ExpectedAction × MqttClientFSM σ) :=
  match self.connectionState with
  | .connectingWithoutAuth conn =>
    match externalInfos with
    | .consumePacket (.connack connack) => self.handleConnack conn connack
    | .consumePacket _ => .error (.explicit "Unexpected packet received")
    | .publishPacket _ => .error .todo
    | .none => .ok (none, self)
  | _ => .error .unreachable

/-- A ping is due when nothing was sent for `keep_alive` seconds. -/
def ping (self : MqttClientFSM σ) (con : Connected) (currentTime : MqttInstant) :
    Option ExpectedAction × MqttClientFSM σ :=
  if 0 < self.data.keepAlive then
    match con.pingState with
    | .waitingForElapsed =>
      if self.data.keepAlive.toUInt64 ≤ con.lastTimeSent.elapsedSeconds currentTime then
        (some (.sendPacket (.pingreq .mk)), { self with
          connectionState := .connected ⟨currentTime, .waitingForPingrespSince currentTime⟩ })
      else (none, self)
    | .waitingForPingrespSince _ => (none, self)
  else (none, self)

section

variable [PacketIdentifierStore σ]

def resetConnection (self : MqttClientFSM σ) : MqttClientFSM σ := { self with
  clientPis := PacketIdentifierStore.releaseNonPublishSlots self.clientPis
  connectionState := .disconnected }

def connectionLost (self : MqttClientFSM σ) (currentTime : MqttInstant) : MqttClientFSM σ :=
  { self with data := { self.data with lastTimeRun := currentTime } }.resetConnection

/-- The identifier of an acknowledged exchange, which must be in use. -/
def releaseContained (self : MqttClientFSM σ) (id : PacketIdentifier) :
    Except Panic (MqttClientFSM σ) :=
  if PacketIdentifierStore.contains self.clientPis id then
    (PacketIdentifierStore.release self.clientPis id).map fun clientPis =>
      { self with clientPis := clientPis }
  else .error .assertion

-- An acknowledgement is looked up by its identifier alone: which kind of packet
-- took the identifier is not compared with the kind that acknowledges it.
def consumePacket (self : MqttClientFSM σ) (con : Connected) :
    MqttPacket → Except Panic (Option ExpectedAction × MqttClientFSM σ)
  | .publish publish =>
    match publish.qualityOfService with
    | .atMostOnce => .ok (some (.receivePacket (.noFurtherAction (.publish publish))), self)
    | .atLeastOnce =>
      match publish.packetIdentifier with
      | some id => .ok (some (.receivePacket (.acknowledgeNeeded (.publish publish) ⟨id⟩)), self)
      | none => .error .unwrapNone
    | .exactlyOnce => .error .todo
  | .disconnect _ => .ok (some .disconnect, self.resetConnection)
  | .puback puback =>
    (self.releaseContained puback.packetIdentifier).map fun self =>
      (some (.releasePacket puback.packetIdentifier), self)
  | .pingresp _ =>
    match con.pingState with
    | .waitingForPingrespSince _ =>
      .ok (none, { self with
        connectionState := .connected { con with pingState := .waitingForElapsed } })
    | .waitingForElapsed => .error (.explicit "Protocol error, got PingResp without a req")
  | .suback suback => (self.releaseContained suback.packetIdentifier).map fun self => (none, self)
  | _ => .error (.explicit "Invalid packet received")

def handleConnected (self : MqttClientFSM σ) (currentTime : MqttInstant)
    (externalInfos : ExternalInfos) : Except Panic (Option ExpectedAction × MqttClientFSM σ) :=
  match self.connectionState with
  | .connected con =>
    match externalInfos with
    | .consumePacket incomingPacket => self.consumePacket con incomingPacket
    | .publishPacket outgoingPublish =>
      .ok (some (.sendPacket outgoingPublish), { self with
        connectionState := .connected { con with lastTimeSent := currentTime } })
    | .none => .ok (self.ping con currentTime)
  | _ => .error .unreachable

def ranAt (self : MqttClientFSM σ) (currentTime : MqttInstant) : MqttClientFSM σ :=
  { self with data := { self.data with lastTimeRun := currentTime } }

variable [FxHasher]

/-- The dispatch of `inner_run` on the connection state. -/
def handle (self : MqttClientFSM σ) (currentTime : MqttInstant) (externalInfos : ExternalInfos) :
    Except Panic (Option ExpectedAction × MqttClientFSM σ) :=
  match self.connectionState with
  | .disconnected => .ok (none, self)
  | .connectingWithoutAuth _ => self.handleConnectingWithoutAuth externalInfos
  | .connected _ => self.handleConnected currentTime externalInfos

def innerRun (self : MqttClientFSM σ) (currentTime : MqttInstant) (externalInfos : ExternalInfos) :
    Except Panic (Option ExpectedAction × MqttClientFSM σ) := do
  let (action, self) ← self.handle currentTime externalInfos
  pure (action, self.ranAt currentTime)

def run (self : MqttClientFSM σ) (currentTime : MqttInstant) :
    Except Panic (Option ExpectedAction × MqttClientFSM σ) := self.innerRun currentTime .none

def consume (self : MqttClientFSM σ) (packet : MqttPacket) (currentTime : MqttInstant) :
    Except Panic (Option ExpectedAction × MqttClientFSM σ) :=
  self.innerRun currentTime (.consumePacket packet)

def send (self : MqttClientFSM σ) (currentTime : MqttInstant) (packet : MqttPacket) :
    Except Panic (ExpectedAction × MqttClientFSM σ) := do
  let (action, self) ← self.innerRun currentTime (.publishPacket packet)
  match action with
  | some action => .ok (action, self)
  | none => .error (.expect "inner_run did not return packet as expected")

def subscribe (self : MqttClientFSM σ) (currentTime : MqttInstant) (packet : MSubscribe) :
    Except Panic (ExpectedAction × MqttClientFSM σ) := do
  let (id, clientPis) ← PacketIdentifierStore.getNextFree self.clientPis .nonPublish
  match id with
  | some id =>
    let self := { self with clientPis := clientPis }
    self.send currentTime (.subscribe { packet with packetIdentifier := id })
  | none => .error (.expect "could not get a free packet identifier")

def acknowledge (self : MqttClientFSM σ) (currentTime : MqttInstant)
    (acknowledge : AcknowledgeAction) :
    Except Panic (ExpectedAction × MqttClientFSM σ) :=
  self.send currentTime
    (.puback ⟨acknowledge.packetIdentifier, ⟨.success, success_mem_puback⟩, .new acknowledgeFields⟩)

end

end MqttClientFSM

/-! ### Helpers that hold the client until they are dropped -/

inductive DisconnectState where
  | disconnectPacket (packet : MqttPacket)
  | disconnectConnection
  | done

structure MqttClientDisconnecter (σ : Type) where
  client : MqttClientFSM σ
  state : DisconnectState

inductive PublishingState where
  | store
  | send
  | done

structure MqttClientPublisher (σ : Type) where
  client : MqttClientFSM σ
  packet : Option MPublish
  state : PublishingState

section

variable {σ : Type} [PacketIdentifierStore σ]

-- Two calls send the packet and then reset; a helper that is dropped in between
-- leaves the state as it was.
def MqttClientDisconnecter.run (self : MqttClientDisconnecter σ) (_currentTime : MqttInstant) :
    Except Panic (Option ExpectedAction × MqttClientDisconnecter σ) :=
  match self.state with
  | .disconnectPacket packet =>
    .ok (some (.sendPacket packet), { self with state := .disconnectConnection })
  | .disconnectConnection => .ok (some .disconnect, ⟨self.client.resetConnection, .done⟩)
  | .done => .ok (none, self)

-- QoS 0 starts in `send`, any other in `store`, where an identifier is taken.
def MqttClientPublisher.run [FxHasher] (self : MqttClientPublisher σ) (currentTime : MqttInstant) :
    Except Panic (Option ExpectedAction × MqttClientPublisher σ) :=
  match self.state with
  | .store =>
    match self.packet with
    | some packet =>
      if packet.qualityOfService ≠ .atMostOnce then do
        let (id, clientPis) ← PacketIdentifierStore.getNextFree self.client.clientPis .publish
        match id with
        | some id => .ok (some (.storePacket id), {
            client := { self.client with clientPis := clientPis }
            packet := some { packet with packetIdentifier := some id }
            state := .send })
        | none => .error .unwrapNone
      else .ok (none, self)
    | none => .ok (none, self)
  | .send =>
    match self.packet with
    | some packet => do
      let (action, client) ← self.client.innerRun currentTime (.publishPacket (.publish packet))
      .ok (action, ⟨client, none, .done⟩)
    | none => .error .unwrapNone
  | .done => .ok (none, self)

end

namespace MqttClientFSM

variable {σ : Type}

def publish (self : MqttClientFSM σ) (packet : MPublish) : MqttClientPublisher σ where
  client := self
  packet := some packet
  state := if packet.qualityOfService = .atMostOnce then .send else .store

def disconnect (self : MqttClientFSM σ) (disconnect : MDisconnect) : MqttClientDisconnecter σ where
  client := self
  state := .disconnectPacket (.disconnect disconnect)

end MqttClientFSM

end Core
