import Cloudmqtt.Base.Run
import Cloudmqtt.Core.Client

/-! Everything the state machine can do: its steps, the operations on it, and its runs. -/

set_option autoImplicit false

namespace Core

open Base Rust V5

namespace MqttClientFSM

variable {σ : Type} [PacketIdentifierStore σ]

/-- The steps of `inner_run`, before it notes the time. -/
inductive Transition [FxHasher] (self : MqttClientFSM σ) (currentTime : MqttInstant) :
    ExternalInfos → Option ExpectedAction → MqttClientFSM σ → Prop where
  | disconnected {infos : ExternalInfos} : self.connectionState = .disconnected →
      Transition self currentTime infos none self
  | awaited {conn : ConnectingWithoutAuth} : self.connectionState = .connectingWithoutAuth conn →
      Transition self currentTime .none none self
  | connack {conn : ConnectingWithoutAuth} {connack : MConnack} {action : Option ExpectedAction}
      {after : MqttClientFSM σ} : self.connectionState = .connectingWithoutAuth conn →
      self.handleConnack conn connack = .ok (action, after) →
      Transition self currentTime (.consumePacket (.connack connack)) action after
  | received {con : Connected} {publish : MPublish} : self.connectionState = .connected con →
      publish.qualityOfService = .atMostOnce →
      Transition self currentTime (.consumePacket (.publish publish))
        (some (.receivePacket (.noFurtherAction (.publish publish)))) self
  | receivedOnce {con : Connected} {publish : MPublish} {id : PacketIdentifier} :
      self.connectionState = .connected con → publish.qualityOfService = .atLeastOnce →
      publish.packetIdentifier = some id →
      Transition self currentTime (.consumePacket (.publish publish))
        (some (.receivePacket (.acknowledgeNeeded (.publish publish) ⟨id⟩))) self
  | disconnect {con : Connected} {disconnect : MDisconnect} :
      self.connectionState = .connected con →
      Transition self currentTime (.consumePacket (.disconnect disconnect)) (some .disconnect)
        self.resetConnection
  | puback {con : Connected} {puback : MPuback} {after : MqttClientFSM σ} :
      self.connectionState = .connected con →
      self.releaseContained puback.packetIdentifier = .ok after →
      Transition self currentTime (.consumePacket (.puback puback))
        (some (.releasePacket puback.packetIdentifier)) after
  | pingresp {con : Connected} {pingresp : MPingresp} {since : MqttInstant} :
      self.connectionState = .connected con → con.pingState = .waitingForPingrespSince since →
      Transition self currentTime (.consumePacket (.pingresp pingresp)) none
        { self with connectionState := .connected { con with pingState := .waitingForElapsed } }
  | suback {con : Connected} {suback : MSuback} {after : MqttClientFSM σ} :
      self.connectionState = .connected con →
      self.releaseContained suback.packetIdentifier = .ok after →
      Transition self currentTime (.consumePacket (.suback suback)) none after
  | sent {con : Connected} {packet : MqttPacket} : self.connectionState = .connected con →
      Transition self currentTime (.publishPacket packet) (some (.sendPacket packet))
        { self with connectionState := .connected { con with lastTimeSent := currentTime } }
  | elapsed {con : Connected} : self.connectionState = .connected con →
      Transition self currentTime .none (self.ping con currentTime).1 (self.ping con currentTime).2

section

variable [FxHasher] {self after : MqttClientFSM σ} {currentTime : MqttInstant}
  {infos : ExternalInfos} {action : Option ExpectedAction}

theorem transition_of_consumePacket {con : Connected} {packet : MqttPacket}
    (connected : self.connectionState = .connected con)
    (ran : self.consumePacket con packet = .ok (action, after)) :
    Transition self currentTime (.consumePacket packet) action after := by
  cases packet with
  | publish publish =>
    simp only [consumePacket] at ran
    split at ran
    next qos =>
      obtain ⟨rfl, rfl⟩ := Prod.mk.inj (Except.ok.inj ran)
      exact .received connected qos
    next qos =>
      split at ran
      next id present =>
        obtain ⟨rfl, rfl⟩ := Prod.mk.inj (Except.ok.inj ran)
        exact .receivedOnce connected qos present
      next => simp at ran
    next => simp at ran
  | disconnect disconnect =>
    obtain ⟨rfl, rfl⟩ := Prod.mk.inj (Except.ok.inj ran)
    exact .disconnect connected
  | puback puback =>
    obtain ⟨middle, released, same⟩ := except_map_eq_ok.mp ran
    obtain ⟨rfl, rfl⟩ := Prod.mk.inj same
    exact .puback connected released
  | pingresp pingresp =>
    simp only [consumePacket] at ran
    split at ran
    next since waiting =>
      obtain ⟨rfl, rfl⟩ := Prod.mk.inj (Except.ok.inj ran)
      exact .pingresp connected waiting
    next => simp at ran
  | suback suback =>
    obtain ⟨middle, released, same⟩ := except_map_eq_ok.mp ran
    obtain ⟨rfl, rfl⟩ := Prod.mk.inj same
    exact .suback connected released
  | _ => simp [consumePacket] at ran

-- The invariants are proved by cases on `Transition`, `Call` and `Performs`, so that a
-- change of the functions is met here.
/-- Everything `inner_run` can do without unwinding. -/
theorem transition_of_innerRun (ran : self.innerRun currentTime infos = .ok (action, after)) :
    ∃ middle, Transition self currentTime infos action middle ∧
      after = middle.ranAt currentTime := by
  obtain ⟨⟨action, middle⟩, step, noted⟩ := except_bind_eq_ok.mp ran
  obtain ⟨rfl, rfl⟩ := Prod.mk.inj (Except.ok.inj noted)
  refine ⟨middle, ?_, rfl⟩
  unfold handle at step
  split at step
  next disconnected =>
    obtain ⟨rfl, rfl⟩ := Prod.mk.inj (Except.ok.inj step)
    exact .disconnected disconnected
  next conn connecting =>
    simp only [handleConnectingWithoutAuth, connecting] at step
    split at step
    next => exact .connack connecting step
    next => simp at step
    next => simp at step
    next =>
      obtain ⟨rfl, rfl⟩ := Prod.mk.inj (Except.ok.inj step)
      exact .awaited connecting
  next con connected =>
    simp only [handleConnected, connected] at step
    split at step
    next => exact transition_of_consumePacket connected step
    next =>
      obtain ⟨rfl, rfl⟩ := Prod.mk.inj (Except.ok.inj step)
      exact .sent connected
    next =>
      have same := Except.ok.inj step
      have pinged : Transition self currentTime .none _ _ := .elapsed connected
      rwa [same] at pinged

omit [PacketIdentifierStore σ] in
theorem handleConnect_eq_ok {connect : MConnect} {action : ExpectedAction}
    (ran : self.handleConnect currentTime connect = .ok (action, after)) :
    self.connectionState = .disconnected ∧ action = .sendPacket (.connect connect) ∧
      after = { self with
        data := { self.data with
          keepAlive := connect.keepAlive, clientIdHash := clientIdHash connect }
        connectionState := .connectingWithoutAuth ⟨currentTime⟩ } := by
  unfold handleConnect at ran
  split at ran
  next disconnected =>
    split at ran
    next => simp at ran
    next =>
      obtain ⟨rfl, rfl⟩ := Prod.mk.inj (Except.ok.inj ran)
      exact ⟨disconnected, rfl, rfl⟩
  next => simp at ran

omit [PacketIdentifierStore σ] in
theorem handleConnack_eq_ok {conn : ConnectingWithoutAuth} {connack : MConnack}
    (ran : self.handleConnack conn connack = .ok (action, after)) :
    connack.reasonCode = ⟨.success, by decide⟩ ∧
      action = Option.map .saveClientIdentifier
        (connack.properties.slot .assignedClientIdentifier) ∧
      after = { self with
        data := { self.data with
          keepAlive := Option.getD (connack.properties.slot .serverKeepAlive) self.data.keepAlive
          clientIdHash := (Option.map FxHasher.hash
            (connack.properties.slot .assignedClientIdentifier)).or self.data.clientIdHash }
        connectionState := .connected ⟨conn.connectSent, .waitingForElapsed⟩ } := by
  unfold handleConnack at ran
  split at ran
  next => simp at ran
  next success =>
    obtain ⟨rfl, rfl⟩ := Prod.mk.inj (Except.ok.inj ran)
    exact ⟨not_not.mp success, rfl, rfl⟩

omit [PacketIdentifierStore σ] in
theorem flatMap_handleConnack {β : Type} {observe : ExpectedAction → List β}
    (unnamed : ∀ identifier, observe (.saveClientIdentifier identifier) = [])
    {conn : ConnectingWithoutAuth} {connack : MConnack}
    (ran : self.handleConnack conn connack = .ok (action, after)) :
    action.toList.flatMap observe = [] := by
  obtain ⟨-, rfl, -⟩ := handleConnack_eq_ok ran
  cases connack.properties.slot .assignedClientIdentifier with
  | none => rfl
  | some identifier => exact List.append_eq_nil_iff.mpr ⟨unnamed identifier, rfl⟩

omit [FxHasher] in
theorem releaseContained_eq_ok {id : PacketIdentifier}
    (ran : self.releaseContained id = .ok after) : ∃ clientPis, after = { self with clientPis } ∧
      PacketIdentifierStore.contains self.clientPis id = true ∧
      PacketIdentifierStore.release self.clientPis id = .ok clientPis := by
  unfold releaseContained at ran
  split at ran
  next contained =>
    obtain ⟨clientPis, released, rfl⟩ := except_map_eq_ok.mp ran
    exact ⟨clientPis, rfl, contained, released⟩
  next => simp at ran

def PingDue (self : MqttClientFSM σ) (con : Connected) (currentTime : MqttInstant) : Prop :=
  0 < self.data.keepAlive ∧ con.pingState = .waitingForElapsed ∧
    self.data.keepAlive.toUInt64 ≤ con.lastTimeSent.elapsedSeconds currentTime

omit [PacketIdentifierStore σ] [FxHasher] in
theorem ping_due (self : MqttClientFSM σ) (con : Connected) (currentTime : MqttInstant) :
    (self.PingDue con currentTime ∧
      self.ping con currentTime = (some (.sendPacket (.pingreq .mk)), { self with
        connectionState := .connected ⟨currentTime, .waitingForPingrespSince currentTime⟩ })) ∨
      (¬ self.PingDue con currentTime ∧ self.ping con currentTime = (none, self)) := by
  unfold ping
  split
  next positive =>
    split
    next state =>
      split
      next elapsed => exact .inl ⟨⟨positive, state, elapsed⟩, rfl⟩
      next elapsed => exact .inr ⟨fun due => elapsed due.2.2, rfl⟩
    next state => exact .inr ⟨(fun due => nomatch state.symm.trans due.2.1), rfl⟩
  next positive => exact .inr ⟨fun due => positive due.1, rfl⟩

omit [PacketIdentifierStore σ] [FxHasher] in
theorem ping_cases (self : MqttClientFSM σ) (con : Connected) (currentTime : MqttInstant) :
    self.ping con currentTime = (some (.sendPacket (.pingreq .mk)), { self with
        connectionState := .connected ⟨currentTime, .waitingForPingrespSince currentTime⟩ }) ∨
      self.ping con currentTime = (none, self) :=
  (self.ping_due con currentTime).imp And.right And.right

theorem send_eq_ok {packet : MqttPacket} {action : ExpectedAction}
    (ran : self.send currentTime packet = .ok (action, after)) :
    action = .sendPacket packet ∧ ∃ con, self.connectionState = .connected con ∧
      after = { self with
        data := { self.data with lastTimeRun := currentTime }
        connectionState := .connected { con with lastTimeSent := currentTime } } := by
  obtain ⟨⟨action, after⟩, ran, returned⟩ := except_bind_eq_ok.mp ran
  obtain ⟨middle, transition, rfl⟩ := transition_of_innerRun ran
  cases transition with
  | disconnected => simp at returned
  | sent connected =>
    obtain ⟨rfl, rfl⟩ := Prod.mk.inj (Except.ok.inj returned)
    exact ⟨rfl, _, connected, rfl⟩

theorem subscribe_eq_ok {packet : MSubscribe} {action : ExpectedAction}
    (ran : self.subscribe currentTime packet = .ok (action, after)) :
    ∃ id clientPis, PacketIdentifierStore.getNextFree self.clientPis .nonPublish =
        .ok (some id, clientPis) ∧
      { self with clientPis := clientPis }.send currentTime
        (.subscribe { packet with packetIdentifier := id }) = .ok (action, after) := by
  obtain ⟨⟨id, clientPis⟩, taken, ran⟩ := except_bind_eq_ok.mp ran
  cases id with
  | none => simp at ran
  | some id => exact ⟨id, clientPis, taken, ran⟩

end

/-! ### Where an outgoing packet ends up -/

section

variable [FxHasher] {self : MqttClientFSM σ} (currentTime : MqttInstant)

theorem innerRun_disconnected (disconnected : self.connectionState = .disconnected)
    (infos : ExternalInfos) :
    self.innerRun currentTime infos = .ok (none, self.ranAt currentTime) := by
  rw [innerRun, handle, disconnected]
  rfl

theorem innerRun_connecting {conn : ConnectingWithoutAuth}
    (connecting : self.connectionState = .connectingWithoutAuth conn) (packet : MqttPacket) :
    self.innerRun currentTime (.publishPacket packet) = .error .todo := by
  rw [innerRun, handle, connecting]
  simp only [handleConnectingWithoutAuth, connecting]
  rfl

theorem innerRun_connected {con : Connected} (connected : self.connectionState = .connected con)
    (packet : MqttPacket) :
    self.innerRun currentTime (.publishPacket packet) = .ok (some (.sendPacket packet),
      { self with
        connectionState := .connected { con with lastTimeSent := currentTime } }.ranAt
          currentTime) := by
  rw [innerRun, handle, connected]
  simp only [handleConnected, connected]
  rfl

theorem send_ok_iff (packet : MqttPacket) :
    (∃ result, self.send currentTime packet = .ok result) ↔ self.isConnected = true := by
  constructor
  · rintro ⟨⟨action, after⟩, ran⟩
    obtain ⟨-, con, connected, -⟩ := send_eq_ok ran
    exact isConnected_of_connected connected
  · intro isConnected
    obtain ⟨con, connected⟩ := isConnected_iff.mp isConnected
    rw [send, innerRun_connected currentTime connected]
    exact ⟨_, rfl⟩

end

end MqttClientFSM

/-! ### Operations -/

/-- What a caller can do with the machine. A helper is called once at each of
the times and then dropped. -/
inductive Operation where
  | handleConnect (currentTime : MqttInstant) (connect : MConnect)
  | consume (packet : MqttPacket) (currentTime : MqttInstant)
  | publish (packet : MPublish) (times : List MqttInstant)
  | subscribe (currentTime : MqttInstant) (packet : MSubscribe)
  | acknowledge (currentTime : MqttInstant) (acknowledge : AcknowledgeAction)
  | disconnect (packet : MDisconnect) (times : List MqttInstant)
  | connectionLost (currentTime : MqttInstant)
  | run (currentTime : MqttInstant)

def drive {η : Type} (run : η → MqttInstant → Except Panic (Option ExpectedAction × η)) :
    η → List MqttInstant → Except Panic (List ExpectedAction × η)
  | self, [] => .ok ([], self)
  | self, currentTime :: times => do
    let (action, self) ← run self currentTime
    let (actions, self) ← drive run self times
    pure (action.toList ++ actions, self)

section

variable {η : Type} {run : η → MqttInstant → Except Panic (Option ExpectedAction × η)}
  {times : List MqttInstant} {helper helper' : η} {actions : List ExpectedAction}

inductive Calls (run : η → MqttInstant → Except Panic (Option ExpectedAction × η)) :
    η → List ExpectedAction → η → Prop where
  | nil (helper : η) : Calls run helper [] helper
  | cons {helper middle last : η} {currentTime : MqttInstant} {action : Option ExpectedAction}
      {later : List ExpectedAction} : run helper currentTime = .ok (action, middle) →
      Calls run middle later last → Calls run helper (action.toList ++ later) last

theorem calls_of_drive (ran : drive run helper times = .ok (actions, helper')) :
    Calls run helper actions helper' := by
  induction times generalizing helper actions with
  | nil =>
    obtain ⟨rfl, rfl⟩ := Prod.mk.inj (Except.ok.inj ran)
    exact .nil helper
  | cons currentTime times ih =>
    obtain ⟨⟨action, middle⟩, first, ran⟩ := except_bind_eq_ok.mp ran
    obtain ⟨⟨later, last⟩, rest, returned⟩ := except_bind_eq_ok.mp ran
    obtain ⟨rfl, rfl⟩ := Prod.mk.inj (Except.ok.inj returned)
    exact .cons first (ih rest)

theorem drive_silent (silent : ∀ currentTime, run helper currentTime = .ok (none, helper)) :
    drive run helper times = .ok ([], helper) := by
  induction times with
  | nil => rfl
  | cons currentTime times ih =>
    rw [drive, silent currentTime]
    change (drive run helper times >>= fun _ => _) = _
    rw [ih]
    rfl

end

section

variable {σ : Type} [PacketIdentifierStore σ] [FxHasher]

inductive MqttClientPublisher.Call (self : MqttClientPublisher σ) (currentTime : MqttInstant) :
    Option ExpectedAction → MqttClientPublisher σ → Prop where
  | store {packet : MPublish} {id : PacketIdentifier} {clientPis : σ} : self.state = .store →
      PacketIdentifierStore.getNextFree self.client.clientPis .publish = .ok (some id, clientPis) →
      Call self currentTime (some (.storePacket id))
        ⟨{ self.client with clientPis }, some { packet with packetIdentifier := some id }, .send⟩
  | send {packet : MPublish} {action : Option ExpectedAction} {client : MqttClientFSM σ} :
      self.state = .send → self.packet = some packet →
      self.client.innerRun currentTime (.publishPacket (.publish packet)) = .ok (action, client) →
      Call self currentTime action ⟨client, none, .done⟩
  | idle : self.state ≠ .send → Call self currentTime none self

theorem MqttClientPublisher.call_of_run {self next : MqttClientPublisher σ}
    {currentTime : MqttInstant} {action : Option ExpectedAction}
    (ran : self.run currentTime = .ok (action, next)) : self.Call currentTime action next := by
  unfold run at ran
  split at ran
  next state =>
    -- a publish that needs no identifier is never put into this state
    have idle : self.state ≠ .send := by simp [state]
    split at ran
    next packet _ =>
      split at ran
      next =>
        obtain ⟨⟨id, clientPis⟩, taken, returned⟩ := except_bind_eq_ok.mp ran
        cases id with
        | none => simp at returned
        | some id =>
          obtain ⟨rfl, rfl⟩ := Prod.mk.inj (Except.ok.inj returned)
          exact .store state taken
      next =>
        obtain ⟨rfl, rfl⟩ := Prod.mk.inj (Except.ok.inj ran)
        exact .idle idle
    next =>
      obtain ⟨rfl, rfl⟩ := Prod.mk.inj (Except.ok.inj ran)
      exact .idle idle
  next state =>
    split at ran
    next packet present =>
      obtain ⟨⟨action, client⟩, step, returned⟩ := except_bind_eq_ok.mp ran
      obtain ⟨rfl, rfl⟩ := Prod.mk.inj (Except.ok.inj returned)
      exact .send state present step
    next => simp at ran
  next state =>
    obtain ⟨rfl, rfl⟩ := Prod.mk.inj (Except.ok.inj ran)
    exact .idle (by simp [state])

end

section

variable {σ : Type} [PacketIdentifierStore σ] [FxHasher]

/-- The actions that an operation returned, in order. -/
def MqttClientFSM.operate (self : MqttClientFSM σ) :
    Operation → Except Panic (List ExpectedAction × MqttClientFSM σ)
  | .handleConnect currentTime connect =>
    (self.handleConnect currentTime connect).map fun (action, self) => ([action], self)
  | .consume packet currentTime =>
    (self.consume packet currentTime).map fun (action, self) => (action.toList, self)
  | .publish packet times =>
    (drive MqttClientPublisher.run (self.publish packet) times).map fun (actions, helper) =>
      (actions, helper.client)
  | .subscribe currentTime packet =>
    (self.subscribe currentTime packet).map fun (action, self) => ([action], self)
  | .acknowledge currentTime acknowledge =>
    (self.acknowledge currentTime acknowledge).map fun (action, self) => ([action], self)
  | .disconnect packet times =>
    (drive MqttClientDisconnecter.run (self.disconnect packet) times).map fun (actions, helper) =>
      (actions, helper.client)
  | .connectionLost currentTime => .ok ([], self.connectionLost currentTime)
  | .run currentTime =>
    (self.run currentTime).map fun (action, self) => (action.toList, self)

/-- Everything an operation can do without unwinding. -/
inductive MqttClientFSM.Performs (self : MqttClientFSM σ) :
    Operation → List ExpectedAction → MqttClientFSM σ → Prop where
  | handleConnect {currentTime : MqttInstant} {connect : MConnect} :
      self.connectionState = .disconnected →
      Performs self (.handleConnect currentTime connect) [.sendPacket (.connect connect)]
        { self with
          data := { self.data with
            keepAlive := connect.keepAlive, clientIdHash := clientIdHash connect }
          connectionState := .connectingWithoutAuth ⟨currentTime⟩ }
  | consume {packet : MqttPacket} {currentTime : MqttInstant} {action : Option ExpectedAction}
      {after : MqttClientFSM σ} :
      self.Transition currentTime (.consumePacket packet) action after →
      Performs self (.consume packet currentTime) action.toList (after.ranAt currentTime)
  | publish {packet : MPublish} {times : List MqttInstant} {actions : List ExpectedAction}
      {helper : MqttClientPublisher σ} :
      Calls MqttClientPublisher.run (self.publish packet) actions helper →
      Performs self (.publish packet times) actions helper.client
  | subscribe {packet : MSubscribe} {currentTime : MqttInstant} {id : PacketIdentifier}
      {clientPis : σ} {con : Connected} :
      PacketIdentifierStore.getNextFree self.clientPis .nonPublish = .ok (some id, clientPis) →
      self.connectionState = .connected con →
      Performs self (.subscribe currentTime packet)
        [.sendPacket (.subscribe { packet with packetIdentifier := id })]
        { self with
          clientPis
          data := { self.data with lastTimeRun := currentTime }
          connectionState := .connected { con with lastTimeSent := currentTime } }
  | acknowledge {acknowledge : AcknowledgeAction} {currentTime : MqttInstant} {con : Connected} :
      self.connectionState = .connected con →
      Performs self (.acknowledge currentTime acknowledge) [.sendPacket (.puback
          ⟨acknowledge.packetIdentifier, ⟨.success, by decide⟩, .new acknowledgeFields⟩)]
        { self with
          data := { self.data with lastTimeRun := currentTime }
          connectionState := .connected { con with lastTimeSent := currentTime } }
  | disconnect {packet : MDisconnect} {times : List MqttInstant} {actions : List ExpectedAction}
      {helper : MqttClientDisconnecter σ} :
      drive MqttClientDisconnecter.run (self.disconnect packet) times = .ok (actions, helper) →
      Performs self (.disconnect packet times) actions helper.client
  | connectionLost {currentTime : MqttInstant} :
      Performs self (.connectionLost currentTime) [] (self.connectionLost currentTime)
  | run {currentTime : MqttInstant} {action : Option ExpectedAction} {after : MqttClientFSM σ} :
      self.Transition currentTime .none action after →
      Performs self (.run currentTime) action.toList (after.ranAt currentTime)

theorem MqttClientFSM.performs_of_operate {self after : MqttClientFSM σ} {operation : Operation}
    {actions : List ExpectedAction} (ran : self.operate operation = .ok (actions, after)) :
    self.Performs operation actions after := by
  cases operation with
  | connectionLost currentTime =>
    obtain ⟨rfl, rfl⟩ := Prod.mk.inj (Except.ok.inj ran)
    exact .connectionLost
  | handleConnect currentTime connect =>
    obtain ⟨⟨action, after⟩, called, same⟩ := except_map_eq_ok.mp ran
    obtain ⟨rfl, rfl⟩ := Prod.mk.inj same
    obtain ⟨disconnected, rfl, rfl⟩ := handleConnect_eq_ok called
    exact .handleConnect disconnected
  | consume packet currentTime =>
    obtain ⟨⟨action, after⟩, called, same⟩ := except_map_eq_ok.mp ran
    obtain ⟨rfl, rfl⟩ := Prod.mk.inj same
    obtain ⟨middle, transition, rfl⟩ := transition_of_innerRun called
    exact .consume transition
  | publish packet times =>
    obtain ⟨⟨actions, helper⟩, called, same⟩ := except_map_eq_ok.mp ran
    obtain ⟨rfl, rfl⟩ := Prod.mk.inj same
    exact .publish (calls_of_drive called)
  | subscribe currentTime packet =>
    obtain ⟨⟨action, after⟩, called, same⟩ := except_map_eq_ok.mp ran
    obtain ⟨rfl, rfl⟩ := Prod.mk.inj same
    obtain ⟨id, clientPis, taken, sent⟩ := subscribe_eq_ok called
    obtain ⟨rfl, con, connected, rfl⟩ := send_eq_ok sent
    exact .subscribe taken connected
  | acknowledge currentTime acknowledge =>
    obtain ⟨⟨action, after⟩, called, same⟩ := except_map_eq_ok.mp ran
    obtain ⟨rfl, rfl⟩ := Prod.mk.inj same
    obtain ⟨rfl, con, connected, rfl⟩ := send_eq_ok called
    exact .acknowledge connected
  | disconnect packet times =>
    obtain ⟨⟨actions, helper⟩, called, same⟩ := except_map_eq_ok.mp ran
    obtain ⟨rfl, rfl⟩ := Prod.mk.inj same
    exact .disconnect called
  | run currentTime =>
    obtain ⟨⟨action, after⟩, called, same⟩ := except_map_eq_ok.mp ran
    obtain ⟨rfl, rfl⟩ := Prod.mk.inj same
    obtain ⟨middle, transition, rfl⟩ := transition_of_innerRun called
    exact .run transition

inductive Published (self : MqttClientFSM σ) (packet : MPublish) :
    List MqttInstant → List ExpectedAction → MqttClientFSM σ → Prop where
  | unused : Published self packet [] [] self
  | sent {currentTime : MqttInstant} {times : List MqttInstant} {action : Option ExpectedAction}
      {after : MqttClientFSM σ} :
      self.Transition currentTime (.publishPacket (.publish packet)) action after →
      Published self packet (currentTime :: times) action.toList (after.ranAt currentTime)
  | stored {currentTime : MqttInstant} {id : PacketIdentifier} {clientPis : σ} :
      PacketIdentifierStore.getNextFree self.clientPis .publish = .ok (some id, clientPis) →
      Published self packet [currentTime] [.storePacket id] { self with clientPis }
  | storedAndSent {currentTime later : MqttInstant} {times : List MqttInstant}
      {id : PacketIdentifier} {clientPis : σ} {action : Option ExpectedAction}
      {after : MqttClientFSM σ} :
      PacketIdentifierStore.getNextFree self.clientPis .publish = .ok (some id, clientPis) →
      { self with clientPis := clientPis }.Transition later
        (.publishPacket (.publish { packet with packetIdentifier := some id })) action after →
      Published self packet (currentTime :: later :: times) (.storePacket id :: action.toList)
        (after.ranAt later)

theorem drive_publisher_done {helper helper' : MqttClientPublisher σ} {times : List MqttInstant}
    {actions : List ExpectedAction} (done : helper.state = .done)
    (ran : drive MqttClientPublisher.run helper times = .ok (actions, helper')) :
    actions = [] ∧ helper' = helper := by
  have silent (currentTime : MqttInstant) : helper.run currentTime = .ok (none, helper) := by
    rw [MqttClientPublisher.run, done]
  rw [drive_silent silent] at ran
  obtain ⟨rfl, rfl⟩ := Prod.mk.inj (Except.ok.inj ran)
  exact ⟨rfl, rfl⟩

theorem drive_publisher_send {self : MqttClientFSM σ} {packet : MPublish}
    {helper : MqttClientPublisher σ} {currentTime : MqttInstant} {times : List MqttInstant}
    {actions : List ExpectedAction}
    (ran : drive MqttClientPublisher.run ⟨self, some packet, .send⟩ (currentTime :: times) =
      .ok (actions, helper)) :
    ∃ action after, self.Transition currentTime (.publishPacket (.publish packet)) action after ∧
      actions = action.toList ∧ helper.client = after.ranAt currentTime := by
  obtain ⟨⟨action, middle⟩, first, ran⟩ := except_bind_eq_ok.mp ran
  obtain ⟨⟨later, last⟩, rest, returned⟩ := except_bind_eq_ok.mp ran
  obtain ⟨rfl, rfl⟩ := Prod.mk.inj (Except.ok.inj returned)
  obtain ⟨⟨action, client⟩, step, returned⟩ := except_bind_eq_ok.mp first
  obtain ⟨rfl, rfl⟩ := Prod.mk.inj (Except.ok.inj returned)
  obtain ⟨rfl, rfl⟩ := drive_publisher_done rfl rest
  obtain ⟨after, transition, rfl⟩ := MqttClientFSM.transition_of_innerRun step
  exact ⟨action, after, transition, List.append_nil _, rfl⟩

theorem MqttClientFSM.published_of_operate {self after : MqttClientFSM σ} {packet : MPublish}
    {times : List MqttInstant} {actions : List ExpectedAction}
    (ran : self.operate (.publish packet times) = .ok (actions, after)) :
    Published self packet times actions after := by
  obtain ⟨⟨actions, helper⟩, called, same⟩ := except_map_eq_ok.mp ran
  obtain ⟨rfl, rfl⟩ := Prod.mk.inj same
  rw [MqttClientFSM.publish] at called
  cases times with
  | nil =>
    obtain ⟨rfl, rfl⟩ := Prod.mk.inj (Except.ok.inj called)
    exact .unused
  | cons currentTime times =>
    split at called
    next =>
      obtain ⟨action, after, transition, rfl, client⟩ := drive_publisher_send called
      rw [client]
      exact .sent transition
    next needed =>
      obtain ⟨⟨action, middle⟩, first, ran⟩ := except_bind_eq_ok.mp called
      obtain ⟨⟨later, last⟩, rest, returned⟩ := except_bind_eq_ok.mp ran
      obtain ⟨rfl, rfl⟩ := Prod.mk.inj (Except.ok.inj returned)
      simp only [MqttClientPublisher.run, if_pos needed] at first
      obtain ⟨⟨id, clientPis⟩, taken, returned⟩ := except_bind_eq_ok.mp first
      cases id with
      | none => cases returned
      | some id =>
        obtain ⟨rfl, rfl⟩ := Prod.mk.inj (Except.ok.inj returned)
        cases times with
        | nil =>
          obtain ⟨rfl, rfl⟩ := Prod.mk.inj (Except.ok.inj rest)
          exact .stored taken
        | cons second times =>
          obtain ⟨action, after, transition, rfl, client⟩ := drive_publisher_send rest
          rw [client]
          exact .storedAndSent taken transition

abbrev Trace (σ : Type) : Type := List (Entry (MqttClientFSM σ) Operation (List ExpectedAction))

/-- The runs of the machine that do not unwind. -/
abbrev Runs (start : MqttClientFSM σ) :
    List (Entry (MqttClientFSM σ) Operation (List ExpectedAction)) → MqttClientFSM σ → Prop :=
  Run (fun self operation actions after => self.operate operation = .ok (actions, after)) start

end

end Core
