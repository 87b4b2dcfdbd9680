import Cloudmqtt.Core.Accounting
import Cloudmqtt.Core.Bindings

/-! What the callers can know of the machine, and exactly which calls unwind.

A session is read off the calls and the actions they returned. It follows the
machine step by step, and it tells of every call whether it returns.
-/

set_option autoImplicit false

namespace Core

open Base Rust V5

inductive Phase where
  | offline
  | awaiting
  | online (pinged : Bool)
  deriving DecidableEq

structure Session where
  phase : Phase
  named : Option UInt64
  uses : PacketIdentifier → Option PacketIdentifierUsage

namespace Session

def fresh : Session := ⟨.offline, none, fun _ => none⟩

def reset (self : Session) : Session :=
  { self with phase := .offline, uses := fun id => (self.uses id).filter (·.isPublish) }

def take (self : Session) (id : PacketIdentifier) (usage : PacketIdentifierUsage) : Session :=
  { self with uses := Function.update self.uses id (some usage) }

def give (self : Session) (id : PacketIdentifier) : Session :=
  { self with uses := Function.update self.uses id none }

def told (self : Session) : ExpectedAction → Session
  | .sendPacket (.pingreq _) => { self with phase := .online true }
  | .sendPacket (.subscribe packet) => self.take packet.packetIdentifier .nonPublish
  | .storePacket id => self.take id .publish
  | .releasePacket id => self.give id
  | .disconnect => self.reset
  | _ => self

section

variable [FxHasher]

/-- What follows from a packet that was taken in. -/
def heard (self : Session) (packet : MqttPacket) : Session :=
  match self.phase, packet with
  | .awaiting, .connack connack =>
    let clientIdentifier : Option String := connack.properties.slot .assignedClientIdentifier
    { self with
      phase := .online false
      named := (clientIdentifier.map FxHasher.hash).or self.named }
  | .online _, .pingresp _ => { self with phase := .online false }
  | .online _, .suback suback => self.give suback.packetIdentifier
  | _, _ => self

def informed (self : Session) : ExternalInfos → Session
  | .consumePacket packet => self.heard packet
  | _ => self

def asked (self : Session) : Operation → Session
  | .handleConnect _ connect =>
    { self with phase := .awaiting, named := MqttClientFSM.clientIdHash connect }
  | .consume packet _ => self.informed (.consumePacket packet)
  | .connectionLost _ => self.reset
  | _ => self

def after (self : Session) (operation : Operation) (actions : List ExpectedAction) : Session :=
  actions.foldl told (self.asked operation)

end

/-- The packets that are taken in: on a connection those of the exchanges that are
implemented, with identifiers that are in use. -/
def Hears (self : Session) (packet : MqttPacket) : Prop :=
  match self.phase with
  | .offline => True
  | .awaiting =>
    ∃ connack, packet = .connack connack ∧ connack.reasonCode = ⟨.success, success_mem_connack⟩
  | .online pinged =>
    match packet with
    | .publish publish => publish.qualityOfService = .atMostOnce ∨
        (publish.qualityOfService = .atLeastOnce ∧ publish.packetIdentifier.isSome)
    | .disconnect _ => True
    | .puback puback => self.uses puback.packetIdentifier ≠ none
    | .suback suback => self.uses suback.packetIdentifier ≠ none
    | .pingresp _ => pinged = true
    | _ => False

def Online (self : Session) : Prop := ∃ pinged, self.phase = .online pinged

variable [Target]

def available (self : Session) : Set PacketIdentifier :=
  {id | id ∈ identifiers ∧ self.uses id = none}

/-- The calls that return. -/
def Accepts [FxHasher] (self : Session) : Operation → Prop
  | .handleConnect _ connect => self.phase = .offline ∧
      (self.named = none ∨ MqttClientFSM.clientIdHash connect = self.named)
  | .consume packet _ => self.Hears packet
  | .publish packet times => times = [] ∨
      if packet.qualityOfService = .atMostOnce then self.phase ≠ .awaiting
      else self.available.Nonempty ∧ (2 ≤ times.length → self.phase ≠ .awaiting)
  | .subscribe _ _ => self.Online ∧ self.available.Nonempty
  | .acknowledge _ _ => self.Online
  | .disconnect _ _ | .connectionLost _ | .run _ => True

end Session

variable {σ : Type}

def sessionOf [FxHasher] (trace : Trace σ) : Session :=
  trace.foldl (fun session entry => session.after entry.input entry.output) .fresh

def ConnectionState.phase : ConnectionState → Phase
  | disconnected => .offline
  | connectingWithoutAuth _ => .awaiting
  | connected con =>
    match con.pingState with
    | .waitingForElapsed => .online false
    | .waitingForPingrespSince _ => .online true

theorem ConnectionState.phase_offline {state : ConnectionState} :
    state.phase = .offline ↔ state = .disconnected := by
  cases state with
  | disconnected | connectingWithoutAuth => simp [phase]
  | connected con => cases state : con.pingState <;> simp [phase, state]

theorem ConnectionState.phase_awaiting {state : ConnectionState} :
    state.phase = .awaiting ↔ ∃ conn, state = .connectingWithoutAuth conn := by
  cases state with
  | disconnected | connectingWithoutAuth => simp [phase]
  | connected con => cases state : con.pingState <;> simp [phase, state]

theorem ConnectionState.phase_online {state : ConnectionState} :
    (∃ pinged, state.phase = .online pinged) ↔ ∃ con, state = .connected con := by
  cases state with
  | disconnected | connectingWithoutAuth => simp [phase]
  | connected con => cases state : con.pingState <;> simp [phase, state]

section

variable [PacketIdentifierStore σ] [LawfulStore σ]

def MqttClientFSM.session (self : MqttClientFSM σ) : Session :=
  ⟨self.connectionState.phase, self.data.clientIdHash, self.uses⟩

theorem session_resetConnection (self : MqttClientFSM σ) :
    self.resetConnection.session = self.session.reset := by
  rw [MqttClientFSM.session, uses_resetConnection]
  rfl

theorem session_releaseContained {self after : MqttClientFSM σ} {id : PacketIdentifier}
    (ran : self.releaseContained id = .ok after) : after.session = self.session.give id := by
  obtain ⟨-, same⟩ := uses_releaseContained ran
  obtain ⟨_, rfl, -, -⟩ := MqttClientFSM.releaseContained_eq_ok ran
  rw [MqttClientFSM.session, same]
  rfl

variable [FxHasher] {self after : MqttClientFSM σ} {currentTime : MqttInstant}

theorem MqttClientFSM.Transition.session {infos : ExternalInfos} {action : Option ExpectedAction}
    (transition : self.Transition currentTime infos action after)
    (quiet : ∀ packet, infos = .publishPacket packet →
      ∀ session : Session, session.told (.sendPacket packet) = session) :
    after.session = action.toList.foldl Session.told (self.session.informed infos) := by
  have online {con : Connected} (connected : self.connectionState = .connected con) :
      ∃ pinged, self.session.phase = .online pinged :=
    ConnectionState.phase_online.mpr ⟨con, connected⟩
  cases transition with
  | @disconnected infos disconnected =>
    have phase : self.session.phase = .offline := ConnectionState.phase_offline.mpr disconnected
    cases infos with
    | consumePacket packet => simp [Session.informed, Session.heard, phase]
    | publishPacket | none => rfl
  | awaited => rfl
  | @connack conn connack _ _ connecting ran =>
    have phase : self.session.phase = .awaiting :=
      ConnectionState.phase_awaiting.mpr ⟨conn, connecting⟩
    obtain ⟨-, rfl, rfl⟩ := handleConnack_eq_ok ran
    simp only [Session.informed, Session.heard, phase]
    cases connack.properties.slot .assignedClientIdentifier <;> rfl
  | received connected | receivedOnce connected =>
    obtain ⟨pinged, phase⟩ := online connected
    simp only [Session.informed, Session.heard, phase]
    rfl
  | disconnect connected =>
    obtain ⟨pinged, phase⟩ := online connected
    rw [session_resetConnection]
    simp only [Session.informed, Session.heard, phase]
    rfl
  | puback connected ran =>
    obtain ⟨pinged, phase⟩ := online connected
    rw [session_releaseContained ran]
    simp only [Session.informed, Session.heard, phase]
    rfl
  | pingresp connected waiting =>
    obtain ⟨pinged, phase⟩ := online connected
    simp only [Session.informed, Session.heard, phase]
    rfl
  | suback connected ran =>
    obtain ⟨pinged, phase⟩ := online connected
    rw [session_releaseContained ran]
    simp only [Session.informed, Session.heard, phase]
    rfl
  | @sent con packet connected =>
    simp only [Option.toList_some, List.foldl_cons, List.foldl_nil, quiet packet rfl,
      MqttClientFSM.session, connected]
    rfl
  | @elapsed con connected =>
    rcases self.ping_cases con currentTime with pinged | pinged <;> rw [pinged] <;> rfl

theorem Published.session {packet : MPublish} {times : List MqttInstant}
    {actions : List ExpectedAction} (published : Published self packet times actions after) :
    after.session = actions.foldl Session.told self.session := by
  have taken {id : PacketIdentifier} {clientPis : σ}
      (taken : PacketIdentifierStore.getNextFree self.clientPis .publish =
        .ok (some id, clientPis)) :
      { self with clientPis := clientPis }.session = self.session.take id .publish := by
    obtain ⟨-, same⟩ := LawfulStore.getNextFree_usage taken
    simp only [MqttClientFSM.session, MqttClientFSM.uses, same]
    rfl
  have quiet (publish packet) (same : ExternalInfos.publishPacket (.publish publish) =
      .publishPacket packet) (session : Session) :
      session.told (.sendPacket packet) = session := by
    cases same
    rfl
  cases published with
  | unused => rfl
  | sent transition => exact transition.session (quiet _)
  | stored step => exact taken step
  | storedAndSent step transition =>
    rw [List.foldl_cons]
    change _ = List.foldl _ (self.session.take _ .publish) _
    rw [← taken step]
    exact transition.session (quiet _)

omit [FxHasher] in
theorem Dismissed.session {packet : MDisconnect} {times : List MqttInstant}
    {actions : List ExpectedAction} (dismissed : Dismissed self packet times actions after) :
    after.session = actions.foldl Session.told self.session := by
  cases dismissed with
  | unused | sent => rfl
  | reset => exact session_resetConnection self

theorem operate_session {operation : Operation} {actions : List ExpectedAction}
    (ran : self.operate operation = .ok (actions, after)) :
    after.session = self.session.after operation actions := by
  cases MqttClientFSM.performs_of_operate ran with
  | handleConnect => rfl
  | consume transition | run transition =>
    exact transition.session fun packet same => by cases same
  | publish => exact (MqttClientFSM.published_of_operate ran).session
  | @subscribe packet currentTime id clientPis con taken connected =>
    obtain ⟨-, same⟩ := LawfulStore.getNextFree_usage taken
    simp only [MqttClientFSM.session, MqttClientFSM.uses, same, connected]
    rfl
  | acknowledge connected =>
    simp only [MqttClientFSM.session, connected]
    rfl
  | disconnect called => exact (dismissed_of_drive called).session
  | connectionLost => exact session_resetConnection _

/-- The session of a trace is the one its machine is in. -/
theorem session_of_runs {trace : Trace σ} {start final : MqttClientFSM σ}
    (initial : start.session = .fresh) (run : Runs start trace final) :
    final.session = sessionOf trace := by
  induction run with
  | done => exact initial
  | next _ taken ih => rw [operate_session taken, ih, sessionOf, sessionOf, List.foldl_concat]

end

/-! ### The calls that return -/

theorem ok_map_iff {α β : Type} {call : Except Panic α} (f : α → β) :
    (∃ result, call.map f = .ok result) ↔ ∃ result, call = .ok result := by
  cases call with
  | error p => simp [Except.map]
  | ok a => simp [Except.map]

section

variable [Target] [FxHasher] {self : MqttClientFSM UsizePacketIdentifierStore}

omit [FxHasher] in
theorem taken_iff (usage : PacketIdentifierUsage) :
    (∃ id clientPis, PacketIdentifierStore.getNextFree self.clientPis usage =
      .ok (some id, clientPis)) ↔ self.session.available.Nonempty := by
  constructor
  · rintro ⟨id, clientPis, run⟩
    exact ⟨id, (UsizePacketIdentifierStore.getNextFree_answers run).isLeast.1⟩
  · rintro ⟨other, free⟩
    obtain ⟨⟨id, clientPis⟩, run⟩ := self.clientPis.getNextFree_ok usage
    cases id with
    | some id => exact ⟨id, clientPis, run⟩
    | none =>
      exact absurd free ((UsizePacketIdentifierStore.getNextFree_answers run).isFull other)

theorem handleConnect_ok_iff (currentTime : MqttInstant) (connect : MConnect) :
    (∃ result, self.handleConnect currentTime connect = .ok result) ↔
      self.session.phase = .offline ∧ (self.session.named = none ∨
        MqttClientFSM.clientIdHash connect = self.session.named) := by
  cases state : self.connectionState with
  | disconnected =>
    simp only [MqttClientFSM.handleConnect, MqttClientFSM.session, state, ConnectionState.phase,
      true_and]
    cases self.data.clientIdHash with
    | none => simp
    | some hash =>
      by_cases same : MqttClientFSM.clientIdHash connect = some hash <;> simp [same]
  | connectingWithoutAuth conn =>
    simp [MqttClientFSM.handleConnect, MqttClientFSM.session, state, ConnectionState.phase]
  | connected con =>
    cases pinging : con.pingState <;>
      simp [MqttClientFSM.handleConnect, MqttClientFSM.session, state, ConnectionState.phase,
        pinging]

theorem innerRun_ok_iff (currentTime : MqttInstant) (infos : ExternalInfos) :
    (∃ result, self.innerRun currentTime infos = .ok result) ↔
      ∃ result, self.handle currentTime infos = .ok result := by
  rw [MqttClientFSM.innerRun]
  cases self.handle currentTime infos with
  | error p => simp
  | ok result => exact iff_of_true ⟨_, rfl⟩ ⟨_, rfl⟩

omit [FxHasher] in
theorem releaseContained_ok_iff (id : PacketIdentifier) :
    (∃ after, self.releaseContained id = .ok after) ↔ self.uses id ≠ none := by
  constructor
  · rintro ⟨after, ran⟩
    exact (uses_releaseContained ran).1
  · intro used
    have contained : PacketIdentifierStore.contains self.clientPis id = true := by
      rw [LawfulStore.contains_usage]
      exact Option.isSome_iff_ne_none.mpr used
    have inside :=
      UsizePacketIdentifierStore.mem_identifiers.mp (self.clientPis.bindings.within used)
    obtain ⟨clientPis, released⟩ := self.clientPis.release_ok inside
    rw [MqttClientFSM.releaseContained, if_pos contained]
    exact ⟨_, congrArg (Except.map _) released⟩

omit [FxHasher] in
theorem consumePacket_ok_iff {con : Connected} (connected : self.connectionState = .connected con)
    (packet : MqttPacket) :
    (∃ result, self.consumePacket con packet = .ok result) ↔ self.session.Hears packet := by
  have phase : self.session.phase = .online (decide (con.pingState ≠ .waitingForElapsed)) := by
    cases pinging : con.pingState <;>
      simp [MqttClientFSM.session, connected, ConnectionState.phase, pinging]
  simp only [Session.Hears, phase]
  cases packet with
  | publish publish =>
    simp only [MqttClientFSM.consumePacket]
    cases publish.qualityOfService with
    | atMostOnce => simp
    | atLeastOnce => cases publish.packetIdentifier <;> simp
    | exactlyOnce => simp
  | disconnect => exact iff_of_true ⟨_, rfl⟩ trivial
  | puback puback => exact (ok_map_iff _).trans (releaseContained_ok_iff puback.packetIdentifier)
  | pingresp =>
    simp only [MqttClientFSM.consumePacket]
    cases con.pingState <;> simp
  | suback suback => exact (ok_map_iff _).trans (releaseContained_ok_iff suback.packetIdentifier)
  | _ => simp [MqttClientFSM.consumePacket]

theorem consume_ok_iff (packet : MqttPacket) (currentTime : MqttInstant) :
    (∃ result, self.consume packet currentTime = .ok result) ↔ self.session.Hears packet := by
  rw [MqttClientFSM.consume, innerRun_ok_iff, MqttClientFSM.handle]
  cases state : self.connectionState with
  | disconnected =>
    simp [Session.Hears, MqttClientFSM.session, state, ConnectionState.phase]
  | connectingWithoutAuth conn =>
    simp only [Session.Hears, MqttClientFSM.session, state, ConnectionState.phase,
      MqttClientFSM.handleConnectingWithoutAuth]
    cases packet with
    | connack connack =>
      by_cases success : connack.reasonCode = ⟨.success, success_mem_connack⟩ <;>
        simp [MqttClientFSM.handleConnack, success]
    | _ => simp
  | connected con =>
    rw [← consumePacket_ok_iff state, MqttClientFSM.handleConnected]
    simp only [state]

theorem publishPacket_ok_iff (currentTime : MqttInstant) (packet : MqttPacket) :
    (∃ result, self.innerRun currentTime (.publishPacket packet) = .ok result) ↔
      self.session.phase ≠ .awaiting := by
  cases state : self.connectionState with
  | disconnected =>
    rw [self.innerRun_disconnected currentTime state]
    simp [MqttClientFSM.session, state, ConnectionState.phase]
  | connectingWithoutAuth conn =>
    rw [self.innerRun_connecting currentTime state]
    simp [MqttClientFSM.session, state, ConnectionState.phase]
  | connected con =>
    rw [self.innerRun_connected currentTime state]
    cases pinging : con.pingState <;>
      simp [MqttClientFSM.session, state, ConnectionState.phase, pinging]

omit [Target] [FxHasher] in
theorem drive_ok_iff {η : Type} {run : η → MqttInstant → Except Panic (Option ExpectedAction × η)}
    {helper : η} {currentTime : MqttInstant} {times : List MqttInstant} :
    (∃ result, drive run helper (currentTime :: times) = .ok result) ↔
      ∃ action next, run helper currentTime = .ok (action, next) ∧
        ∃ result, drive run next times = .ok result := by
  constructor
  · rintro ⟨result, ran⟩
    obtain ⟨⟨action, next⟩, first, ran⟩ := except_bind_eq_ok.mp ran
    obtain ⟨rest, later, -⟩ := except_bind_eq_ok.mp ran
    exact ⟨action, next, first, rest, later⟩
  · rintro ⟨action, next, first, rest, later⟩
    exact ⟨_, except_bind_eq_ok.mpr ⟨_, first, except_bind_eq_ok.mpr ⟨_, later, rfl⟩⟩⟩

theorem drive_send_ok_iff (packet : MPublish) (currentTime : MqttInstant)
    (times : List MqttInstant) :
    (∃ result, drive MqttClientPublisher.run ⟨self, some packet, .send⟩ (currentTime :: times) =
      .ok result) ↔ self.session.phase ≠ .awaiting := by
  rw [drive_ok_iff, ← publishPacket_ok_iff currentTime (.publish packet)]
  simp only [MqttClientPublisher.run]
  constructor
  · rintro ⟨action, next, ran, -⟩
    obtain ⟨result, step, -⟩ := except_bind_eq_ok.mp ran
    exact ⟨result, step⟩
  · rintro ⟨⟨action, client⟩, step⟩
    rw [step]
    exact ⟨action, _, rfl, _, drive_silent fun _ => rfl⟩

theorem publish_ok_iff (packet : MPublish) (times : List MqttInstant) :
    (∃ result, self.operate (.publish packet times) = .ok result) ↔
      self.session.Accepts (.publish packet times) := by
  rw [MqttClientFSM.operate, ok_map_iff, Session.Accepts]
  cases times with
  | nil => exact iff_of_true ⟨_, rfl⟩ (.inl rfl)
  | cons currentTime times =>
    simp only [reduceCtorEq, false_or, MqttClientFSM.publish]
    split
    next => exact drive_send_ok_iff packet currentTime times
    next needed =>
      -- the first call takes an identifier, the second one sends
      rw [drive_ok_iff, ← taken_iff .publish]
      simp only [MqttClientPublisher.run, if_pos needed]
      have behind {id : PacketIdentifier} {clientPis : UsizePacketIdentifierStore} :
          (∃ result, drive MqttClientPublisher.run ⟨{ self with clientPis },
            some { packet with packetIdentifier := some id }, .send⟩ times = .ok result) ↔
            (2 ≤ (currentTime :: times).length → self.session.phase ≠ .awaiting) := by
        cases times with
        | nil =>
          apply iff_of_true ⟨_, rfl⟩
          intro twice
          exact absurd twice (Nat.lt_irrefl 1)
        | cons later times =>
          rw [drive_send_ok_iff]
          have twice : 2 ≤ (currentTime :: later :: times).length := Nat.le_add_left 2 times.length
          exact ⟨fun sends _ => sends, fun sends => sends twice⟩
      constructor
      · rintro ⟨action, next, ran, rest⟩
        obtain ⟨⟨id, clientPis⟩, taken, ran⟩ := except_bind_eq_ok.mp ran
        cases id with
        | none => cases ran
        | some id =>
          obtain ⟨rfl, rfl⟩ := Prod.mk.inj (Except.ok.inj ran)
          exact ⟨⟨id, clientPis, taken⟩, behind.mp rest⟩
      · rintro ⟨⟨id, clientPis, taken⟩, rest⟩
        refine ⟨some (.storePacket id), ⟨{ self with clientPis },
          some { packet with packetIdentifier := some id }, .send⟩, ?_, behind.mpr rest⟩
        exact except_bind_eq_ok.mpr ⟨_, taken, rfl⟩

omit [FxHasher] in
theorem online_iff : self.isConnected = true ↔ self.session.Online :=
  MqttClientFSM.isConnected_iff.trans ConnectionState.phase_online.symm

theorem subscribe_ok_iff (currentTime : MqttInstant) (packet : MSubscribe) :
    (∃ result, self.subscribe currentTime packet = .ok result) ↔
      self.session.Online ∧ self.session.available.Nonempty := by
  have sent_iff (clientPis : UsizePacketIdentifierStore) (packet : MqttPacket) :
      (∃ result, { self with clientPis := clientPis }.send currentTime packet = .ok result) ↔
        self.isConnected = true :=
    MqttClientFSM.send_ok_iff currentTime packet
  rw [← online_iff, ← taken_iff .nonPublish]
  constructor
  · rintro ⟨⟨action, after⟩, ran⟩
    obtain ⟨id, clientPis, taken, sent⟩ := MqttClientFSM.subscribe_eq_ok ran
    exact ⟨(sent_iff clientPis _).mp ⟨_, sent⟩, id, clientPis, taken⟩
  · rintro ⟨connected, id, clientPis, taken⟩
    obtain ⟨result, sent⟩ := (sent_iff clientPis
      (.subscribe { packet with packetIdentifier := id })).mpr connected
    exact ⟨result, except_bind_eq_ok.mpr ⟨_, taken, sent⟩⟩

omit [FxHasher] in
theorem dismiss_ok {packet : MDisconnect} (times : List MqttInstant) :
    ∃ result, drive MqttClientDisconnecter.run (self.disconnect packet) times = .ok result := by
  have always (helper : MqttClientDisconnecter UsizePacketIdentifierStore) :
      ∃ result, drive MqttClientDisconnecter.run helper times = .ok result := by
    induction times generalizing helper with
    | nil => exact ⟨_, rfl⟩
    | cons currentTime times ih =>
      obtain ⟨⟨action, next⟩, ran⟩ : ∃ result, helper.run currentTime = .ok result := by
        rw [MqttClientDisconnecter.run]
        cases helper.state <;> exact ⟨_, rfl⟩
      exact drive_ok_iff.mpr ⟨action, next, ran, ih next⟩
  exact always _

/-- A call returns exactly when the session accepts it. -/
theorem operate_ok_iff (operation : Operation) :
    (∃ result, self.operate operation = .ok result) ↔ self.session.Accepts operation := by
  cases operation with
  | handleConnect currentTime connect =>
    exact (ok_map_iff _).trans (handleConnect_ok_iff currentTime connect)
  | consume packet currentTime => exact (ok_map_iff _).trans (consume_ok_iff packet currentTime)
  | publish packet times => exact publish_ok_iff packet times
  | subscribe currentTime packet => exact (ok_map_iff _).trans (subscribe_ok_iff currentTime packet)
  | acknowledge currentTime acknowledge =>
    exact (ok_map_iff _).trans ((self.send_ok_iff currentTime _).trans online_iff)
  | disconnect packet times => exact (ok_map_iff _).trans (iff_of_true (dismiss_ok times) trivial)
  | connectionLost currentTime => exact iff_of_true ⟨_, rfl⟩ trivial
  | run currentTime =>
    refine (ok_map_iff _).trans (iff_of_true ?_ trivial)
    apply (innerRun_ok_iff currentTime .none).mpr
    rw [MqttClientFSM.handle]
    cases state : self.connectionState with
    | disconnected => exact ⟨_, rfl⟩
    | connectingWithoutAuth conn =>
      simp only [MqttClientFSM.handleConnectingWithoutAuth, state]
      exact ⟨_, rfl⟩
    | connected con =>
      simp only [MqttClientFSM.handleConnected, state]
      exact ⟨_, rfl⟩

/-! ### Runs -/

/-- After any run, and for any next call: it returns exactly when the calls so far
and the actions they returned allow it. -/
theorem returns_iff_of_runs {trace : Trace UsizePacketIdentifierStore}
    {final : MqttClientFSM UsizePacketIdentifierStore} (run : Runs .default trace final)
    (operation : Operation) :
    (∃ result, final.operate operation = .ok result) ↔ (sessionOf trace).Accepts operation := by
  rw [← session_of_runs (by rw [MqttClientFSM.session, uses_default]; rfl) run]
  exact operate_ok_iff operation

omit [Target] [FxHasher] in
theorem returns_iff_of_runs_publish : ∃ trace final,
    @Runs _ _ unhashed (@MqttClientFSM.default x86_64) trace final ∧
      trace.map (·.input) = publishSession ∧
      ((∃ result, @MqttClientFSM.operate _ _ unhashed final (.consume firstPuback ⟨0⟩) =
          .ok result) ↔
        @Session.Accepts x86_64 unhashed (@sessionOf _ unhashed trace)
          (.consume firstPuback ⟨0⟩)) := by
  have session : ∃ trace final, @Runs _ _ unhashed (@MqttClientFSM.default x86_64) trace final ∧
      trace.map (·.input) = publishSession :=
    ⟨_, _, .next (.next (.next (.next .done rfl) rfl) rfl) rfl, rfl⟩
  obtain ⟨trace, final, run, inputs⟩ := session
  exact ⟨trace, final, run, inputs, @returns_iff_of_runs x86_64 unhashed _ _ run _⟩

omit [Target] in
theorem MqttClientFSM.Transition.takes_none {σ : Type} [PacketIdentifierStore σ]
    {self after : MqttClientFSM σ} {currentTime : MqttInstant} {infos : ExternalInfos}
    {action : Option ExpectedAction} (transition : self.Transition currentTime infos action after)
    (quiet : ∀ packet, infos = .publishPacket packet →
      (ExpectedAction.sendPacket packet).leases = []) (id : PacketIdentifier)
    (usage : PacketIdentifierUsage) :
    .take id usage ∉ infos.leases self.isConnected ++
      action.toList.flatMap ExpectedAction.leases := by
  cases transition with
  | disconnected disconnected =>
    simp [isConnected_of_disconnected disconnected, ExternalInfos.leases_false]
  | connack _ ran =>
    have none : action.toList.flatMap ExpectedAction.leases = [] :=
      flatMap_handleConnack (fun _ => rfl) ran
    simp [ExternalInfos.leases, none]
  | suback connected => simp [ExternalInfos.leases, isConnected_of_connected connected]
  | @sent _ packet => simp [ExternalInfos.leases, quiet packet rfl]
  | @elapsed con connected =>
    rcases self.ping_cases con currentTime with pinged | pinged <;>
      simp [pinged, ExternalInfos.leases, ExpectedAction.leases]
  | _ => simp [ExternalInfos.leases, ExpectedAction.leases]

omit [FxHasher] in
theorem least_of_taken {usage : PacketIdentifierUsage} {id : PacketIdentifier}
    {clientPis : UsizePacketIdentifierStore} (taken : PacketIdentifierStore.getNextFree
      self.clientPis usage = .ok (some id, clientPis)) : IsLeast self.session.available id :=
  (UsizePacketIdentifierStore.getNextFree_answers taken).isLeast

structure Takes (before : MqttClientFSM UsizePacketIdentifierStore) (taken : List PacketLease)
    (id : PacketIdentifier) (usage : PacketIdentifierUsage) : Prop where
  only : taken = [.take id usage]
  least : IsLeast before.session.available id

theorem Published.takes {after : MqttClientFSM UsizePacketIdentifierStore}
    {packet : MPublish} {times : List MqttInstant} {actions : List ExpectedAction}
    (published : Published self packet times actions after) {id : PacketIdentifier}
    {usage : PacketIdentifierUsage}
    (member : .take id usage ∈ actions.flatMap ExpectedAction.leases) :
    Takes self (actions.flatMap ExpectedAction.leases) id usage := by
  have sends {before after : MqttClientFSM UsizePacketIdentifierStore} {publish : MPublish}
      {currentTime : MqttInstant} {action : Option ExpectedAction}
      (transition : before.Transition currentTime (.publishPacket (.publish publish)) action
        after) : action.toList.flatMap ExpectedAction.leases = [] := by
    cases transition <;> rfl
  cases published with
  | unused => cases member
  | sent transition =>
    rw [sends transition] at member
    cases member
  | stored taken =>
    obtain ⟨rfl, rfl⟩ := Lease.take.inj (List.mem_singleton.mp member)
    exact ⟨rfl, least_of_taken taken⟩
  | storedAndSent taken transition =>
    rw [List.flatMap_cons, sends transition] at member ⊢
    obtain ⟨rfl, rfl⟩ := Lease.take.inj (List.mem_singleton.mp member)
    exact ⟨rfl, least_of_taken taken⟩

theorem takes_of_operate {after : MqttClientFSM UsizePacketIdentifierStore} {operation : Operation}
    {actions : List ExpectedAction} (ran : self.operate operation = .ok (actions, after))
    {id : PacketIdentifier} {usage : PacketIdentifierUsage}
    (member : .take id usage ∈ leases ⟨self, operation, actions⟩) :
    Takes self (leases ⟨self, operation, actions⟩) id usage := by
  cases MqttClientFSM.performs_of_operate ran with
  | handleConnect | acknowledge | connectionLost =>
    simp [leases, Operation.leases, ExpectedAction.leases] at member
  | consume transition | run transition =>
    exact absurd member (transition.takes_none (fun packet same => by cases same) id usage)
  | publish => exact (MqttClientFSM.published_of_operate ran).takes member
  | subscribe taken =>
    obtain ⟨rfl, rfl⟩ := Lease.take.inj (List.mem_singleton.mp member)
    exact ⟨rfl, least_of_taken taken⟩
  | disconnect called =>
    have dismissed := dismissed_of_drive called
    generalize MqttClientDisconnecter.client _ = final at dismissed
    cases dismissed <;> simp [leases, Operation.leases, ExpectedAction.leases] at member

theorem least_of_runs {front back : Trace UsizePacketIdentifierStore}
    {entry : Entry (MqttClientFSM UsizePacketIdentifierStore) Operation (List ExpectedAction)}
    {final : MqttClientFSM UsizePacketIdentifierStore}
    (run : Runs .default (front ++ entry :: back) final) {id : PacketIdentifier}
    {usage : PacketIdentifierUsage} (member : .take id usage ∈ leases entry) :
    IsLeast (sessionOf front).available id := by
  obtain ⟨earlier, after, taken, -⟩ := run.of_entry
  rw [← session_of_runs (by rw [MqttClientFSM.session, uses_default]; rfl) earlier]
  exact (takes_of_operate taken member).least

omit [Target] [FxHasher] in
theorem least_of_runs_second : ∃ front entry final id,
    @Runs _ _ unhashed (@MqttClientFSM.default x86_64) (front ++ [entry]) final ∧
      front.map (·.input) = [.handleConnect ⟨0⟩ anonymousConnect, .consume accepting ⟨0⟩,
        .publish atLeastOnce [⟨0⟩]] ∧ entry.input = .publish atLeastOnce [⟨0⟩] ∧
      number id = 2 ∧ IsLeast (@Session.available x86_64 (@sessionOf _ unhashed front)) id := by
  have run : ∃ front entry final, @Runs _ _ unhashed (@MqttClientFSM.default x86_64)
      (front ++ [entry]) final ∧
      front.map (·.input) = [.handleConnect ⟨0⟩ anonymousConnect, .consume accepting ⟨0⟩,
        .publish atLeastOnce [⟨0⟩]] ∧ entry.input = .publish atLeastOnce [⟨0⟩] ∧
      .take ⟨⟨2, by decide⟩⟩ .publish ∈ leases entry :=
    ⟨_, _, _, .next (.next (.next (.next .done rfl) rfl) rfl) rfl, rfl, rfl, .head _⟩
  obtain ⟨front, entry, final, run, inputs, last, member⟩ := run
  exact ⟨front, entry, final, _, run, inputs, last, rfl,
    @least_of_runs x86_64 unhashed _ _ _ _ run _ _ member⟩

end

end Core
