import Cloudmqtt.Client.CoreClient

/-! What a task and its state machine expect of each other: the machine is called
in states that allow it, and the actions it returns have a case in the task.
-/

set_option autoImplicit false

namespace Client

open Base Rust V5 Core

/-! ### Actions -/

/-- `handle_action` carries the action out, if what it hands on is taken. -/
def CarriedOut (action : ExpectedAction) : Prop :=
  (handleAction (fun _ => .ok true) action).outcome = .ok ()

theorem carry_cases (transport : Transport) (failure : Panic) (effect : Effect) :
    (carry transport failure effect).outcome = .ok () ∨
      ∃ p, (carry transport failure effect).outcome = .error (.transport p) := by
  unfold carry
  split
  next => exact .inl rfl
  next => exact .inr ⟨failure, rfl⟩
  next p _ => exact .inr ⟨p, rfl⟩

theorem carriedOut_or (action : ExpectedAction) :
    (CarriedOut action ∧ ∀ transport, (handleAction transport action).outcome = .ok () ∨
      ∃ p, (handleAction transport action).outcome = .error (.transport p)) ∨
    (¬ CarriedOut action ∧ ∀ transport,
      (handleAction transport action).outcome = .error (.driver .unreachable)) := by
  cases action with
  | sendPacket packet => exact .inl ⟨rfl, fun transport => carry_cases transport _ _⟩
  | receivePacket received =>
    cases received with
    | noFurtherAction packet => exact .inl ⟨rfl, fun transport => carry_cases transport _ _⟩
    | acknowledgeNeeded => exact .inr ⟨by simp [CarriedOut, handleAction], fun _ => rfl⟩
  | _ => exact .inr ⟨by simp [CarriedOut, handleAction], fun _ => rfl⟩

theorem carriedOut_of_handleAction {transport : Transport} {action : ExpectedAction}
    (handled : (handleAction transport action).outcome = .ok ()) : CarriedOut action := by
  rcases carriedOut_or action with ⟨carried, -⟩ | ⟨-, fails⟩
  · exact carried
  · simp [fails] at handled

theorem handleAction_driver_iff {transport : Transport} {action : ExpectedAction} {p : Panic} :
    (handleAction transport action).outcome = .error (.driver p) ↔
      p = .unreachable ∧ ¬ CarriedOut action := by
  rcases carriedOut_or action with ⟨carried, outcomes⟩ | ⟨uncarried, fails⟩
  · rcases outcomes transport with handled | ⟨_, failed⟩
    · simp [handled, carried]
    · simp [failed, carried]
  · simp [fails, uncarried, eq_comm]

theorem handleAction_ne_machine {transport : Transport} {action : ExpectedAction} {p : Panic} :
    (handleAction transport action).outcome ≠ .error (.machine p) := by
  intro failed
  rcases carriedOut_or action with ⟨-, outcomes⟩ | ⟨-, fails⟩
  · rcases outcomes transport with handled | ⟨_, other⟩
    · simp [handled] at failed
    · simp [other] at failed
  · simp [fails] at failed

theorem handleSome_driver_iff {transport : Transport} {action : Option ExpectedAction} {p : Panic} :
    (handleSome transport action).outcome = .error (.driver p) ↔
      p = .unreachable ∧ ∃ a, action = some a ∧ ¬ CarriedOut a := by
  cases action with
  | none => simp [handleSome]
  | some a => simpa [handleSome] using handleAction_driver_iff

theorem handleSome_ne_machine {transport : Transport} {action : Option ExpectedAction} {p : Panic} :
    (handleSome transport action).outcome ≠ .error (.machine p) := by
  cases action with
  | none => simp [handleSome]
  | some a => exact handleAction_ne_machine

theorem machine_outcome_ok {α : Type} {x : Except Panic α} {a : α} :
    (machine x).outcome = .ok a ↔ x = .ok a := by
  cases x <;> simp [machine]

theorem machine_outcome_error {α : Type} {x : Except Panic α} {fault : TaskFault} :
    (machine x).outcome = .error fault ↔ ∃ p, x = .error p ∧ fault = .machine p := by
  cases x <;> simp [machine, eq_comm]

/-! ### Incoming packets -/

section

variable {σ : Type} [PacketIdentifierStore σ] [FxHasher] {fsm after : MqttClientFSM σ}

/-- What the machine asks for on this packet, if it takes it, is a packet to
send or a message that needs no answer. -/
def Answerable (fsm : MqttClientFSM σ) (packet : MqttPacket) : Prop :=
  match fsm.connectionState, packet with
  | .connected _, .disconnect _ => False
  | .connected _, .puback _ => False
  | .connected _, .publish publish => publish.qualityOfService = .atMostOnce
  | .connectingWithoutAuth _, .connack connack =>
    connack.properties.slot .assignedClientIdentifier = (none : Option String)
  | _, _ => True

theorem answerable_iff {packet : MqttPacket} {currentTime : MqttInstant}
    {action : Option ExpectedAction}
    (consumed : fsm.consume packet currentTime = .ok (action, after)) :
    (∀ a, action = some a → CarriedOut a) ↔ Answerable fsm packet := by
  obtain ⟨middle, transition, -⟩ := MqttClientFSM.transition_of_innerRun consumed
  cases transition with
  | disconnected disconnected => simp [Answerable, disconnected]
  | @connack conn connack _ _ connecting ran =>
    obtain ⟨-, rfl, -⟩ := MqttClientFSM.handleConnack_eq_ok ran
    simp only [Answerable, connecting]
    cases connack.properties.slot .assignedClientIdentifier with
    | none => simp
    | some identifier => simp [CarriedOut, handleAction]
  | received connected qos => simp [Answerable, connected, qos, CarriedOut, handleAction, carry]
  | receivedOnce connected qos => simp [Answerable, connected, qos, CarriedOut, handleAction]
  | disconnect connected => simp [Answerable, connected, CarriedOut, handleAction]
  | puback connected => simp [Answerable, connected, CarriedOut, handleAction]
  | pingresp connected => simp [Answerable, connected]
  | suback connected => simp [Answerable, connected]

theorem consumeIncoming_driver_iff {packet : MqttPacket} {currentTime : MqttInstant}
    {transport : Transport} {p : Panic} :
    (consumeIncoming transport fsm packet currentTime).outcome = .error (.driver p) ↔
      p = .unreachable ∧ (∃ result, fsm.consume packet currentTime = .ok result) ∧
        ¬ Answerable fsm packet := by
  simp only [consumeIncoming, Emit.outcome_bind_eq_error, machine_outcome_error, machine_outcome_ok,
    reduceCtorEq, and_false, exists_false, false_or, handleSome_driver_iff, Emit.outcome_pure,
    or_false]
  constructor
  · rintro ⟨⟨action, after⟩, consumed, rfl, a, rfl, uncarried⟩
    refine ⟨rfl, ⟨_, consumed⟩, fun answerable => ?_⟩
    exact uncarried ((answerable_iff consumed).mpr answerable a rfl)
  · rintro ⟨rfl, ⟨⟨action, after⟩, consumed⟩, unanswerable⟩
    have uncarried := mt (answerable_iff consumed).mp unanswerable
    push Not at uncarried
    obtain ⟨a, some, uncarried⟩ := uncarried
    exact ⟨_, consumed, rfl, a, some, uncarried⟩

end

/-! ### Queued packets -/

section

variable {σ : Type} [PacketIdentifierStore σ] [FxHasher]

/-- What every call of the publisher keeps holds after the loop, and where the
loop unwinds it held before the call. -/
theorem publishActions_spec (holds : MqttClientPublisher σ → Prop)
    (each : ∀ {publisher next currentTime action}, holds publisher →
      publisher.run currentTime = .ok (action, next) → holds next)
    (transport : Transport) (clock : Nat → MqttInstant) {publisher : MqttClientPublisher σ}
    (initial : holds publisher) :
    (∀ next, (publishActions transport clock publisher).outcome = .ok next → holds next) ∧
      ∀ fault, (publishActions transport clock publisher).outcome = .error fault →
        ∃ publisher currentTime, holds publisher ∧
          ((∃ p, publisher.run currentTime = .error p ∧ fault = .machine p) ∨
            ∃ action next, publisher.run currentTime = .ok (some action, next) ∧
              (handleAction transport action).outcome = .error fault) := by
  fun_induction publishActions transport clock publisher with
  | case1 clock publisher p ran =>
    refine ⟨fun next ended => by simp at ended, fun fault failed => ?_⟩
    exact ⟨publisher, clock 0, initial, .inl ⟨p, ran, (Except.error.inj failed).symm⟩⟩
  | case2 clock publisher next ran =>
    refine ⟨fun last ended => ?_, fun fault failed => by simp at failed⟩
    obtain rfl := Except.ok.inj ended
    exact each initial ran
  | case3 clock publisher action next ran ih =>
    obtain ⟨ended, failed⟩ := ih (each initial ran)
    constructor
    · intro last outcome
      obtain ⟨-, -, later⟩ := Emit.outcome_bind_eq_ok.mp outcome
      exact ended last later
    · intro fault outcome
      rcases Emit.outcome_bind_eq_error.mp outcome with now | ⟨-, -, later⟩
      · exact ⟨publisher, clock 0, initial, .inr ⟨action, next, ran, now⟩⟩
      · exact failed fault later

structure Serving (hash : Option UInt64) (fsm : MqttClientFSM σ) : Prop where
  connected : fsm.isConnected = true
  named : fsm.data.clientIdHash = hash

variable {hash : Option UInt64}

theorem Serving.sent {fsm after : MqttClientFSM σ} (serving : Serving hash fsm)
    {currentTime : MqttInstant} {packet : MqttPacket} {action : Option ExpectedAction}
    (ran : fsm.innerRun currentTime (.publishPacket packet) = .ok (action, after)) :
    Serving hash after ∧ action = some (.sendPacket packet) := by
  obtain ⟨con, connected⟩ := MqttClientFSM.isConnected_iff.mp serving.connected
  rw [MqttClientFSM.innerRun_connected currentTime connected] at ran
  obtain ⟨rfl, rfl⟩ := Prod.mk.inj (Except.ok.inj ran)
  exact ⟨⟨rfl, serving.named⟩, rfl⟩

theorem Serving.publisher {publisher next : MqttClientPublisher σ}
    (serving : Serving hash publisher.client) {currentTime : MqttInstant}
    {action : Option ExpectedAction} (ran : publisher.run currentTime = .ok (action, next)) :
    Serving hash next.client := by
  cases MqttClientPublisher.call_of_run ran with
  | store => exact ⟨serving.connected, serving.named⟩
  | send _ _ sent => exact (serving.sent sent).1
  | idle => exact serving

theorem publisher_sends {publisher next : MqttClientPublisher σ}
    (sending : publisher.state ≠ .store) {currentTime : MqttInstant}
    {action : Option ExpectedAction}
    (ran : publisher.run currentTime = .ok (action, next)) :
    next.state ≠ .store ∧ ∀ a, action = some a → CarriedOut a := by
  cases MqttClientPublisher.call_of_run ran with
  | store state => exact absurd state sending
  | send _ _ step =>
    obtain ⟨_, transition, -⟩ := MqttClientFSM.transition_of_innerRun step
    refine ⟨by simp, fun a some => ?_⟩
    cases transition with
    | disconnected => simp at some
    | sent =>
      obtain rfl := Option.some.inj some
      rfl
  | idle => exact ⟨sending, fun a some => by simp at some⟩

theorem run_carriedOut {fsm after : MqttClientFSM σ} {currentTime : MqttInstant}
    {action : Option ExpectedAction} (ran : fsm.run currentTime = .ok (action, after)) :
    (∀ a, action = some a → CarriedOut a) ∧ after.data.clientIdHash = fsm.data.clientIdHash := by
  obtain ⟨middle, transition, rfl⟩ := MqttClientFSM.transition_of_innerRun ran
  cases transition with
  | disconnected => exact ⟨fun a some => by simp at some, rfl⟩
  | awaited => exact ⟨fun a some => by simp at some, rfl⟩
  | @elapsed con =>
    rcases fsm.ping_cases con currentTime with pinged | pinged
    · rw [pinged]
      refine ⟨fun a some => ?_, rfl⟩
      obtain rfl := Option.some.inj some
      rfl
    · rw [pinged]
      exact ⟨fun a some => by simp at some, rfl⟩

theorem run_ok {fsm : MqttClientFSM σ} (connected : fsm.isConnected = true)
    (currentTime : MqttInstant) : ∃ result, fsm.run currentTime = .ok result := by
  obtain ⟨con, connected⟩ := MqttClientFSM.isConnected_iff.mp connected
  rw [MqttClientFSM.run, MqttClientFSM.innerRun, MqttClientFSM.handle, connected]
  simp only [MqttClientFSM.handleConnected, connected]
  exact ⟨_, rfl⟩

end

inductive OutOfIdentifiers : Panic → Prop where
  | publish : OutOfIdentifiers .unwrapNone
  | subscribe : OutOfIdentifiers (.expect "could not get a free packet identifier")

section

variable [Target] [FxHasher] {fsm : Fsm} {hash : Option UInt64}

theorem Serving.publisher_error {publisher : MqttClientPublisher UsizePacketIdentifierStore}
    (serving : Serving hash publisher.client) {currentTime : MqttInstant} {p : Panic}
    (failed : publisher.run currentTime = .error p) : OutOfIdentifiers p := by
  unfold MqttClientPublisher.run at failed
  split at failed
  next =>
    split at failed
    next =>
      split at failed
      next =>
        obtain ⟨⟨id, clientPis⟩, taken⟩ := publisher.client.clientPis.getNextFree_ok .publish
        change UsizePacketIdentifierStore.getNextFree _ _ >>= _ = _ at failed
        rw [taken] at failed
        cases id with
        | none =>
          obtain rfl := Except.error.inj failed
          exact .publish
        | some id => simp [bind, Except.bind] at failed
      next => simp at failed
    next => simp at failed
  next =>
    split at failed
    next packet _ =>
      obtain ⟨con, connected⟩ := MqttClientFSM.isConnected_iff.mp serving.connected
      rw [MqttClientFSM.innerRun_connected _ connected] at failed
      simp [bind, Except.bind] at failed
    next =>
      obtain rfl := Except.error.inj failed
      exact .publish
  next => simp at failed

theorem Serving.subscribe {after : Fsm} (serving : Serving hash fsm) {packet : MSubscribe}
    {currentTime : MqttInstant} {action : ExpectedAction}
    (ran : fsm.subscribe currentTime packet = .ok (action, after)) :
    CarriedOut action ∧ after.data.clientIdHash = hash := by
  obtain ⟨id, clientPis, -, sent⟩ := MqttClientFSM.subscribe_eq_ok ran
  obtain ⟨rfl, con, -, rfl⟩ := MqttClientFSM.send_eq_ok sent
  exact ⟨rfl, serving.named⟩

theorem Serving.subscribe_error (serving : Serving hash fsm) {packet : MSubscribe}
    {currentTime : MqttInstant} {p : Panic}
    (failed : fsm.subscribe currentTime packet = .error p) : OutOfIdentifiers p := by
  obtain ⟨⟨id, clientPis⟩, taken⟩ := fsm.clientPis.getNextFree_ok .nonPublish
  unfold MqttClientFSM.subscribe at failed
  change UsizePacketIdentifierStore.getNextFree _ _ >>= _ = _ at failed
  rw [taken] at failed
  cases id with
  | none =>
    obtain rfl := Except.error.inj failed
    exact .subscribe
  | some id =>
    have taken : { fsm with clientPis := clientPis }.isConnected = true := serving.connected
    obtain ⟨result, sent⟩ := (MqttClientFSM.send_ok_iff currentTime
      (.subscribe { packet with packetIdentifier := id })).mpr taken
    exact nomatch sent.symm.trans failed

variable {transport : Transport} {usage : SendUsage} {clock : Nat → MqttInstant}
  {currentTime : MqttInstant}

theorem Serving.sendQueued_ok {after : Fsm} (serving : Serving hash fsm)
    (ended : (sendQueued transport fsm usage clock currentTime).outcome = .ok after) :
    after.data.clientIdHash = hash := by
  unfold sendQueued at ended
  split at ended
  next packet =>
    obtain ⟨publisher, published, ended⟩ := Emit.outcome_bind_eq_ok.mp ended
    obtain ⟨⟨action, last⟩, ran, ended⟩ := Emit.outcome_bind_eq_ok.mp ended
    obtain ⟨-, -, ended⟩ := Emit.outcome_bind_eq_ok.mp ended
    obtain rfl := Except.ok.inj ended
    have publishing : Serving hash (fsm.publish packet).client := serving
    have kept := (publishActions_spec (fun publisher => Serving hash publisher.client)
      (fun serving ran => serving.publisher ran) transport clock publishing).1 publisher published
    rw [(run_carriedOut (machine_outcome_ok.mp ran)).2]
    exact kept.named
  next packet =>
    obtain ⟨⟨action, fsm⟩, ran, ended⟩ := Emit.outcome_bind_eq_ok.mp ended
    obtain ⟨-, -, ended⟩ := Emit.outcome_bind_eq_ok.mp ended
    obtain rfl := Except.ok.inj ended
    exact (serving.subscribe (machine_outcome_ok.mp ran)).2
  next => simp at ended

theorem Serving.sendQueued_machine (serving : Serving hash fsm) {p : Panic}
    (failed : (sendQueued transport fsm usage clock currentTime).outcome = .error (.machine p)) :
    OutOfIdentifiers p := by
  unfold sendQueued at failed
  split at failed
  next packet =>
    have publishing : Serving hash (fsm.publish packet).client := serving
    have spec := publishActions_spec (fun publisher => Serving hash publisher.client)
      (fun serving ran => serving.publisher ran) transport clock publishing
    rcases Emit.outcome_bind_eq_error.mp failed with failed | ⟨publisher, published, failed⟩
    · obtain ⟨publisher, _, serving, ⟨q, ran, same⟩ | ⟨_, _, -, unhandled⟩⟩ := spec.2 _ failed
      · obtain rfl := TaskFault.machine.inj same
        exact serving.publisher_error ran
      · exact absurd unhandled handleAction_ne_machine
    · obtain ⟨result, ran⟩ := run_ok (spec.1 publisher published).connected currentTime
      rw [ran] at failed
      rcases Emit.outcome_bind_eq_error.mp failed with failed | ⟨_, -, failed⟩
      · simp [machine] at failed
      · rcases Emit.outcome_bind_eq_error.mp failed with failed | ⟨_, -, failed⟩
        · exact absurd failed handleSome_ne_machine
        · simp at failed
  next packet =>
    rcases Emit.outcome_bind_eq_error.mp failed with failed | ⟨_, -, failed⟩
    · obtain ⟨q, ran, same⟩ := machine_outcome_error.mp failed
      obtain rfl := TaskFault.machine.inj same
      exact serving.subscribe_error ran
    · rcases Emit.outcome_bind_eq_error.mp failed with failed | ⟨_, -, failed⟩
      · exact absurd failed handleAction_ne_machine
      · simp at failed
  next => simp at failed

def SendUsage.AtMostOnce : SendUsage → Prop
  | .publish (.publish packet) => packet.qualityOfService = .atMostOnce
  | _ => True

theorem Serving.sendQueued_driver (serving : Serving hash fsm) (quiet : usage.AtMostOnce) :
    (sendQueued transport fsm usage clock currentTime).outcome ≠ .error (.driver .unreachable) := by
  intro failed
  unfold sendQueued at failed
  split at failed
  next packet =>
    have qos : packet.qualityOfService = .atMostOnce := quiet
    have sending : (fsm.publish packet).state ≠ .store := by simp [MqttClientFSM.publish, qos]
    have spec := publishActions_spec (fun publisher => publisher.state ≠ .store)
      (fun sending ran => (publisher_sends sending ran).1) transport clock sending
    rcases Emit.outcome_bind_eq_error.mp failed with failed | ⟨publisher, published, failed⟩
    · obtain ⟨publisher, _, sending, ⟨q, -, same⟩ | ⟨action, _, ran, unhandled⟩⟩ := spec.2 _ failed
      · simp at same
      · exact (handleAction_driver_iff.mp unhandled).2 ((publisher_sends sending ran).2 action rfl)
    · rcases Emit.outcome_bind_eq_error.mp failed with failed | ⟨⟨action, after⟩, ran, failed⟩
      · obtain ⟨_, -, same⟩ := machine_outcome_error.mp failed
        simp at same
      · rcases Emit.outcome_bind_eq_error.mp failed with failed | ⟨_, -, failed⟩
        · obtain ⟨-, a, some, uncarried⟩ := handleSome_driver_iff.mp failed
          exact uncarried ((run_carriedOut (machine_outcome_ok.mp ran)).1 a some)
        · simp at failed
  next packet =>
    rcases Emit.outcome_bind_eq_error.mp failed with failed | ⟨⟨action, after⟩, ran, failed⟩
    · obtain ⟨_, -, same⟩ := machine_outcome_error.mp failed
      simp at same
    · rcases Emit.outcome_bind_eq_error.mp failed with failed | ⟨_, -, failed⟩
      · have named := (serving.subscribe (machine_outcome_ok.mp ran)).1
        exact (handleAction_driver_iff.mp failed).2 named
      · simp at failed
  next => simp at failed

/-! ### Tasks -/

/-- A client identifier that is remembered is the client's own. -/
def OwnName (fsm : Fsm) : Prop :=
  ∀ hash, fsm.data.clientIdHash = some hash → hash = FxHasher.hash connectPacket.clientIdentifier

theorem OwnName.congr {after : Fsm} (own : OwnName fsm)
    (same : after.data.clientIdHash = fsm.data.clientIdHash) : OwnName after :=
  fun hash remembered => own hash (same ▸ remembered)

theorem OwnName.handleConnect (own : OwnName fsm)
    (disconnected : fsm.connectionState = .disconnected) (currentTime : MqttInstant) :
    ∃ action after, fsm.handleConnect currentTime connectPacket = .ok (action, after) ∧
      OwnName after := by
  have named : MqttClientFSM.clientIdHash connectPacket =
      some (FxHasher.hash connectPacket.clientIdentifier) := rfl
  unfold MqttClientFSM.handleConnect
  simp only [disconnected]
  cases remembered : fsm.data.clientIdHash with
  | none => exact ⟨_, _, rfl, fun hash same => (Option.some.inj (named ▸ same)).symm⟩
  | some hash =>
    rw [own hash remembered]
    simp only [named, ne_eq, not_true_eq_false, decide_false, Bool.and_false,
      Bool.false_eq_true, if_false]
    exact ⟨_, _, rfl, fun hash same => (Option.some.inj same).symm⟩

/-- A server's name for the client comes with an action that no case is for. -/
theorem consume_clientIdHash {after : Fsm} {packet : MqttPacket} {action : Option ExpectedAction}
    (consumed : fsm.consume packet currentTime = .ok (action, after))
    (carried : ∀ a, action = some a → CarriedOut a) :
    after.data.clientIdHash = fsm.data.clientIdHash := by
  have answerable := (answerable_iff consumed).mp carried
  obtain ⟨middle, transition, rfl⟩ := MqttClientFSM.transition_of_innerRun consumed
  cases transition with
  | @connack _ connack _ _ connecting ran =>
    simp only [Answerable, connecting] at answerable
    obtain ⟨-, -, _, rfl⟩ := MqttClientFSM.handleConnack_eq_ok ran
    simp [MqttClientFSM.ranAt, answerable]
  | puback _ ran | suback _ ran =>
    obtain ⟨_, rfl, -⟩ := MqttClientFSM.releaseContained_eq_ok ran
    rfl
  | _ => rfl

def Phase.Sound : Phase → Prop
  | starting fsm => fsm.connectionState = .disconnected ∧ OwnName fsm
  | running fsm | ended fsm => OwnName fsm
  | unwound _ => True

theorem Connection.settle_sound {connection : Connection} {ran : Driven Fsm}
    (own : ∀ fsm, ran.outcome = .ok fsm → OwnName fsm) :
    (connection.settle ran).2.phase.Sound := by
  cases ended : ran.outcome with
  | ok fsm => simpa [settle, ended, Phase.Sound] using own fsm ended
  | error fault => simp [settle, ended, Phase.Sound]

omit [FxHasher] in
theorem Connection.settle_unwound_iff {connection : Connection} {ran : Driven Fsm}
    {fault : TaskFault} :
    (connection.settle ran).2.phase = .unwound fault ↔ ran.outcome = .error fault := by
  cases ended : ran.outcome <;> simp [settle, ended]

theorem Phase.Sound.step {connection : Connection} {event : TaskEvent}
    {result : List Effect × Connection} (sound : connection.phase.Sound)
    (steps : connection.Steps event result) : result.2.phase.Sound := by
  cases steps with
  | start phase =>
    rw [phase] at sound
    refine Connection.settle_sound fun fsm ended => ?_
    obtain ⟨⟨action, after⟩, connected, ended⟩ := Emit.outcome_bind_eq_ok.mp ended
    have called := machine_outcome_ok.mp connected
    obtain ⟨_, _, named, own⟩ := sound.2.handleConnect sound.1 _
    obtain ⟨rfl, rfl⟩ := Prod.mk.inj (Except.ok.inj (named.symm.trans called))
    obtain ⟨-, rfl, -⟩ := MqttClientFSM.handleConnect_eq_ok called
    obtain ⟨-, -, ended⟩ := Emit.outcome_bind_eq_ok.mp ended
    obtain rfl := Except.ok.inj ended
    exact own
  | incoming phase =>
    rw [phase] at sound
    refine Connection.settle_sound fun fsm ended => ?_
    obtain ⟨⟨action, after⟩, consumed, ended⟩ := Emit.outcome_bind_eq_ok.mp ended
    obtain ⟨_, handled, ended⟩ := Emit.outcome_bind_eq_ok.mp ended
    obtain rfl := Except.ok.inj ended
    refine OwnName.congr sound
      (consume_clientIdHash (machine_outcome_ok.mp consumed) fun a some => ?_)
    subst some
    exact carriedOut_of_handleAction handled
  | toSend phase _ connected =>
    rw [phase] at sound
    refine Connection.settle_sound fun fsm ended => OwnName.congr sound ?_
    exact Serving.sendQueued_ok ⟨connected, rfl⟩ ended
  | readerClosed phase =>
    rw [phase] at sound
    exact sound

namespace CoreClient

variable {before after : CoreClient} {event : ClientEvent} {output : ClientOutput}

structure Sound (client : CoreClient) : Prop where
  stored : ∀ fsm, client.connectionState = .unconnected fsm →
    fsm.connectionState = .disconnected ∧ OwnName fsm
  tasks : ∀ channel connection, client.connections channel = some connection →
    connection.phase.Sound

omit [FxHasher] in
theorem forall_update (holds : Connection → Prop) {connections : Nat → Option Connection}
    (all : ∀ channel c, connections channel = some c → holds c) {channel : Nat}
    {connection : Option Connection} (replaced : ∀ c, connection = some c → holds c) :
    ∀ other c, Function.update connections channel connection other = some c → holds c := by
  intro other c found
  by_cases same : other = channel
  · subst same
    rw [Function.update_self] at found
    exact replaced c found
  · rw [Function.update_of_ne same] at found
    exact all other c found

theorem Sound.update {self : CoreClient} (sound : self.Sound) {channel : Nat}
    {connection : Option Connection} (replaced : ∀ c, connection = some c → c.phase.Sound) :
    ∀ other c, Function.update self.connections channel connection other = some c →
      c.phase.Sound :=
  forall_update (·.phase.Sound) sound.tasks replaced

theorem Initial.sound {start : CoreClient} (initial : start.Initial) : start.Sound := by
  have fresh : OwnName .default := fun hash remembered => by
    simp [MqttClientFSM.default, MqttClientFSM.new] at remembered
  cases initial with
  | new =>
    refine ⟨fun fsm same => ?_, fun channel connection found => by simp [CoreClient.new] at found⟩
    obtain rfl := ConnectionState.unconnected.inj same
    exact ⟨rfl, fresh⟩
  | newAndConnect =>
    refine ⟨fun fsm same => by simp [CoreClient.newAndConnect, spawn] at same, ?_⟩
    refine forall_update (·.phase.Sound) (fun _ _ found => by simp at found) fun c same => ?_
    obtain rfl := Option.some.inj same
    exact ⟨rfl, fresh⟩

theorem Sound.step (sound : before.Sound) (step : Steps before event output after) :
    after.Sound := by
  cases step with
  | connect =>
    unfold connect
    split
    next fsm unconnected =>
      refine ⟨fun _ same => by simp [spawn] at same, sound.update fun c same => ?_⟩
      obtain rfl := Option.some.inj same
      exact sound.stored fsm unconnected
    next => exact ⟨fun _ same => by simp at same, sound.tasks⟩
  | send _ sent =>
    rcases send_eq_some sent with rfl | ⟨sender, connection, -, found, -, rfl⟩
    · exact sound
    · refine ⟨sound.stored, sound.update fun c same => ?_⟩
      obtain rfl := Option.some.inj same
      exact sound.tasks sender connection found
  | task channel _ found taken =>
    refine ⟨sound.stored, sound.update fun c same => ?_⟩
    obtain rfl := Option.some.inj same
    exact (sound.tasks channel _ found).step (Connection.steps_of_step taken)
  | finish channel _ finished =>
    obtain ⟨fsm, queue, found, rfl⟩ := finish_eq_some finished
    refine ⟨fun stored same => ?_, sound.update fun c same => by simp at same⟩
    obtain rfl := ConnectionState.unconnected.inj same
    exact ⟨rfl, OwnName.congr (sound.tasks channel _ found) rfl⟩

theorem sound_of_runs {start final : CoreClient} {trace : ClientTrace} (initial : start.Initial)
    (run : ClientRuns start trace final) : final.Sound :=
  run.always (fun _ client => client.Sound) initial.sound fun kept step => kept.step step

/-- The machine is called in states that allow it. Only for want of a packet
identifier does it unwind while something is sent: not in `todo!()`, and not
because `inner_run` returned no action. -/
structure Respects (client : CoreClient) : Prop where
  stored : ∀ fsm, client.connectionState = .unconnected fsm → fsm.connectionState = .disconnected
  connecting : ∀ channel connection fsm, client.connections channel = some connection →
    connection.phase = .starting fsm → fsm.connectionState = .disconnected ∧
      ∀ currentTime, ∃ result, fsm.handleConnect currentTime connectPacket = .ok result
  sending : ∀ channel connection fsm clock currentTime transport effects next,
    client.connections channel = some connection → connection.phase = .running fsm →
    connection.step (.toSend clock currentTime transport) = some (effects, next) →
    fsm.isConnected = true ∧ ∀ p, next.phase = .unwound (.machine p) → OutOfIdentifiers p

/-- In every state that a client reaches, over any number of connections. -/
theorem respects_of_runs {start client : CoreClient} {trace : ClientTrace} (initial : start.Initial)
    (run : ClientRuns start trace client) : client.Respects := by
  have sound := sound_of_runs initial run
  refine ⟨fun fsm unconnected => (sound.stored fsm unconnected).1, ?_, ?_⟩
  · intro channel connection fsm found phase
    have starting := sound.tasks channel connection found
    rw [phase] at starting
    refine ⟨starting.1, fun currentTime => ?_⟩
    obtain ⟨action, after, called, -⟩ := starting.2.handleConnect starting.1 currentTime
    exact ⟨_, called⟩
  · intro channel connection fsm clock currentTime transport effects next found phase taken
    cases Connection.steps_of_step taken with
    | toSend phase' waiting connected =>
      obtain rfl := Phase.running.inj (phase.symm.trans phase')
      refine ⟨connected, fun p unwound => ?_⟩
      exact Serving.sendQueued_machine ⟨connected, rfl⟩ (Connection.settle_unwound_iff.mp unwound)

/-! ### The arm without a case -/

def Unreachable (client : CoreClient) : Prop :=
  ∃ channel connection, client.connections channel = some connection ∧
    connection.phase = .unwound (.driver .unreachable)

inductive Takes (entry : Entry CoreClient ClientEvent ClientOutput) :
    Fsm → MqttPacket → Option ExpectedAction → Prop where
  | intro {channel : Nat} {connection : Connection} {fsm after : Fsm} {packet : MqttPacket}
      {currentTime : MqttInstant} {transport : Transport} {action : Option ExpectedAction} :
      entry.input = .task channel (.incoming packet currentTime transport) →
      entry.before.connections channel = some connection → connection.phase = .running fsm →
      fsm.consume packet currentTime = .ok (action, after) → Takes entry fsm packet action

def Handled (entry : Entry CoreClient ClientEvent ClientOutput) : Prop :=
  ∀ fsm packet action, Takes entry fsm packet (some action) → CarriedOut action

def Spared (entry : Entry CoreClient ClientEvent ClientOutput) : Prop :=
  ∀ fsm packet action, Takes entry fsm packet action → Answerable fsm packet

def Quiet (entry : Entry CoreClient ClientEvent ClientOutput) : Prop :=
  ∀ usage, entry.input = .send usage → usage.AtMostOnce

theorem handled_iff_spared {entry : Entry CoreClient ClientEvent ClientOutput} :
    Handled entry ↔ Spared entry := by
  constructor
  · rintro handled fsm packet action ⟨input, found, running, consumed⟩
    refine (answerable_iff consumed).mp fun a some => ?_
    subst some
    exact handled fsm packet a ⟨input, found, running, consumed⟩
  · rintro spared fsm packet action ⟨input, found, running, consumed⟩
    have answerable := spared fsm packet _ ⟨input, found, running, consumed⟩
    exact (answerable_iff consumed).mpr answerable action rfl

theorem Unreachable.step (fresh : before.Fresh) (unreachable : before.Unreachable)
    (step : Steps before event output after) : after.Unreachable := by
  obtain ⟨channel, connection, found, unwound⟩ := unreachable
  refine ⟨channel, connection, ?_, unwound⟩
  have known : channel < before.nextChannel := fresh.task channel (by simp [found])
  cases step with
  | connect =>
    unfold connect
    split
    next => exact (Function.update_of_ne (Nat.ne_of_lt known) _ _).trans found
    next => exact found
  | send _ sent =>
    rcases send_eq_some sent with rfl | ⟨sender, other, -, open', live, rfl⟩
    · exact found
    · have apart : channel ≠ sender := by
        rintro rfl
        obtain rfl := Option.some.inj (found.symm.trans open')
        simp [unwound, Phase.isLive] at live
      exact (Function.update_of_ne apart _ _).trans found
  | task other _ found' taken =>
    have apart : channel ≠ other := by
      rintro rfl
      obtain rfl := Option.some.inj (found.symm.trans found')
      simp [Connection.step, unwound] at taken
    exact (Function.update_of_ne apart _ _).trans found
  | finish other _ finished =>
    obtain ⟨fsm, queue, found', rfl⟩ := finish_eq_some finished
    have apart : channel ≠ other := by
      rintro rfl
      obtain rfl := Option.some.inj (found.symm.trans found')
      simp at unwound
    exact (Function.update_of_ne apart _ _).trans found

theorem unreachable_of_unspared (step : Steps before event output after)
    (unspared : ¬ Spared ⟨before, event, output⟩) : after.Unreachable := by
  unfold Spared at unspared
  push Not at unspared
  obtain ⟨fsm, packet, action, ⟨input, found, running, consumed⟩, unanswerable⟩ := unspared
  cases step with
  | task channel _ found' taken =>
    obtain ⟨rfl, rfl⟩ := ClientEvent.task.inj input
    obtain rfl := Option.some.inj (found.symm.trans found')
    refine ⟨channel, _, Function.update_self .., ?_⟩
    cases Connection.steps_of_step taken with
    | incoming phase =>
      obtain rfl := Phase.running.inj (running.symm.trans phase)
      exact Connection.settle_unwound_iff.mpr
        (consumeIncoming_driver_iff.mpr ⟨rfl, ⟨_, consumed⟩, unanswerable⟩)
  | _ => simp at input

/-- No task is in the arm, and only QoS 0 is queued. -/
structure Spares (client : CoreClient) : Prop where
  reachable : ∀ channel connection, client.connections channel = some connection →
    connection.phase ≠ .unwound (.driver .unreachable)
  queued : ∀ channel connection, client.connections channel = some connection →
    ∀ usage ∈ connection.queue, usage.AtMostOnce

omit [FxHasher] in
theorem Spares.update {self : CoreClient} (spares : self.Spares) {connectionState : ConnectionState}
    {nextChannel channel : Nat} {connection : Option Connection}
    (replaced : ∀ c, connection = some c → c.phase ≠ .unwound (.driver .unreachable) ∧
      ∀ usage ∈ c.queue, usage.AtMostOnce) :
    Spares ⟨connectionState, Function.update self.connections channel connection, nextChannel⟩ := by
  have both : ∀ channel c, self.connections channel = some c →
      c.phase ≠ .unwound (.driver .unreachable) ∧ ∀ usage ∈ c.queue, usage.AtMostOnce :=
    fun channel c found => ⟨spares.reachable channel c found, spares.queued channel c found⟩
  exact ⟨fun other c found => (forall_update _ both replaced other c found).1,
    fun other c found => (forall_update _ both replaced other c found).2⟩

theorem Spares.step (spares : before.Spares) (spared : Spared ⟨before, event, output⟩)
    (quiet : Quiet ⟨before, event, output⟩) (step : Steps before event output after) :
    after.Spares := by
  cases step with
  | connect =>
    unfold connect
    split
    next =>
      refine spares.update fun c same => ?_
      obtain rfl := Option.some.inj same
      simp
    next => exact ⟨spares.reachable, spares.queued⟩
  | send usage sent =>
    rcases send_eq_some sent with rfl | ⟨sender, connection, -, found, -, rfl⟩
    · exact spares
    · refine spares.update fun c same => ?_
      obtain rfl := Option.some.inj same
      refine ⟨spares.reachable sender connection found, fun other member => ?_⟩
      rcases List.mem_append.mp member with member | member
      · exact spares.queued sender connection found other member
      · rw [List.mem_singleton.mp member]
        exact quiet usage rfl
  | task channel _ found taken =>
    refine spares.update fun c same => ?_
    obtain rfl := Option.some.inj same
    have queued := spares.queued channel _ found
    cases Connection.steps_of_step taken with
    | start phase =>
      refine ⟨fun unwound => ?_, queued⟩
      have failed := Connection.settle_unwound_iff.mp unwound
      rcases Emit.outcome_bind_eq_error.mp failed with failed | ⟨⟨action, _⟩, called, failed⟩
      · obtain ⟨_, -, same⟩ := machine_outcome_error.mp failed
        simp at same
      · obtain ⟨-, rfl, -⟩ := MqttClientFSM.handleConnect_eq_ok (machine_outcome_ok.mp called)
        rcases Emit.outcome_bind_eq_error.mp failed with failed | ⟨_, -, failed⟩
        · rcases carry_cases _ _ _ with handled | ⟨p, other⟩
          · exact absurd (handled.symm.trans failed) (by simp)
          · exact absurd (other.symm.trans failed) (by simp)
        · simp at failed
    | incoming phase =>
      refine ⟨fun unwound => ?_, queued⟩
      have failed := consumeIncoming_driver_iff.mp (Connection.settle_unwound_iff.mp unwound)
      obtain ⟨-, ⟨⟨action, _⟩, consumed⟩, unanswerable⟩ := failed
      exact unanswerable (spared _ _ action ⟨rfl, found, phase, consumed⟩)
    | toSend phase waiting connected =>
      rw [waiting] at queued
      refine ⟨fun unwound => ?_, fun usage member => queued usage (List.mem_cons_of_mem _ member)⟩
      refine Serving.sendQueued_driver ⟨connected, rfl⟩ (queued _ List.mem_cons_self)
        (Connection.settle_unwound_iff.mp unwound)
    | readerClosed phase => exact ⟨by simp, queued⟩
  | finish =>
    obtain ⟨fsm, queue, found, rfl⟩ := finish_eq_some ‹_›
    exact spares.update fun c same => by simp at same

omit [FxHasher] in
theorem Initial.spares {start : CoreClient} (initial : start.Initial) : start.Spares := by
  have empty {connectionState : ConnectionState} {nextChannel : Nat} :
      Spares ⟨connectionState, fun _ => none, nextChannel⟩ :=
    ⟨fun _ _ found => by simp at found, fun _ _ found => by simp at found⟩
  cases initial with
  | new => exact empty
  | newAndConnect =>
    refine empty.update fun c same => ?_
    obtain rfl := Option.some.inj same
    simp

-- From left to right an unanswerable packet unwinds the task for good, so the run
-- keeps the fault; from right to left `Spares` is the invariant.
/-- In every run, the actions on incoming packets all have a case exactly when
the packets are answerable; where the callers publish at QoS 0, this decides
whether a task unwinds in `unreachable!()`. -/
theorem handled_of_runs {start client : CoreClient} {trace : ClientTrace}
    (initial : start.Initial) (run : ClientRuns start trace client) :
    (EveryStep (fun _ => Handled) trace ↔ EveryStep (fun _ => Spared) trace) ∧
      (EveryStep (fun _ => Quiet) trace →
        (¬ client.Unreachable ↔ EveryStep (fun _ => Spared) trace)) := by
  have reached : client.Fresh ∧ (EveryStep (fun _ => Spared) trace ∨ client.Unreachable) := by
    refine run.always (fun trace client => client.Fresh ∧
      (EveryStep (fun _ => Spared) trace ∨ client.Unreachable)) ⟨initial.fresh, .inl .nil⟩ ?_
    rintro trace before input output after ⟨fresh, spared | unreachable⟩ step
    · by_cases last : Spared ⟨before, input, output⟩
      · exact ⟨fresh.step step, .inl (spared.snoc last)⟩
      · exact ⟨fresh.step step, .inr (unreachable_of_unspared step last)⟩
    · exact ⟨fresh.step step, .inr (unreachable.step fresh step)⟩
  refine ⟨?_, fun quiet => ⟨reached.2.resolve_right, fun spared => ?_⟩⟩
  · exact ⟨EveryStep.imp fun _ _ => handled_iff_spared.mp,
      EveryStep.imp fun _ _ => handled_iff_spared.mpr⟩
  · have both : EveryStep (fun _ entry => Spared entry ∧ Quiet entry) trace :=
      fun front entry back same => ⟨spared front entry back same, quiet front entry back same⟩
    have spares := run.invariant (fun _ client => client.Spares) initial.spares
      (fun kept condition step => kept.step condition.1 condition.2 step) both
    rintro ⟨channel, connection, found, unwound⟩
    exact spares.reachable channel connection found unwound

end CoreClient

end

/-! ### A message that needs an answer -/

namespace CoreClient

attribute [local instance] x86_64 unhashed

theorem accepted_run : ∃ trace client, ClientRuns .newAndConnect trace client ∧
    trace.map (·.input) = acceptedSession ∧
      client.connections 0 = some ⟨.running acceptedFsm, []⟩ :=
  ⟨_, _, .next (.next .done (.task 0 (.start ⟨0⟩ taking) rfl rfl))
    (.task 0 (.incoming accepting ⟨0⟩ taking) rfl rfl), rfl, rfl⟩

theorem respects_accepted : ∃ trace client, ClientRuns .newAndConnect trace client ∧
    trace.map (·.input) = acceptedSession ∧ client.Respects := by
  obtain ⟨trace, client, run, inputs, -⟩ := accepted_run
  exact ⟨trace, client, run, inputs, respects_of_runs .newAndConnect run⟩

def unacknowledged : MqttPacket := .publish { atLeastOnce with qualityOfService := .atMostOnce }

theorem handled_forwarded : ∃ trace client, ClientRuns .newAndConnect trace client ∧
    trace.map (·.input) =
      acceptedSession ++ [.task 0 (.incoming unacknowledged ⟨0⟩ taking)] ∧
      (EveryStep (fun _ => Handled) trace ↔ EveryStep (fun _ => Spared) trace) ∧
      (EveryStep (fun _ => Quiet) trace →
        (¬ client.Unreachable ↔ EveryStep (fun _ => Spared) trace)) := by
  obtain ⟨trace, client, run, inputs, running⟩ := accepted_run
  have forwarded : ClientRuns .newAndConnect _ _ :=
    .next run (.task 0 (.incoming unacknowledged ⟨0⟩ taking) running rfl)
  exact ⟨_, _, forwarded, by simp [inputs], handled_of_runs .newAndConnect forwarded⟩

def answered : MqttPacket := .publish { atLeastOnce with packetIdentifier := some firstIdentifier }

/-- The machine asks for an acknowledgement, and the task unwinds. -/
theorem unhandled_publish : ∃ trace client, ClientRuns .newAndConnect trace client ∧
    trace.map (·.input) = acceptedSession ++ [.task 0 (.incoming answered ⟨0⟩ taking)] ∧
    ¬ EveryStep (fun _ => Handled) trace ∧ client.Unreachable := by
  obtain ⟨trace, client, run, inputs, running⟩ := accepted_run
  refine ⟨_, _, .next run (.task 0 (.incoming answered ⟨0⟩ taking) running rfl), ?_, ?_, ?_⟩
  · simp [inputs]
  · intro every
    have carried := every _ _ [] rfl _ _ _ ⟨rfl, running, rfl, rfl⟩
    simp [CarriedOut, handleAction] at carried
  · exact ⟨0, ⟨.unwound (.driver .unreachable), []⟩, rfl, rfl⟩

end CoreClient

end Client
