import Cloudmqtt.Client.Channels
import Cloudmqtt.Client.Preconditions
import Cloudmqtt.Core.Session

/-! Exactly when a task unwinds by its own fault, whatever the transport does. -/

set_option autoImplicit false

namespace Client

open Base Rust V5 Core

def TaskFault.IsOwn : TaskFault → Prop
  | transport _ => False
  | _ => True

/-- The computation does not unwind, or only in the transport. -/
def Sturdy {α : Type} (ran : Driven α) : Prop :=
  ∀ fault, ran.outcome = .error fault → ¬ fault.IsOwn

section

variable {α β : Type}

theorem sturdy_pure (a : α) : Sturdy (pure a : Driven α) := by
  intro fault failed
  simp at failed

theorem sturdy_bind_iff {ran : Driven α} {next : α → Driven β} :
    Sturdy (ran >>= next) ↔ Sturdy ran ∧ ∀ a, ran.outcome = .ok a → Sturdy (next a) := by
  constructor
  · refine fun whole => ⟨fun fault failed => ?_, fun a ended fault failed => ?_⟩
    · exact whole fault (Emit.outcome_bind_eq_error.mpr (.inl failed))
    · exact whole fault (Emit.outcome_bind_eq_error.mpr (.inr ⟨a, ended, failed⟩))
  · rintro ⟨sturdy, later⟩ fault failed
    rcases Emit.outcome_bind_eq_error.mp failed with now | ⟨a, ended, failed⟩
    · exact sturdy fault now
    · exact later a ended fault failed

theorem sturdy_returning_iff {ran : Driven α} {b : β} :
    Sturdy (ran >>= fun _ => pure b) ↔ Sturdy ran :=
  sturdy_bind_iff.trans (and_iff_left fun _ _ => sturdy_pure b)

theorem sturdy_machine_iff {call : Except Panic α} :
    Sturdy (machine call) ↔ ∃ a, call = .ok a := by
  cases call with
  | ok a => exact iff_of_true (sturdy_pure a) ⟨a, rfl⟩
  | error p =>
    apply iff_of_false
    · intro sturdy
      exact sturdy (.machine p) rfl trivial
    · rintro ⟨a, same⟩
      cases same

theorem sturdy_carry (transport : Transport) (failure : Panic) (effect : Effect) :
    Sturdy (carry transport failure effect) := by
  intro fault failed
  rcases carry_cases transport failure effect with taken | ⟨p, refused⟩
  · rw [taken] at failed
    cases failed
  · rw [refused] at failed
    cases failed
    exact id

theorem sturdy_handleAction_iff {transport : Transport} {action : ExpectedAction} :
    Sturdy (handleAction transport action) ↔ CarriedOut action := by
  rcases carriedOut_or action with ⟨carried, outcomes⟩ | ⟨uncarried, fails⟩
  · apply iff_of_true _ carried
    intro fault failed
    rcases outcomes transport with taken | ⟨p, refused⟩
    · rw [taken] at failed
      cases failed
    · rw [refused] at failed
      cases failed
      exact id
  · apply iff_of_false _ uncarried
    intro sturdy
    exact sturdy _ (fails transport) trivial

theorem sturdy_handleSome_iff {transport : Transport} {action : Option ExpectedAction} :
    Sturdy (handleSome transport action) ↔ ∀ a, action = some a → CarriedOut a := by
  cases action with
  | none => simp [handleSome, sturdy_pure]
  | some a => simpa [handleSome] using sturdy_handleAction_iff

end

/-! ### One step of a task -/

section

variable [Target] [FxHasher] {fsm : Fsm} {transport : Transport} {currentTime : MqttInstant}

theorem sturdy_greet (own : OwnName fsm) (disconnected : fsm.connectionState = .disconnected) :
    Sturdy (greet transport fsm currentTime) := by
  obtain ⟨action, after, called, -⟩ := own.handleConnect disconnected currentTime
  apply sturdy_bind_iff.mpr
  refine ⟨sturdy_machine_iff.mpr ⟨_, called⟩, ?_⟩
  rintro ⟨_, after⟩ ended
  obtain ⟨-, rfl, -⟩ := MqttClientFSM.handleConnect_eq_ok (machine_outcome_ok.mp ended)
  exact sturdy_returning_iff.mpr (sturdy_carry transport _ _)

/-- An incoming packet is survived when the machine takes it and there is a case for
what it asks. -/
theorem sturdy_consumeIncoming_iff {packet : MqttPacket} :
    Sturdy (consumeIncoming transport fsm packet currentTime) ↔
      fsm.session.Hears packet ∧ Answerable fsm packet := by
  rw [← consume_ok_iff packet currentTime, consumeIncoming, sturdy_bind_iff, sturdy_machine_iff]
  apply and_congr_right
  rintro ⟨⟨action, after⟩, consumed⟩
  have survives : Sturdy (handleSome transport action) ↔ _ := sturdy_handleSome_iff
  rw [← answerable_iff consumed, ← survives]
  constructor
  · intro each
    exact sturdy_returning_iff.mp (each _ (machine_outcome_ok.mpr consumed))
  · rintro sturdy ⟨_, _⟩ ended
    obtain ⟨rfl, rfl⟩ := Prod.mk.inj (Except.ok.inj (consumed.symm.trans
      (machine_outcome_ok.mp ended)))
    exact sturdy_returning_iff.mpr sturdy

/-! ### Queued packets -/

structure Ready (publisher : MqttClientPublisher UsizePacketIdentifierStore) : Prop where
  connected : publisher.client.isConnected = true
  sending : publisher.state ≠ .store
  filled : publisher.state = .send → publisher.packet ≠ none

omit [FxHasher] in
theorem Ready.publish (connected : fsm.isConnected = true) {packet : MPublish}
    (qos : packet.qualityOfService = .atMostOnce) : Ready (fsm.publish packet) := by
  refine ⟨connected, ?_, fun _ => ?_⟩
  · simp [MqttClientFSM.publish, qos]
  · simp [MqttClientFSM.publish]

theorem Ready.next {publisher next : MqttClientPublisher UsizePacketIdentifierStore}
    (ready : Ready publisher) {action : Option ExpectedAction}
    (ran : publisher.run currentTime = .ok (action, next)) : Ready next := by
  have serving : Serving publisher.client.data.clientIdHash publisher.client :=
    ⟨ready.connected, rfl⟩
  refine ⟨(serving.publisher ran).connected, (publisher_sends ready.sending ran).1, ?_⟩
  cases MqttClientPublisher.call_of_run ran with
  | store state => exact absurd state ready.sending
  | send => simp
  | idle => exact ready.filled

theorem Ready.run {publisher : MqttClientPublisher UsizePacketIdentifierStore}
    (ready : Ready publisher) (currentTime : MqttInstant) :
    ∃ result, publisher.run currentTime = .ok result := by
  unfold MqttClientPublisher.run
  cases state : publisher.state with
  | store => exact absurd state ready.sending
  | done => exact ⟨_, rfl⟩
  | send =>
    obtain ⟨packet, filled⟩ := Option.ne_none_iff_exists'.mp (ready.filled state)
    obtain ⟨con, connected⟩ := MqttClientFSM.isConnected_iff.mp ready.connected
    simp only [filled, MqttClientFSM.innerRun_connected currentTime connected]
    exact ⟨_, rfl⟩

theorem Ready.sturdy {publisher : MqttClientPublisher UsizePacketIdentifierStore}
    (ready : Ready publisher) (clock : Nat → MqttInstant) :
    Sturdy (publishActions transport clock publisher) := by
  intro fault failed
  obtain ⟨publisher, currentTime, ready, ⟨p, ran, -⟩ | ⟨action, next, ran, unhandled⟩⟩ :=
    (publishActions_spec Ready (fun ready ran => ready.next ran) transport clock ready).2 fault
      failed
  · obtain ⟨result, returned⟩ := ready.run currentTime
    exact absurd (returned.symm.trans ran) (by simp)
  · have carried := (publisher_sends ready.sending ran).2 action rfl
    exact sturdy_handleAction_iff.mpr carried fault unhandled

theorem run_storing {packet : MPublish} (qos : packet.qualityOfService ≠ .atMostOnce) :
    (∃ p, (fsm.publish packet).run currentTime = .error p) ∨
      ∃ id next, (fsm.publish packet).run currentTime = .ok (some (.storePacket id), next) := by
  obtain ⟨⟨id, clientPis⟩, taken⟩ := fsm.clientPis.getNextFree_ok .publish
  have state : (fsm.publish packet).state = .store := if_neg qos
  rw [MqttClientPublisher.run, state]
  simp only [MqttClientFSM.publish, if_pos qos]
  change (∃ p, UsizePacketIdentifierStore.getNextFree _ _ >>= _ = _) ∨
    ∃ id next, UsizePacketIdentifierStore.getNextFree _ _ >>= _ = _
  rw [taken]
  cases id with
  | none => exact .inl ⟨_, rfl⟩
  | some id => exact .inr ⟨_, _, rfl⟩

theorem not_sturdy_storing {packet : MPublish} (qos : packet.qualityOfService ≠ .atMostOnce)
    (clock : Nat → MqttInstant) :
    ¬ Sturdy (publishActions transport clock (fsm.publish packet)) := by
  intro sturdy
  have storing : (∃ p, (fsm.publish packet).run (clock 0) = .error p) ∨ _ := run_storing qos
  rw [publishActions] at sturdy
  split at sturdy
  next p _ => exact sturdy (.machine p) rfl trivial
  next ran => simp [ran] at storing
  next action next ran =>
    obtain ⟨id, rfl⟩ : ∃ id, action = .storePacket id := by simpa [ran] using storing
    exact sturdy (.driver .unreachable) rfl trivial

def Sends (fsm : Fsm) : SendUsage → Prop
  | .publish (.publish packet) => packet.qualityOfService = .atMostOnce
  | .subscribe (.subscribe _) => fsm.session.available.Nonempty
  | _ => False

theorem sturdy_sendQueued_iff (connected : fsm.isConnected = true) {usage : SendUsage}
    {clock : Nat → MqttInstant} :
    Sturdy (sendQueued transport fsm usage clock currentTime) ↔ Sends fsm usage := by
  have serving : Serving fsm.data.clientIdHash fsm := ⟨connected, rfl⟩
  unfold sendQueued
  split
  next packet =>
    by_cases qos : packet.qualityOfService = .atMostOnce
    · apply iff_of_true _ qos
      have ready := Ready.publish connected qos
      apply sturdy_bind_iff.mpr
      refine ⟨ready.sturdy clock, fun publisher published => ?_⟩
      have kept := (publishActions_spec Ready (fun ready ran => ready.next ran) transport clock
        ready).1 publisher published
      apply sturdy_bind_iff.mpr
      refine ⟨sturdy_machine_iff.mpr (run_ok kept.connected currentTime), ?_⟩
      rintro ⟨action, after⟩ ran
      have carried := (run_carriedOut (machine_outcome_ok.mp ran)).1
      exact sturdy_returning_iff.mpr (sturdy_handleSome_iff.mpr carried)
    · exact iff_of_false (fun sturdy => not_sturdy_storing qos clock (sturdy_bind_iff.mp sturdy).1)
        qos
  next packet =>
    rw [sturdy_bind_iff, sturdy_machine_iff, subscribe_ok_iff currentTime packet, ← online_iff,
      and_iff_right connected]
    apply and_iff_left
    rintro ⟨action, after⟩ ran
    have carried := (serving.subscribe (machine_outcome_ok.mp ran)).1
    exact sturdy_returning_iff.mpr (sturdy_handleAction_iff.mpr carried)
  next =>
    apply iff_of_false
    · intro sturdy
      exact sturdy _ rfl trivial
    · cases usage with
      | publish packet => cases packet <;> simp_all [Sends]
      | subscribe packet => cases packet <;> simp_all [Sends]

/-! ### Runs -/

def Phase.Broken : Phase → Prop
  | unwound fault => fault.IsOwn
  | _ => False

def Connection.Survives (self : Connection) : TaskEvent → Prop
  | .incoming packet _ _ => ∀ fsm, self.phase = .running fsm →
      fsm.session.Hears packet ∧ Answerable fsm packet
  | .toSend _ _ _ => ∀ fsm usage queue, self.phase = .running fsm → self.queue = usage :: queue →
      Sends fsm usage
  | _ => True

omit [FxHasher] in
theorem Connection.settle_broken_iff {connection : Connection} {ran : Driven Fsm} :
    ¬ (connection.settle ran).2.phase.Broken ↔ Sturdy ran := by
  unfold Sturdy
  cases ended : ran.outcome with
  | ok fsm => simp [settle, ended, Phase.Broken]
  | error fault => simp [settle, ended, Phase.Broken]

theorem Connection.Steps.survives_iff {connection : Connection} {event : TaskEvent}
    {result : List Effect × Connection} (sound : connection.phase.Sound)
    (steps : connection.Steps event result) :
    ¬ result.2.phase.Broken ↔ connection.Survives event := by
  cases steps with
  | start phase =>
    rw [phase] at sound
    exact iff_of_true (settle_broken_iff.mpr (sturdy_greet sound.2 sound.1)) trivial
  | incoming phase =>
    rw [settle_broken_iff, sturdy_consumeIncoming_iff]
    constructor
    · intro survived fsm same
      cases phase.symm.trans same
      exact survived
    · exact fun survived => survived _ phase
  | toSend phase waiting connected =>
    rw [settle_broken_iff, sturdy_sendQueued_iff connected]
    constructor
    · intro survived fsm usage queue same waits
      cases phase.symm.trans same
      cases waiting.symm.trans waits
      exact survived
    · exact fun survived => survived _ _ _ phase waiting
  | readerClosed => exact iff_of_true id trivial

theorem Connection.Steps.unbroken {connection : Connection} {event : TaskEvent}
    {result : List Effect × Connection} (steps : connection.Steps event result) :
    ¬ connection.phase.Broken := by
  cases steps with
  | start phase | incoming phase | toSend phase | readerClosed phase =>
    rw [phase]
    exact id

namespace CoreClient

/-- The task of the channel has unwound by a fault of its own. -/
def Broken (client : CoreClient) (channel : Nat) : Prop :=
  ∃ connection, client.connections channel = some connection ∧ connection.phase.Broken

/-- The task of the channel survives the step, if it is one of its steps. -/
def Survived (channel : Nat) (entry : Entry CoreClient ClientEvent ClientOutput) : Prop :=
  ∀ event connection, entry.input = .task channel event →
    entry.before.connections channel = some connection → connection.Survives event

variable {before after : CoreClient} {event : ClientEvent} {output : ClientOutput}

theorem Steps.broken_iff (fresh : before.Fresh) (sound : before.Sound)
    (step : Steps before event output after) (channel : Nat) :
    ¬ after.Broken channel ↔
      ¬ before.Broken channel ∧ Survived channel ⟨before, event, output⟩ := by
  have seen := step.onChannel fresh channel
  unfold Broken
  generalize left : after.connections channel = new at seen
  generalize found : before.connections channel = old at seen
  have elsewhere (silent : ∀ other, event ≠ .task channel other) :
      Survived channel ⟨before, event, output⟩ :=
    fun other _ input _ => absurd input (silent other)
  cases seen with
  | idle silent => simp [elsewhere silent.elsewhere]
  | opened silent => simp [elsewhere silent.elsewhere, Phase.Broken]
  | @queued connection usage live _ _ input =>
    have unbroken : ¬ connection.phase.Broken := by
      cases phase : connection.phase with
      | unwound => simp [phase, Phase.isLive] at live
      | _ => exact id
    simp [elsewhere (fun _ => by simp [show event = _ from input]), unbroken]
  | @stepped connection next other effects input _ taken =>
    have steps := Connection.steps_of_step taken
    have survives := steps.survives_iff (sound.tasks channel connection found)
    have survived : Survived channel ⟨before, event, output⟩ ↔ connection.Survives other := by
      constructor
      · exact fun survived => survived other connection input found
      · intro survives event connection input' found'
        cases input.symm.trans input'
        cases found.symm.trans found'
        exact survives
    simpa [survived, steps.unbroken] using survives
  | closed silent => simp [elsewhere silent.elsewhere, Phase.Broken]

/-- In every run, a task unwinds by its own fault exactly when it meets a packet that the
session does not allow or that no case is for. -/
theorem survives_of_runs {start client : CoreClient} {trace : ClientTrace}
    (initial : start.Initial) (run : ClientRuns start trace client) (channel : Nat) :
    ¬ client.Broken channel ↔ EveryStep (fun _ => Survived channel) trace := by
  induction run with
  | done =>
    apply iff_of_true _ .nil
    rintro ⟨connection, found, broken⟩
    rw [initial.connection found] at broken
    exact broken
  | next earlier taken ih =>
    rw [taken.broken_iff (fresh_of_runs initial.fresh earlier) (sound_of_runs initial earlier),
      ih, everyStep_snoc]

end CoreClient

end

/-! ### A session that goes well -/

namespace CoreClient

attribute [local instance] x86_64 unhashed

theorem survives_of_runs_accepted : ∃ trace client, ClientRuns .newAndConnect trace client ∧
    trace.map (·.input) = acceptedSession ∧
      (¬ client.Broken 0 ↔ EveryStep (fun _ => Survived 0) trace) := by
  obtain ⟨trace, client, run, inputs, -⟩ := accepted_run
  exact ⟨trace, client, run, inputs, survives_of_runs .newAndConnect run 0⟩

end CoreClient

end Client
