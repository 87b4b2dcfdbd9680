import Cloudmqtt.Client.Preconditions

/-! What the task of a connection forwards to the router. -/

set_option autoImplicit false

namespace Client

open Base Rust V5 Core

namespace Effect

def forwarded? : Effect → Option MqttPacket
  | sent _ => none
  | forwarded packet => some packet

def IsSent (effect : Effect) : Prop := effect.forwarded? = none

end Effect

def Forwards (action : ExpectedAction) : Prop :=
  ∃ packet, action = .receivePacket (.noFurtherAction packet)

theorem carry_sent {transport : Transport} {failure : Panic} {packet : MqttPacket} :
    (carry transport failure (.sent packet)).All Effect.IsSent := by
  unfold carry
  split
  next => exact .write rfl
  next => exact .fault _
  next => exact .fault _

theorem handleAction_sent {transport : Transport} {action : ExpectedAction}
    (kept : ¬ Forwards action) : (handleAction transport action).All Effect.IsSent := by
  unfold handleAction
  split
  next => exact carry_sent
  next packet => exact absurd ⟨packet, rfl⟩ kept
  next => exact .fault _

theorem handleSome_sent {transport : Transport} {action : Option ExpectedAction}
    (kept : ∀ a, action = some a → ¬ Forwards a) :
    (handleSome transport action).All Effect.IsSent := by
  cases action with
  | none => exact .pure ()
  | some a => exact handleAction_sent (kept a rfl)

theorem forwarded_eq_nil {α : Type} {ran : Driven α} (sent : ran.All Effect.IsSent) :
    ran.emitted.filterMap Effect.forwarded? = [] :=
  List.filterMap_eq_nil_iff.mpr sent

theorem machine_sent {α : Type} {x : Except Panic α} : (machine x).All Effect.IsSent := by
  cases x with
  | error p => exact .fault _
  | ok a => exact .pure a

section

variable {σ : Type} [PacketIdentifierStore σ] [FxHasher] {fsm : MqttClientFSM σ}
  {transport : Transport} {currentTime : MqttInstant}

/-- A packet comes out of the machine for the router only if it just went in. -/
theorem innerRun_forwards {infos : ExternalInfos} {action : Option ExpectedAction}
    {after : MqttClientFSM σ} (ran : fsm.innerRun currentTime infos = .ok (action, after))
    {packet : MqttPacket} (forwards : action = some (.receivePacket (.noFurtherAction packet))) :
    fsm.isConnected = true ∧ infos = .consumePacket packet ∧
      ∃ publish, packet = .publish publish ∧ publish.qualityOfService = .atMostOnce := by
  obtain ⟨middle, transition, -⟩ := MqttClientFSM.transition_of_innerRun ran
  cases transition with
  | @received _ publish connected qos =>
    obtain rfl : MqttPacket.publish publish = packet := by simpa using forwards
    exact ⟨MqttClientFSM.isConnected_iff.mpr ⟨_, connected⟩, rfl, publish, rfl, qos⟩
  | connack _ handled =>
    obtain ⟨-, rfl, -⟩ := MqttClientFSM.handleConnack_eq_ok handled
    obtain ⟨_, -, same⟩ := Option.map_eq_some_iff.mp forwards
    cases same
  | @elapsed con =>
    rcases fsm.ping_cases con currentTime with pinged | pinged <;> simp [pinged] at forwards
  | _ => simp at forwards

omit [PacketIdentifierStore σ] in
theorem greet_sent : (greet transport fsm currentTime).All Effect.IsSent := by
  unfold greet
  refine machine_sent.bind fun called _ => ?_
  dsimp only
  split
  next => exact carry_sent.bind fun _ _ => .pure _
  next => exact .fault _

theorem run_sent {action : Option ExpectedAction} {after : MqttClientFSM σ}
    (ran : fsm.run currentTime = .ok (action, after)) :
    (handleSome transport action).All Effect.IsSent := by
  refine handleSome_sent fun a some => ?_
  rintro ⟨packet, rfl⟩
  obtain ⟨-, infos, -⟩ := innerRun_forwards ran some
  cases infos

theorem publisher_sent {publisher next : MqttClientPublisher σ} {action : ExpectedAction}
    (ran : publisher.run currentTime = .ok (some action, next)) : ¬ Forwards action := by
  rintro ⟨packet, rfl⟩
  cases MqttClientPublisher.call_of_run ran with
  | send _ _ step =>
    obtain ⟨-, infos, -⟩ := innerRun_forwards step rfl
    cases infos

theorem publishActions_sent (clock : Nat → MqttInstant) (publisher : MqttClientPublisher σ) :
    (publishActions transport clock publisher).All Effect.IsSent := by
  fun_induction publishActions transport clock publisher with
  | case1 clock publisher p ran => exact .fault _
  | case2 clock publisher next ran => exact .pure _
  | case3 clock publisher action next ran ih =>
    exact (handleAction_sent (publisher_sent ran)).bind fun _ _ => ih

theorem sendQueued_sent {usage : SendUsage} {clock : Nat → MqttInstant} :
    (sendQueued transport fsm usage clock currentTime).All Effect.IsSent := by
  unfold sendQueued
  split
  next packet =>
    refine (publishActions_sent clock _).bind fun publisher _ => ?_
    refine machine_sent.bind fun ran step => ?_
    exact (run_sent (machine_outcome_ok.mp step)).bind fun _ _ => .pure _
  next packet =>
    refine machine_sent.bind fun ran step => ?_
    obtain ⟨id, clientPis, -, sent⟩ := MqttClientFSM.subscribe_eq_ok (machine_outcome_ok.mp step)
    obtain ⟨same, -⟩ := MqttClientFSM.send_eq_ok sent
    refine (handleAction_sent ?_).bind fun _ _ => .pure _
    rintro ⟨packet, forwards⟩
    cases same.symm.trans forwards
  next => exact .fault _

structure Passes (fsm : MqttClientFSM σ) (packet : MqttPacket) (transport : Transport) : Prop where
  connected : fsm.isConnected = true
  atMostOnce : ∃ publish, packet = .publish publish ∧ publish.qualityOfService = .atMostOnce
  taken : transport (.forwarded packet) = .ok true

theorem consumeIncoming_passes {packet : MqttPacket} (passes : Passes fsm packet transport) :
    (consumeIncoming transport fsm packet currentTime).emitted.filterMap Effect.forwarded? =
      [packet] := by
  obtain ⟨connected, ⟨publish, rfl, qos⟩, taken⟩ := passes
  obtain ⟨con, connected⟩ := MqttClientFSM.isConnected_iff.mp connected
  have consumed : fsm.consume (.publish publish) currentTime =
      .ok (some (.receivePacket (.noFurtherAction (.publish publish))), fsm.ranAt currentTime) := by
    rw [MqttClientFSM.consume, MqttClientFSM.innerRun, MqttClientFSM.handle, connected]
    simp only [MqttClientFSM.handleConnected, connected, MqttClientFSM.consumePacket, qos]
    rfl
  have handled : handleSome transport
      (some (.receivePacket (.noFurtherAction (.publish publish)))) =
        Emit.write [.forwarded (.publish publish)] := by
    simp only [handleSome, handleAction, carry, taken]
  rw [consumeIncoming, consumed]
  change (handleSome transport (some _) >>= fun _ => pure _).emitted.filterMap _ = _
  rw [handled]
  rfl

theorem consumeIncoming_keeps {packet : MqttPacket} (kept : ¬ Passes fsm packet transport) :
    (consumeIncoming transport fsm packet currentTime).emitted.filterMap Effect.forwarded? =
      [] := by
  refine forwarded_eq_nil (machine_sent.bind fun called step => ?_)
  have consumed := machine_outcome_ok.mp step
  refine Emit.All.bind ?_ fun _ _ => .pure _
  by_cases forwards : ∃ q, called.1 = some (.receivePacket (.noFurtherAction q))
  · obtain ⟨q, forwards⟩ := forwards
    obtain ⟨connected, infos, publish⟩ := innerRun_forwards consumed forwards
    obtain rfl := ExternalInfos.consumePacket.inj infos
    rw [forwards]
    change (carry transport .unwrapError (.forwarded packet)).All Effect.IsSent
    unfold carry
    split
    next taken => exact absurd ⟨connected, publish, taken⟩ kept
    next => exact .fault _
    next => exact .fault _
  · refine handleSome_sent fun a some => ?_
    rintro ⟨q, rfl⟩
    exact forwards ⟨q, some⟩

end

section

variable [Target] [FxHasher]

def ClientOutput.forwarded : ClientOutput → List MqttPacket
  | .returned _ => []
  | .effects carried => carried.filterMap Effect.forwarded?

/-- A running task gets the packet, and passes it on. -/
def CoreClient.Passes (self : CoreClient) (channel : Nat) (packet : MqttPacket)
    (transport : Transport) : Prop :=
  ∃ connection fsm, self.connections channel = some connection ∧ connection.phase = .running fsm ∧
    Client.Passes fsm packet transport

def ClientEvent.incoming? : ClientEvent → Option (Nat × MqttPacket × Transport)
  | .task channel (.incoming packet _ transport) => some (channel, packet, transport)
  | _ => none

variable {before after : CoreClient} {event : ClientEvent} {output : ClientOutput}

theorem CoreClient.Steps.forwarded (step : Steps before event output after) {channel : Nat}
    {packet : MqttPacket} {transport : Transport}
    (incoming : event.incoming? = some (channel, packet, transport)) :
    (before.Passes channel packet transport → output.forwarded = [packet]) ∧
      (¬ before.Passes channel packet transport → output.forwarded = []) := by
  cases step with
  | task channel' event found taken =>
    cases Connection.steps_of_step taken with
    | @incoming fsm packet' _ transport' phase =>
      obtain ⟨rfl, rfl, rfl⟩ : channel' = channel ∧ packet' = packet ∧ transport' = transport := by
        simpa [ClientEvent.incoming?] using incoming
      have same : before.Passes channel' packet' transport' ↔
          Client.Passes fsm packet' transport' := by
        constructor
        · rintro ⟨connection, fsm', found', phase', passes⟩
          obtain rfl := Option.some.inj (found.symm.trans found')
          obtain rfl := Phase.running.inj (phase.symm.trans phase')
          exact passes
        · exact fun passes => ⟨_, fsm, found, phase, passes⟩
      rw [same]
      exact ⟨consumeIncoming_passes, consumeIncoming_keeps⟩
    | _ => simp [ClientEvent.incoming?] at incoming
  | _ => simp [ClientEvent.incoming?] at incoming

theorem CoreClient.Steps.silent (step : Steps before event output after)
    (other : event.incoming? = none) : output.forwarded = [] := by
  cases step with
  | connect => rfl
  | send => rfl
  | task channel event found taken =>
    cases Connection.steps_of_step taken with
    | start => exact forwarded_eq_nil greet_sent
    | incoming => simp [ClientEvent.incoming?] at other
    | toSend => exact forwarded_eq_nil sendQueued_sent
    | readerClosed => rfl
  | finish => rfl

theorem CoreClient.Steps.publishes (step : Steps before event output after) {packet : MqttPacket}
    (member : packet ∈ output.forwarded) : ∃ publish, packet = .publish publish := by
  cases incoming : event.incoming? with
  | none => simp [step.silent incoming] at member
  | some got =>
    obtain ⟨passes, keeps⟩ := step.forwarded incoming
    by_cases passing : before.Passes got.1 got.2.1 got.2.2
    · rw [passes passing] at member
      obtain ⟨_, _, -, -, passed⟩ := passing
      obtain ⟨publish, same, -⟩ := passed.atMostOnce
      exact ⟨publish, (List.mem_singleton.mp member).trans same⟩
    · simp [keeps passing] at member

end

end Client
