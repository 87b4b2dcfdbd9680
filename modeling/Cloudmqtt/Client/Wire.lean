import Cloudmqtt.Client.Channels
import Cloudmqtt.Client.Forwarding
import Cloudmqtt.Client.Owned
import Cloudmqtt.Client.Survival

/-! What a connection writes: its CONNECT, then for every packet that was queued what the
machine makes of it, and a peer reads the same packets from the bytes.
-/

set_option autoImplicit false

namespace Client

open Base Rust V5 Core

def Effect.sent? : Effect → Option MqttPacket
  | sent packet => some packet
  | forwarded _ => none

/-- What is written for a packet out of the channel. A PINGREQ may be due behind a
PUBLISH, and a SUBSCRIBE gets its identifier. -/
inductive Sending : SendUsage → List MqttPacket → Prop where
  | publish {packet : MPublish} : packet.qualityOfService = .atMostOnce →
      Sending (.publish (.publish packet)) [.publish packet]
  | pinged {packet : MPublish} : packet.qualityOfService = .atMostOnce →
      Sending (.publish (.publish packet)) [.publish packet, .pingreq .mk]
  | subscribe {packet : MSubscribe} (id : PacketIdentifier) :
      Sending (.subscribe (.subscribe packet)) [.subscribe { packet with packetIdentifier := id }]

/-- All that was written on a connection, and the queued packets it was written for. -/
inductive Written : List SendUsage → List MqttPacket → Prop where
  | greeting : Written [] [.connect connectPacket]
  | next {usages : List SendUsage} {packets more : List MqttPacket} {usage : SendUsage} :
      Written usages packets → Sending usage more → Written (usages ++ [usage]) (packets ++ more)

/-- What was written where the task may have stopped while it wrote. -/
inductive Cut : List SendUsage → List MqttPacket → Prop where
  | silent : Cut [] []
  | incoming {usages : List SendUsage} {packets : List MqttPacket} :
      Written usages packets → Cut usages packets
  | unsent {usages : List SendUsage} {packets : List MqttPacket} {usage : SendUsage} :
      Written usages packets → Cut (usages ++ [usage]) packets
  | sending {usages : List SendUsage} {packets whole more : List MqttPacket} {usage : SendUsage} :
      Written usages packets → Sending usage whole → more <+: whole →
      Cut (usages ++ [usage]) (packets ++ more)

/-! ### One step -/

theorem carry_yields (transport : Transport) (failure : Panic) (effect : Effect) :
    (carry transport failure effect).Yields (fun tokens _ => tokens = [effect]) (· = []) := by
  unfold carry
  split
  next => exact .write rfl
  next => exact .fault rfl
  next => exact .fault rfl

theorem machine_yields {α : Type} (call : Except Panic α) :
    (machine call).Yields (fun tokens a => tokens = [] ∧ call = .ok a) (· = []) := by
  cases call with
  | ok a => exact .pure ⟨rfl, rfl⟩
  | error p => exact .fault rfl

section

variable [Target] [FxHasher] {fsm : Fsm} {transport : Transport} {currentTime : MqttInstant}

theorem greet_yields : (greet transport fsm currentTime).Yields
    (fun tokens _ => tokens = [.sent (.connect connectPacket)]) (· = []) := by
  apply (machine_yields _).bind (fun _ => id)
  rintro _ ⟨action, after⟩ - ⟨rfl, called⟩
  obtain ⟨-, rfl, -⟩ := MqttClientFSM.handleConnect_eq_ok called
  apply (carry_yields transport _ _).bind (fun _ => id)
  rintro _ _ - rfl
  exact .pure rfl

theorem consume_ne_sendPacket {packet sent : MqttPacket} {action : Option ExpectedAction}
    {after : Fsm} (ran : fsm.consume packet currentTime = .ok (action, after)) :
    action ≠ some (.sendPacket sent) := by
  obtain ⟨middle, transition, -⟩ := MqttClientFSM.transition_of_innerRun ran
  intro same
  cases transition with
  | @connack _ connack _ _ _ handled =>
    obtain ⟨-, rfl, -⟩ := MqttClientFSM.handleConnack_eq_ok handled
    obtain ⟨_, -, same⟩ := Option.map_eq_some_iff.mp same
    cases same
  | _ => cases same

omit [Target] [FxHasher] in
theorem handleAction_yields (action : ExpectedAction) :
    (handleAction transport action).Yields
      (fun tokens _ => tokens.filterMap Effect.sent? =
        match action with
        | .sendPacket packet => [packet]
        | _ => [])
      (· = []) := by
  unfold handleAction
  split
  next packet =>
    apply (carry_yields transport _ _).imp _ (fun _ => id)
    rintro _ _ rfl
    rfl
  next packet =>
    apply (carry_yields transport _ _).imp _ (fun _ => id)
    rintro _ _ rfl
    rfl
  next => exact .fault rfl

theorem consumeIncoming_yields {packet : MqttPacket} :
    (consumeIncoming transport fsm packet currentTime).Yields
      (fun tokens _ => tokens.filterMap Effect.sent? = [])
      (fun tokens => tokens.filterMap Effect.sent? = []) := by
  apply (machine_yields _).bind
  · rintro _ rfl
    rfl
  · rintro _ ⟨action, after⟩ - ⟨rfl, consumed⟩
    cases action with
    | none => exact .pure rfl
    | some action =>
      apply (handleAction_yields action).bind
      · rintro _ rfl
        rfl
      · intro tokens _ _ unsent
        apply Emit.Yields.pure
        rw [List.nil_append, List.append_nil, unsent]
        split
        next sent => exact absurd rfl (consume_ne_sendPacket consumed)
        next => rfl

theorem publishActions_done {publisher : MqttClientPublisher UsizePacketIdentifierStore}
    (done : publisher.state = .done) (clock : Nat → MqttInstant) :
    publishActions transport clock publisher = pure publisher := by
  have idle (t : MqttInstant) : publisher.run t = .ok (none, publisher) := by
    rw [MqttClientPublisher.run, done]
  rw [publishActions]
  split
  next ran => cases (idle _).symm.trans ran
  next ran =>
    cases (idle _).symm.trans ran
    rfl
  next ran => cases (idle _).symm.trans ran

theorem run_sending (connected : fsm.isConnected = true) {packet : MPublish}
    (qos : packet.qualityOfService = .atMostOnce) : ∃ next,
      (fsm.publish packet).run currentTime = .ok (some (.sendPacket (.publish packet)), next) ∧
      next.state = .done ∧ next.client.isConnected = true := by
  have state : (fsm.publish packet).state = .send := if_pos qos
  obtain ⟨con, isConnected⟩ := MqttClientFSM.isConnected_iff.mp connected
  rw [MqttClientPublisher.run, state]
  simp only [MqttClientFSM.publish, MqttClientFSM.innerRun_connected currentTime isConnected]
  exact ⟨_, rfl, rfl, rfl⟩

theorem publishActions_yields (connected : fsm.isConnected = true) {packet : MPublish}
    (clock : Nat → MqttInstant) :
    (publishActions transport clock (fsm.publish packet)).Yields
      (fun tokens publisher => packet.qualityOfService = .atMostOnce ∧
        tokens = [.sent (.publish packet)] ∧ publisher.client.isConnected = true)
      (· = []) := by
  rw [publishActions]
  by_cases qos : packet.qualityOfService = .atMostOnce
  · obtain ⟨last, sends, done, still⟩ := run_sending connected qos
    split
    next ran => cases sends.symm.trans ran
    next ran => cases sends.symm.trans ran
    next ran =>
      cases sends.symm.trans ran
      rw [publishActions_done done]
      apply (carry_yields transport _ _).bind (fun _ => id)
      rintro _ _ - rfl
      exact .pure ⟨qos, rfl, still⟩
  · have storing : (∃ p, (fsm.publish packet).run (clock 0) = .error p) ∨ _ := run_storing qos
    split
    next => exact .fault rfl
    next ran => simp [ran] at storing
    next action next ran =>
      obtain ⟨id, rfl⟩ : ∃ id, action = .storePacket id := by simpa [ran] using storing
      exact .fault rfl

theorem run_action {after : Fsm} {action : Option ExpectedAction}
    (ran : fsm.run currentTime = .ok (action, after)) :
    action = none ∨ action = some (.sendPacket (.pingreq .mk)) := by
  obtain ⟨middle, transition, -⟩ := MqttClientFSM.transition_of_innerRun ran
  cases transition with
  | disconnected | awaited => exact .inl rfl
  | @elapsed con =>
    rcases fsm.ping_cases con currentTime with pinged | pinged
    · exact .inr (congrArg Prod.fst pinged)
    · exact .inl (congrArg Prod.fst pinged)

theorem sendQueued_yields (connected : fsm.isConnected = true) {usage : SendUsage}
    {clock : Nat → MqttInstant} :
    (sendQueued transport fsm usage clock currentTime).Yields
      (fun tokens _ => Sending usage (tokens.filterMap Effect.sent?))
      (fun tokens => tokens.filterMap Effect.sent? = [] ∨
        ∃ whole, Sending usage whole ∧ tokens.filterMap Effect.sent? <+: whole) := by
  unfold sendQueued
  split
  next packet =>
    apply (publishActions_yields connected clock).bind
    · rintro _ rfl
      exact .inl rfl
    · rintro _ publisher - ⟨qos, rfl, still⟩
      apply (machine_yields _).bind
      · rintro _ rfl
        exact .inr ⟨_, .publish qos, List.prefix_rfl⟩
      · rintro _ ⟨action, after⟩ - ⟨rfl, ran⟩
        rcases run_action ran with rfl | rfl
        · exact .pure (.publish qos)
        · apply (carry_yields transport _ _).bind
          · rintro _ rfl
            exact .inr ⟨_, .publish qos, List.prefix_rfl⟩
          · rintro _ _ - rfl
            exact .pure (.pinged qos)
  next packet =>
    apply (machine_yields _).bind
    · rintro _ rfl
      exact .inl rfl
    · rintro _ ⟨action, after⟩ - ⟨rfl, called⟩
      obtain ⟨id, clientPis, -, sent⟩ := MqttClientFSM.subscribe_eq_ok called
      obtain ⟨rfl, -⟩ := MqttClientFSM.send_eq_ok sent
      apply (carry_yields transport _ _).bind
      · rintro _ rfl
        exact .inl rfl
      · rintro _ _ - rfl
        exact .pure (.subscribe id)
  next => exact .fault (.inl rfl)

/-! ### Runs -/

/-- What was written on a connection whose task is in this phase; a task that is
gone or was never there has none. -/
def Wired : Option Phase → List SendUsage → List MqttPacket → Prop
  | some (.starting _), usages, packets => usages = [] ∧ packets = []
  | some (.running _), usages, packets | some (.ended _), usages, packets =>
    Written usages packets
  | some (.unwound _), usages, packets | none, usages, packets => Cut usages packets

omit [FxHasher] in
theorem Wired.cut {phase : Option Phase} {usages : List SendUsage} {packets : List MqttPacket}
    (wired : Wired phase usages packets) : Cut usages packets := by
  cases phase with
  | none => exact wired
  | some phase =>
    cases phase with
    | starting =>
      obtain ⟨rfl, rfl⟩ := wired
      exact .silent
    | running | ended => exact .incoming wired
    | unwound => exact wired

omit [FxHasher] in
theorem settle_wired {connection : Connection} {ran : Driven Fsm} {usages : List SendUsage}
    {packets : List MqttPacket} (yields : ran.Yields
      (fun tokens _ => Written usages (packets ++ tokens.filterMap Effect.sent?))
      (fun tokens => Cut usages (packets ++ tokens.filterMap Effect.sent?))) :
    Wired (some (connection.settle ran).2.phase) usages
      (packets ++ (connection.settle ran).1.filterMap Effect.sent?) := by
  cases ended : ran.outcome with
  | ok fsm =>
    have phase : (connection.settle ran).2.phase = .running fsm := by
      simp [Connection.settle, ended]
    rw [phase]
    exact yields.ended fsm ended
  | error fault =>
    rw [Connection.settle_unwound_iff.mpr ended]
    exact yields.failed fault ended

/-- A task adds to what was written what it writes for the packet it takes. -/
theorem Connection.Steps.wired {connection : Connection} {event : TaskEvent}
    {result : List Effect × Connection} (steps : connection.Steps event result)
    {usages more : List SendUsage} {packets : List MqttPacket}
    (taken : connection.queue = more ++ result.2.queue)
    (wired : Wired (some connection.phase) usages packets) :
    Wired (some result.2.phase) (usages ++ more)
      (packets ++ result.1.filterMap Effect.sent?) := by
  cases steps with
  | start phase =>
    obtain rfl := List.self_eq_append_left.mp taken
    rw [phase] at wired
    obtain ⟨rfl, rfl⟩ := wired
    apply settle_wired
    apply greet_yields.imp
    · rintro _ _ rfl
      exact .greeting
    · rintro _ rfl
      exact .silent
  | incoming phase =>
    obtain rfl := List.self_eq_append_left.mp taken
    rw [phase] at wired
    apply settle_wired
    apply consumeIncoming_yields.imp
    · intro _ _ unsent
      rw [unsent, List.append_nil, List.append_nil]
      exact wired
    · intro _ unsent
      rw [unsent, List.append_nil, List.append_nil]
      exact .incoming wired
  | @toSend fsm usage queue clock currentTime transport phase waiting connected =>
    obtain rfl : more = [usage] := by
      have same : [usage] ++ queue = more ++ queue := waiting.symm.trans taken
      exact (List.append_cancel_right same).symm
    rw [phase] at wired
    apply settle_wired
    apply (sendQueued_yields connected).imp
    · exact fun _ _ sending => .next wired sending
    · rintro _ (unsent | ⟨whole, sending, cut⟩)
      · rw [unsent, List.append_nil]
        exact .unsent wired
      · exact .sending wired sending cut
  | readerClosed phase =>
    obtain rfl := List.self_eq_append_left.mp taken
    rw [phase] at wired
    change Written _ _
    rw [List.append_nil]
    exact (List.append_nil packets).symm ▸ wired

namespace CoreClient

def sentOn (channel : Nat) (entry : Entry CoreClient ClientEvent ClientOutput) :
    List MqttPacket := (effectsOn channel entry).filterMap Effect.sent?

variable {before after : CoreClient} {event : ClientEvent} {output : ClientOutput}

structure Transmits (channel : Nat) (trace : ClientTrace) (client : CoreClient) : Prop where
  wired : Wired ((client.connections channel).map (·.phase)) (trace.flatMap (handled channel))
    (trace.flatMap (sentOn channel))
  unused : client.nextChannel ≤ channel →
    trace.flatMap (handled channel) = [] ∧ trace.flatMap (sentOn channel) = []

theorem Transmits.step {channel : Nat} {trace : ClientTrace} (fresh : before.Fresh)
    (transmits : Transmits channel trace before) (step : Steps before event output after) :
    Transmits channel (trace ++ [⟨before, event, output⟩]) after := by
  have seen := step.onChannel fresh channel
  have later := step.nextChannel_le
  have wired := transmits.wired
  generalize left : after.connections channel = new at seen
  generalize found : before.connections channel = old at seen wired
  -- a step that neither takes a packet nor writes one
  have silently (untaken : handled channel ⟨before, event, output⟩ = [])
      (effects : effectsOn channel ⟨before, event, output⟩ = [])
      (wired : Wired (new.map (·.phase)) (trace.flatMap (handled channel))
        (trace.flatMap (sentOn channel))) :
      Transmits channel (trace ++ [⟨before, event, output⟩]) after := by
    have same : (trace ++ [Entry.mk before event output]).flatMap (handled channel) =
        trace.flatMap (handled channel) := by simp [untaken]
    have same' : (trace ++ [Entry.mk before event output]).flatMap (sentOn channel) =
        trace.flatMap (sentOn channel) := by simp [sentOn, effects]
    constructor
    · rw [same, same', left]
      exact wired
    · intro unused
      rw [same, same']
      exact transmits.unused (later.trans unused)
  cases seen with
  | idle silent => exact silently silent.handled silent.effects wired
  | opened silent number =>
    exact silently silent.handled silent.effects (transmits.unused (Nat.le_of_eq number.symm))
  | queued _ _ _ input =>
    obtain rfl : event = .send _ := input
    exact silently rfl rfl wired
  | @stepped connection next event effects input out taken =>
    cases input
    cases out
    have steps := (Connection.steps_of_step taken).wired (queue_of_step found taken) wired
    have written : sentOn channel ⟨before, .task channel event, .effects effects⟩ =
        effects.filterMap Effect.sent? := by simp [sentOn, effectsOn]
    constructor
    · rw [left, List.flatMap_append, List.flatMap_append, List.flatMap_singleton,
        List.flatMap_singleton, written]
      exact steps
    · intro unused
      have known := fresh.task channel (by simp [found])
      exact absurd (later.trans unused) (Nat.not_le_of_lt known)
  | closed silent => exact silently silent.handled silent.effects wired.cut

/-- What was written on a channel's connection for the packets that were taken out of it:
all of it as long as the task runs, and otherwise up to where it stopped. -/
theorem transmits_of_runs {start client : CoreClient} {trace : ClientTrace}
    (initial : start.Initial) (run : ClientRuns start trace client) (channel : Nat) :
    Transmits channel trace client := by
  have reached := run.always (fun trace client => client.Fresh ∧
    Transmits channel trace client) ⟨initial.fresh, ?_, fun _ => ⟨rfl, rfl⟩⟩
    fun ⟨fresh, transmits⟩ step => ⟨fresh.step step, transmits.step fresh step⟩
  · exact reached.2
  · cases found : start.connections channel with
    | none => exact .silent
    | some connection =>
      rw [initial.connection found]
      exact ⟨rfl, rfl⟩

end CoreClient

/-! ### Bytes -/

def TaskEvent.transport? : TaskEvent → Option Transport
  | start _ transport | incoming _ _ transport | toSend _ _ transport => some transport
  | readerClosed => none

def Taken (transport : Transport) (effect : Effect) : Prop := transport effect = .ok true

section

omit [Target] [FxHasher]

theorem machine_all {α : Type} (allowed : Effect → Prop) (call : Except Panic α) :
    (machine call).All allowed := by
  cases call with
  | ok a => exact .pure a
  | error p => exact .fault _

theorem carry_taken (failure : Panic) (effect : Effect) :
    (carry transport failure effect).All (Taken transport) := by
  unfold carry
  split
  next taken => exact .write taken
  next => exact .fault _
  next => exact .fault _

theorem handleAction_taken (action : ExpectedAction) :
    (handleAction transport action).All (Taken transport) := by
  unfold handleAction
  split
  next => exact carry_taken _ _
  next => exact carry_taken _ _
  next => exact .fault _

theorem handleSome_taken (action : Option ExpectedAction) :
    (handleSome transport action).All (Taken transport) := by
  cases action with
  | none => exact .pure ()
  | some action => exact handleAction_taken action

end

theorem publishActions_taken (clock : Nat → MqttInstant)
    (publisher : MqttClientPublisher UsizePacketIdentifierStore) :
    (publishActions transport clock publisher).All (Taken transport) := by
  fun_induction publishActions transport clock publisher with
  | case1 => exact .fault _
  | case2 => exact .pure _
  | case3 _ _ action _ _ ih => exact (handleAction_taken action).bind fun _ _ => ih

theorem Connection.Steps.taken {connection : Connection} {event : TaskEvent}
    {result : List Effect × Connection} (steps : connection.Steps event result) :
    ∀ effect ∈ result.1, ∃ transport, event.transport? = some transport ∧
      Taken transport effect := by
  cases steps with
  | @start fsm currentTime transport =>
    have taken : (greet transport fsm currentTime).All (Taken transport) := by
      refine (machine_all (Taken transport) _).bind fun ran _ => ?_
      obtain ⟨action, after⟩ := ran
      cases action with
      | sendPacket => exact (carry_taken _ _).bind fun _ _ => .pure _
      | _ => exact .fault _
    exact fun effect member => ⟨transport, rfl, taken effect member⟩
  | @incoming fsm packet currentTime transport =>
    have taken : (consumeIncoming transport fsm packet currentTime).All (Taken transport) := by
      refine (machine_all (Taken transport) _).bind fun ran _ => ?_
      exact (handleSome_taken ran.1).bind fun _ _ => .pure _
    exact fun effect member => ⟨transport, rfl, taken effect member⟩
  | @toSend fsm usage queue clock currentTime transport =>
    have taken : (sendQueued transport fsm usage clock currentTime).All (Taken transport) := by
      unfold sendQueued
      split
      next =>
        refine (publishActions_taken clock _).bind fun publisher _ => ?_
        refine (machine_all (Taken transport) _).bind fun ran _ => ?_
        exact (handleSome_taken ran.1).bind fun _ _ => .pure _
      next =>
        refine (machine_all (Taken transport) _).bind fun ran _ => ?_
        exact (handleAction_taken ran.1).bind fun _ _ => .pure _
      next => exact .fault _
    exact fun effect member => ⟨transport, rfl, taken effect member⟩
  | readerClosed => exact List.forall_mem_nil _

end

/-! ### What the peer reads -/

theorem sendable_connectPacket [build : Build] :
    MqttPacketCodec.Sendable (.connect connectPacket) := by
  refine ⟨⟨Properties.new_valid _, fun will same => by cases same⟩, ?_⟩
  cases build with
  | mk overflowChecks => cases overflowChecks <;> decide

section

variable [Build]

def Encodes (transport : Transport) : Prop :=
  ∀ packet, Taken transport (.sent packet) →
    ∃ bytes, MqttPacketCodec.encode packet [] = (.ok (), bytes)

/-- An owned packet was parsed from the bytes it holds. -/
def OwnedPacket (packet : MqttPacket) : Prop := ∃ bytes, MqttPacket.parseComplete bytes = .ok packet

def SendUsage.packet : SendUsage → MqttPacket
  | publish packet | subscribe packet => packet

theorem OwnedPacket.sendable {packet : MqttPacket} (owned : OwnedPacket packet) :
    MqttPacketCodec.Sendable packet := by
  obtain ⟨bytes, parsed⟩ := owned
  obtain ⟨⟨_, rest⟩, read, same⟩ := except_map_eq_ok.mp parsed
  obtain rfl : _ = packet := same
  obtain ⟨valid, -, short⟩ := MqttPacket.body_of_parse read
  exact ⟨valid, short⟩

theorem Sending.sendable {usage : SendUsage} {packets : List MqttPacket}
    (sending : Sending usage packets) (owned : OwnedPacket usage.packet) :
    ∀ packet ∈ packets, MqttPacketCodec.Sendable packet := by
  have sendable := owned.sendable
  cases sending with
  | publish =>
    rw [List.forall_mem_singleton]
    exact sendable
  | pinged =>
    rw [List.forall_mem_cons, List.forall_mem_singleton]
    exact ⟨sendable, trivial, Nat.zero_le _⟩
  | subscribe id =>
    rw [List.forall_mem_singleton]
    -- an identifier takes two bytes
    exact ⟨sendable.valid, sendable.short⟩

theorem Cut.sendable {usages : List SendUsage} {packets : List MqttPacket}
    (cut : Cut usages packets) (owned : ∀ usage ∈ usages, OwnedPacket usage.packet) :
    ∀ packet ∈ packets, MqttPacketCodec.Sendable packet := by
  have written {usages : List SendUsage} {packets : List MqttPacket}
      (written : Written usages packets) (owned : ∀ usage ∈ usages, OwnedPacket usage.packet) :
      ∀ packet ∈ packets, MqttPacketCodec.Sendable packet := by
    induction written with
    | greeting =>
      rw [List.forall_mem_singleton]
      exact sendable_connectPacket
    | next _ sending ih =>
      obtain ⟨earlier, last⟩ := List.forall_mem_append.mp owned
      rw [List.forall_mem_append]
      exact ⟨ih earlier, sending.sendable (last _ (List.mem_singleton_self _))⟩
  cases cut with
  | silent => exact List.forall_mem_nil _
  | incoming whole => exact written whole owned
  | unsent whole => exact written whole (List.forall_mem_append.mp owned).1
  | sending whole sending cut =>
    obtain ⟨earlier, last⟩ := List.forall_mem_append.mp owned
    rw [List.forall_mem_append]
    refine ⟨written whole earlier, fun packet member => ?_⟩
    exact sending.sendable (last _ (List.mem_singleton_self _)) packet (cut.mem member)

namespace CoreClient

variable [Target]

/-- The callers hand over owned packets, and the writers use the codec. -/
structure Proper (entry : Entry CoreClient ClientEvent ClientOutput) : Prop where
  owned : ∀ usage, entry.input = .send usage → OwnedPacket usage.packet
  encodes : ∀ channel event transport, entry.input = .task channel event →
    event.transport? = some transport → Encodes transport

omit [Build] in
theorem mem_of_effectsOn {channel other : Nat} {before : CoreClient} {event : TaskEvent}
    {effects : List Effect} {effect : Effect}
    (member : effect ∈ effectsOn channel ⟨before, .task other event, .effects effects⟩) :
    effect ∈ effects := by
  change effect ∈ if other = channel then effects else [] at member
  split at member
  next => exact member
  next => cases member

theorem frame_of_sentOn [FxHasher] {start client : CoreClient} {trace : ClientTrace}
    (run : ClientRuns start trace client) (proper : ∀ entry ∈ trace, Proper entry)
    {channel : Nat} {packet : MqttPacket} (member : packet ∈ trace.flatMap (sentOn channel)) :
    ∃ frame, packet.write.Emits frame () := by
  obtain ⟨entry, inside, sent⟩ := List.mem_flatMap.mp member
  obtain ⟨effect, carried, same⟩ := List.mem_filterMap.mp sent
  obtain rfl : effect = .sent packet := by
    cases effect with
    | sent => exact congrArg Effect.sent (Option.some.inj same)
    | forwarded => cases same
  have encodes := (proper entry inside).encodes
  obtain ⟨front, back, rfl⟩ := List.append_of_mem inside
  obtain ⟨-, after, step, -⟩ := run.of_entry
  obtain ⟨before, input, output⟩ := entry
  dsimp only at step encodes
  cases step with
  | @task other event _ _ effects found taken =>
    obtain ⟨transport, transported, accepted⟩ :=
      (Connection.steps_of_step taken).taken _ (mem_of_effectsOn carried)
    obtain ⟨bytes, encoded⟩ := encodes other event transport rfl transported packet accepted
    obtain ⟨frame, written, -⟩ := MqttPacketCodec.encode_eq_ok encoded
    exact ⟨frame, written⟩
  | _ => cases carried

theorem sendable_of_runs [FxHasher] {start client : CoreClient} {trace : ClientTrace}
    (initial : start.Initial) (run : ClientRuns start trace client)
    (proper : ∀ entry ∈ trace, Proper entry) (channel : Nat) :
    ∀ packet ∈ trace.flatMap (sentOn channel), MqttPacketCodec.Sendable packet := by
  obtain ⟨waiting, conserves⟩ := conserves_of_runs initial run channel
  apply (transmits_of_runs initial run channel).wired.cut.sendable
  intro usage taken
  have member : usage ∈ trace.flatMap (accepted channel) := by
    rw [conserves.inOrder]
    exact List.mem_append_left _ taken
  obtain ⟨entry, inside, queued⟩ := List.mem_flatMap.mp member
  exact (proper entry inside).owned usage (send_of_accepted queued)

theorem written_of_runs [FxHasher] {start client : CoreClient} {trace : ClientTrace}
    (run : ClientRuns start trace client) (proper : ∀ entry ∈ trace, Proper entry)
    (channel : Nat) : ∃ frames, List.Forall₂ (fun packet frame => packet.write.Emits frame ())
      (trace.flatMap (sentOn channel)) frames := by
  refine ⟨(trace.flatMap (sentOn channel)).map (·.write.emitted), ?_⟩
  rw [List.forall₂_map_right_iff, List.forall₂_same]
  intro packet member
  obtain ⟨frame, emits⟩ := frame_of_sentOn run proper member
  obtain rfl := (Emit.emits_iff.mp emits).1
  exact emits

/-- Whatever the order of the steps: the bytes on a connection are those of its CONNECT
and of the packets that were queued on it, in order, and a peer reads them back. -/
theorem reads_of_runs [FxHasher] {start client : CoreClient} {trace : ClientTrace}
    (initial : start.Initial) (run : ClientRuns start trace client)
    (proper : ∀ entry ∈ trace, Proper entry) (channel : Nat) :
    Wired ((client.connections channel).map (·.phase)) (trace.flatMap (handled channel))
        (trace.flatMap (sentOn channel)) ∧
      ∃ bytes, MqttPacketCodec.encodeAll (trace.flatMap (sentOn channel)) [] = (.ok (), bytes) ∧
        ∀ chunks : List (List UInt8), chunks.flatten <+: bytes → ∃ read pending,
          trace.flatMap (sentOn channel) = read ++ pending ∧
          (feed MqttPacketCodec.decode chunks).failure = none ∧
          List.Forall₂ (fun q packet => q.eq packet = .ok true)
            (feed MqttPacketCodec.decode chunks).items read ∧
          (chunks.flatten = bytes → pending = []) := by
  have sendable := sendable_of_runs initial run proper channel
  obtain ⟨frames, written⟩ := written_of_runs run proper channel
  refine ⟨(transmits_of_runs initial run channel).wired, _,
    MqttPacketCodec.encodeAll_of_writes sendable written [], ?_⟩
  intro chunks arrived
  obtain ⟨read, pending, split, fine, same, -, -, all⟩ :=
    MqttPacketCodec.feed_writes sendable written arrived
  exact ⟨read, pending, split, fine, same, all⟩

end CoreClient

end

/-! ### A message behind the CONNECT -/

namespace CoreClient

attribute [local instance] development x86_64 unhashed

def writing : Transport
  | .sent packet =>
    match MqttPacketCodec.encode packet [] with
    | (.ok (), _) => .ok true
    | (.error (.panic p), _) => .error p
    | (.error (.error _), _) => .ok false
  | .forwarded _ => .ok true

theorem encodes_writing : Encodes writing := by
  intro packet taken
  unfold Taken writing at taken
  dsimp only at taken
  split at taken
  next bytes encoded => exact ⟨bytes, encoded⟩
  next => cases taken
  next => cases taken

def greeted : MPublish :=
  { publication [1] "a" with properties := .takeInner publishFields fun _ => none }

theorem owned_greeted : OwnedPacket (.publish greeted) :=
  ⟨[0x30, 0x05, 0x00, 0x01, 0x61, 0x00, 0x01], rfl⟩

def greetedSession : List ClientEvent :=
  [.task 0 (.start ⟨0⟩ writing), .task 0 (.incoming accepting ⟨0⟩ writing),
    .send (.publish (.publish greeted)), .task 0 (.toSend (fun _ => ⟨0⟩) ⟨0⟩ writing)]

theorem greeted_run : ∃ trace client, ClientRuns .newAndConnect trace client ∧
    trace.map (·.input) = greetedSession ∧ ∀ entry ∈ trace, Proper entry := by
  have session : ∃ trace client, ClientRuns .newAndConnect trace client ∧
      trace.map (·.input) = greetedSession :=
    ⟨_, _, .next (.next (.next (.next .done (.task 0 (.start ⟨0⟩ writing) rfl rfl))
      (.task 0 (.incoming accepting ⟨0⟩ writing) rfl rfl)) (.send _ rfl))
      (.task 0 (.toSend (fun _ => ⟨0⟩) ⟨0⟩ writing) rfl rfl), rfl⟩
  obtain ⟨trace, client, run, inputs⟩ := session
  refine ⟨trace, client, run, inputs, fun entry inside => ?_⟩
  have member := inputs ▸ List.mem_map_of_mem inside
  simp only [greetedSession, List.mem_cons, List.not_mem_nil, or_false] at member
  constructor
  · intro usage input
    rcases member with same | same | same | same <;> cases input.symm.trans same
    exact owned_greeted
  · intro channel event transport input transported
    rcases member with same | same | same | same <;> cases input.symm.trans same <;>
      cases transported <;> exact encodes_writing

theorem reads_of_runs_greeted : ∃ trace client, ClientRuns .newAndConnect trace client ∧
    trace.map (·.input) = greetedSession ∧
    (Wired ((client.connections 0).map (·.phase)) (trace.flatMap (handled 0))
        (trace.flatMap (sentOn 0)) ∧
      ∃ bytes, MqttPacketCodec.encodeAll (trace.flatMap (sentOn 0)) [] = (.ok (), bytes) ∧
        ∀ chunks : List (List UInt8), chunks.flatten <+: bytes → ∃ read pending,
          trace.flatMap (sentOn 0) = read ++ pending ∧
          (feed MqttPacketCodec.decode chunks).failure = none ∧
          List.Forall₂ (fun q packet => q.eq packet = .ok true)
            (feed MqttPacketCodec.decode chunks).items read ∧
          (chunks.flatten = bytes → pending = [])) := by
  obtain ⟨trace, client, run, inputs, proper⟩ := greeted_run
  exact ⟨trace, client, run, inputs, reads_of_runs .newAndConnect run proper 0⟩

end CoreClient

end Client
