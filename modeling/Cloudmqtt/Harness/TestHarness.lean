import Cloudmqtt.Client.Calls
import Cloudmqtt.Harness.Broker

/-! The calls that the test cases are made of, and what their answers say about the client. -/

set_option autoImplicit false

namespace Harness

open Base Rust V5 Core Client

/-- Those that a call makes. -/
inductive TestHarnessError where
  | brokerNotFound (name : String)
  | clientNotFound (name : String)
  | channel
  | client (e : Client.Error)
  | unexpectedClientIdentifier (got expected : String)
  | unexpectedTopic (expected found : String)
  | payloadNotUtf8
  deriving DecidableEq

/-- How a call stops: with an error it returns, or unwinding. -/
inductive HarnessFault where
  | error (e : TestHarnessError)
  | panic (p : Panic)

structure Broker where
  name : String
  connections : AList fun _ : String => ConnectionState

namespace Broker

def new (name : String) : Broker := ⟨name, ∅⟩

/-- The tasks of an earlier connection of that name live on, without this handle. -/
def connect (self : Broker) (clientName : String) : Broker :=
  { self with connections := self.connections.insert clientName .connect }

def send [Build] (self : Broker) (clientName : String) (packet : MqttPacket) :
    Option (Except HarnessFault Unit × Broker) :=
  match self.connections.lookup clientName with
  | none => some (.error (.error (.clientNotFound clientName)), self)
  | some state =>
    match MqttPacket.new packet with
    | .error p => some (.error (.panic p), self)
    | .ok packet => (state.send packet).map fun
      | .error () => (.error (.error .channel), self)
      | .ok state =>
        (.ok (), { self with connections := self.connections.insert clientName state })

def sendConnack [Build] (self : Broker) (clientName : String) :
    Option (Except HarnessFault Unit × Broker) :=
  self.send clientName accepting

def hasReceivedPacket (self : Broker) (clientName : String)
    (func : MqttPacket → Except TestHarnessError Bool) : Except TestHarnessError Bool :=
  match self.connections.lookup clientName with
  | none => .error (.clientNotFound clientName)
  | some state => state.receivedPackets.anyM func

end Broker

/-- What the broker makes of a payload: a PUBLISH that needs an identifier and has none. -/
def unnumbered (payload : List UInt8) (topic : String) : MPublish :=
  { publication payload topic with qualityOfService := .atLeastOnce }

structure TestClient (ς : Type) [Target] where
  client : CloudmqttClient ς
  name : String

def TestClient.connectToAndAck [Build] {ς : Type} [Target] (self : TestClient ς)
    (broker : Broker) : Option (Except HarnessFault Unit × TestClient ς × Broker) :=
  match self.client.connect with
  | (.error _, client) => some (.error (.panic .unwrapError), { self with client }, broker)
  | (.ok (), client) =>
    ((broker.connect self.name).sendConnack self.name).map fun (result, broker) =>
      (result.mapError fun
        | .error _ => .panic .unwrapError
        | .panic p => .panic p, { self with client }, broker)

structure TestHarness (ς : Type) [Target] where
  brokers : AList fun _ : String => Broker
  clients : AList fun _ : String => TestClient ς

/-! ### The answers of the checks -/

-- A payload that differs is logged, and the answer is the same.
def checkPublish (_expectedPayload expectedTopic : String) :
    MqttPacket → Except TestHarnessError Bool
  | .publish publish =>
    if publish.topicName ≠ expectedTopic then
      .error (.unexpectedTopic expectedTopic publish.topicName)
    else
      match fromUtf8 publish.payload with
      | none => .error .payloadNotUtf8
      | some _ => .ok true
  | _ => .ok false

def checkConnect (clientIdentifier : String) : MqttPacket → Except TestHarnessError Bool
  | .connect connect =>
    if connect.clientIdentifier = clientIdentifier then .ok true
    else .error (.unexpectedClientIdentifier connect.clientIdentifier clientIdentifier)
  | _ => .ok false

namespace TestHarness

variable {ς : Type} [Target]

def new : TestHarness ς := ⟨∅, ∅⟩

def updateBroker (self : TestHarness ς) (name : String) (broker : Broker) : TestHarness ς :=
  { self with brokers := self.brokers.insert name broker }

def updateClient (self : TestHarness ς) (name : String) (client : TestClient ς) : TestHarness ς :=
  { self with clients := self.clients.insert name client }

def startBroker (self : TestHarness ς) (name : String) : TestHarness ς :=
  self.updateBroker name (.new name)

def createClient (self : TestHarness ς) (name : String) : TestHarness ς :=
  self.updateClient name ⟨.new, name⟩

def connectClientToBroker [Build] (self : TestHarness ς) (clientName brokerName : String) :
    Option (Except HarnessFault Unit × TestHarness ς) :=
  match self.brokers.lookup brokerName, self.clients.lookup clientName with
  | none, _ => some (.error (.error (.brokerNotFound brokerName)), self)
  | some _, none => some (.error (.error (.clientNotFound clientName)), self)
  | some broker, some client =>
    (client.connectToAndAck broker).map fun (result, client, broker) =>
      (result, (self.updateBroker brokerName broker).updateClient clientName client)

def publish [Build] (self : TestHarness ς) (clientName payload topic : String) :
    Option (Except HarnessFault Unit × TestHarness ς) :=
  match self.clients.lookup clientName with
  | none => some (.error (.error (.clientNotFound clientName)), self)
  | some client =>
    (client.client.publish (asBytes payload) topic).map fun (result, client') =>
      (result.mapError fun
        | .error e => .error (.client e)
        | .panic p => .panic p,
        self.updateClient clientName { client with client := client' })

def publishToClient [Build] (self : TestHarness ς) (brokerName clientName payload topic : String) :
    Option (Except HarnessFault Unit × TestHarness ς) :=
  match self.brokers.lookup brokerName with
  | none => some (.error (.error (.brokerNotFound brokerName)), self)
  | some broker =>
    (broker.send clientName (.publish (unnumbered (asBytes payload) topic))).map
      fun (result, broker) => (result, self.updateBroker brokerName broker)

def checkForPublishOnBroker (self : TestHarness ς)
    (brokerName clientName expectedPayload expectedTopic : String) :
    Except TestHarnessError Bool :=
  match self.brokers.lookup brokerName with
  | none => .error (.brokerNotFound brokerName)
  | some broker => broker.hasReceivedPacket clientName (checkPublish expectedPayload expectedTopic)

def checkForConnectOnBroker (self : TestHarness ς)
    (brokerName clientName clientIdentifier : String) : Except TestHarnessError Bool :=
  match self.brokers.lookup brokerName with
  | none => .error (.brokerNotFound brokerName)
  | some broker => broker.hasReceivedPacket clientName (checkConnect clientIdentifier)

end TestHarness

def welcome : MConnack where
  sessionPresent := false
  reasonCode := ⟨.success, success_mem_connack⟩
  properties := .takeInner connackFields fun _ => none

def ConnectionState.greeting : ConnectionState :=
  { connect with packetSender := [.connack welcome] }

theorem new_accepting [build : Build] : MqttPacket.new accepting = .ok (.connack welcome) := by
  obtain ⟨checks⟩ := build
  cases checks with
  | false => rfl
  | true => rfl

def Broker.greets (self : Broker) (clientName : String) : Broker :=
  { self with connections := self.connections.insert clientName .greeting }

theorem sendConnack_connect [Build] (broker : Broker) (clientName : String) :
    (broker.connect clientName).sendConnack clientName =
      some (.ok (), broker.greets clientName) := by
  have found : (broker.connect clientName).connections.lookup clientName =
      some ConnectionState.connect := AList.lookup_insert _
  have queued : ConnectionState.connect.send (.connack welcome) = some (.ok .greeting) := rfl
  simp only [Broker.sendConnack, Broker.send, found, new_accepting, queued, Option.map_some]
  rw [Broker.greets, Broker.connect, AList.insert_insert]

/-- A client connects once, and is greeted: the next call unwinds, and the broker is as
it was. -/
theorem TestClient.connectToAndAck_cases [Build] {ς : Type} [Target] (client : TestClient ς)
    (broker : Broker) :
    (∃ fsm after, client.client.coreClient.connectionState = .unconnected fsm ∧
        client.connectToAndAck broker =
          some (.ok (), { client with client := after }, broker.greets client.name)) ∨
      ∃ sender after, client.client.coreClient.connectionState = .connected sender ∧
        client.connectToAndAck broker =
          some (.error (.panic .unwrapError), { client with client := after }, broker) := by
  cases state : client.client.coreClient.connectionState with
  | unconnected fsm =>
    refine .inl ⟨fsm, client.client.connect.2, rfl, ?_⟩
    simp only [connectToAndAck, CloudmqttClient.connect, CoreClient.connect, state,
      sendConnack_connect]
    rfl
  | connected sender =>
    refine .inr ⟨sender, client.client.connect.2, rfl, ?_⟩
    simp only [connectToAndAck, CloudmqttClient.connect, CoreClient.connect, state]

/-! ### What a check says -/

/-- Only the first message counts, and not what it says. -/
def verdict (expectedTopic : String) :
    List (String × List UInt8) → Except TestHarnessError Bool
  | [] => .ok false
  | (topic, payload) :: _ =>
    if topic ≠ expectedTopic then .error (.unexpectedTopic expectedTopic topic)
    else if (fromUtf8 payload).isSome then .ok true
    else .error .payloadNotUtf8

theorem anyM_checkPublish (payload topic : String) (packets : List MqttPacket) :
    packets.anyM (checkPublish payload topic) =
      verdict topic (packets.filterMap MqttPacket.message?) := by
  induction packets with
  | nil => rfl
  | cons packet packets ih =>
    cases packet with
    | publish publish =>
      rw [List.anyM_cons, List.filterMap_cons]
      simp only [checkPublish, MqttPacket.message?, verdict]
      split
      next => rfl
      next =>
        cases fromUtf8 publish.payload with
        | none => rfl
        | some _ => rfl
    | _ => exact ih

def identifier? : MqttPacket → Option String
  | .connect connect => some connect.clientIdentifier
  | _ => none

def greetingVerdict (clientIdentifier : String) : List String → Except TestHarnessError Bool
  | [] => .ok false
  | got :: _ =>
    if got = clientIdentifier then .ok true
    else .error (.unexpectedClientIdentifier got clientIdentifier)

theorem anyM_checkConnect (clientIdentifier : String) (packets : List MqttPacket) :
    packets.anyM (checkConnect clientIdentifier) =
      greetingVerdict clientIdentifier (packets.filterMap identifier?) := by
  induction packets with
  | nil => rfl
  | cons packet packets ih =>
    cases packet with
    | connect connect =>
      rw [List.anyM_cons, List.filterMap_cons]
      simp only [checkConnect, identifier?, greetingVerdict]
      split
      next => rfl
      next => rfl
    | _ => exact ih

theorem identifier?_congr {p q : MqttPacket} (same : p.eq q = .ok true) :
    identifier? p = identifier? q := by
  cases p <;> cases q <;> simp only [MqttPacket.eq, Except.ok.injEq, Bool.false_eq_true] at same
  case connect.connect p q =>
    have fields := of_decide_eq_true (Except.ok.inj (andAlso_eq_true.mp same).1)
    rw [identifier?, identifier?, fields.1]
  all_goals rfl

theorem identifiers_congr {items packets : List MqttPacket}
    (same : List.Forall₂ (fun q packet => q.eq packet = .ok true) items packets) :
    items.filterMap identifier? = packets.filterMap identifier? := by
  induction same with
  | nil => rfl
  | cons first _ ih => rw [List.filterMap_cons, List.filterMap_cons, ih, identifier?_congr first]

theorem written_identifiers {usages : List SendUsage} {packets : List MqttPacket}
    (written : Written usages packets) : packets.filterMap identifier? = ["cloudmqtt-0"] := by
  induction written with
  | greeting => rfl
  | next _ sending ih =>
    rw [List.filterMap_append, ih]
    cases sending <;> rfl

theorem cut_identifiers {usages : List SendUsage} {packets : List MqttPacket}
    (cut : Cut usages packets) : packets.filterMap identifier? <+: ["cloudmqtt-0"] := by
  cases cut with
  | silent => exact List.nil_prefix
  | incoming written | unsent written => rw [written_identifiers written]
  | sending written sending cut =>
    have all := written_identifiers (written.next sending)
    rw [← all, List.filterMap_append, List.filterMap_append]
    exact (List.prefix_append_right_inj _).mpr (cut.filterMap _)

theorem exists_sublist {α β : Type} {same : α → β → Prop} {some items : List α} {read : List β}
    (part : some.Sublist items) (all : List.Forall₂ same items read) :
    ∃ seen, List.Forall₂ same some seen ∧ seen.Sublist read := by
  induction part generalizing read with
  | slnil => exact ⟨[], .nil, List.nil_sublist read⟩
  | cons a _ ih =>
    cases all with
    | cons _ rest =>
      obtain ⟨seen, each, within⟩ := ih rest
      exact ⟨seen, each, within.cons _⟩
  | cons_cons a _ ih =>
    cases all with
    | cons first rest =>
      obtain ⟨seen, each, within⟩ := ih rest
      exact ⟨_ :: seen, .cons first each, within.cons_cons _⟩

/-! ### Payloads that the broker sends -/

/-- How a payload comes back: its first byte was read as an identifier and the front of the
others as properties. Where the length that is announced does not cover all of it, its end
is lost. -/
structure Misread (payload : List UInt8) (topic : String) (p : MPublish) : Prop where
  topic : p.topicName = topic
  split : ∃ first front back identifier, payload = first :: (front ++ p.payload ++ back) ∧
    front ≠ [] ∧
    Properties.parse publishFields (front ++ p.payload) = .ok (p.properties, p.payload) ∧
    p.packetIdentifier = some identifier ∧ u16Bytes identifier.value.get = [0, first]

section

variable [Build]

theorem new_unnumbered {payload : List UInt8} {topic : String} {packet : MqttPacket}
    (made : MqttPacket.new (.publish (unnumbered payload topic)) = .ok packet) :
    ∃ p, packet = .publish p ∧ Misread payload topic p := by
  obtain ⟨-, bytes, emits, complete⟩ := MqttPacket.new_eq_ok.mp made
  have properties : (Properties.new publishFields).write.Emits [0] () :=
    (Properties.write_emits (Properties.new_valid _) (Nat.zero_le _)).mpr
      ⟨[0], rfl, rfl, fun _ _ => rfl⟩
  have none : (writeOption PacketIdentifier.write none).Emits [] () :=
    Emit.pure_emits.mpr ⟨rfl, rfl⟩
  simp only [MqttPacket.write, Emit.seq_emits, MFixedHeader.write, writeByte_emits,
    writeSized_emits, MqttPacket.writePacket, MPublish.write_emits] at emits
  obtain ⟨_, _, rfl, ⟨length, _, ⟨size, -, announced⟩, ⟨_, _, _, topicEmits, -, idEmits,
    sectionEmits, rfl⟩, rfl⟩, rfl⟩ := emits
  obtain ⟨fits, rfl⟩ := writeString_emits.mp topicEmits
  obtain ⟨rfl, -⟩ := idEmits.unique none
  obtain ⟨rfl, -⟩ := sectionEmits.unique properties
  obtain ⟨-, left, run⟩ := (MqttPacket.parseComplete_eq_ok announced).mp complete
  obtain ⟨p, read, rfl⟩ := Parser.map_eq_ok.mp run
  obtain ⟨-, qos, -, -, needed, -, _, _, tail, namedEmits, numbered, propertiesRead, same⟩ :=
    MPublish.parse_eq_ok.mp read
  change len topic ≤ 65535 at fits
  change (prefixed (asBytes topic) ++ 0 :: payload).take size.toNat = _ at same
  obtain ⟨named, rfl⟩ := eq_of_take_prefixed fits namedEmits same
  have needs : p.qualityOfService ≠ .atMostOnce := by
    rw [show p.qualityOfService = .atLeastOnce from qos]
    decide
  obtain ⟨identifier, numberedBy⟩ := Option.isSome_iff_exists.mp (needed.mpr needs)
  rw [numberedBy] at numbered
  obtain rfl := writeU16_emits.mp numbered
  obtain ⟨front, rfl, -⟩ := Properties.parse_local publishFields _ _ _ propertiesRead
  have shorter := Properties.parse_shrinks publishFields _ _ _ propertiesRead
  -- behind the topic stands the empty section, and then the payload
  have behind := congrArg (List.drop (prefixed (asBytes topic)).length) same
  rw [List.drop_take, List.drop_left, List.drop_left] at behind
  generalize size.toNat - (prefixed (asBytes topic)).length = n at behind
  cases n with
  | zero => cases behind
  | succ n =>
    obtain ⟨high, rest⟩ := List.cons.inj behind
    refine ⟨p, rfl, named, identifier.value.get.toUInt8, front, payload.drop n, identifier, ?_,
      ?_, propertiesRead, numberedBy, ?_⟩
    · calc payload = payload.take n ++ payload.drop n := (List.take_append_drop n payload).symm
        _ = _ := by
          rw [rest]
          rfl
    · rintro rfl
      exact absurd shorter (Nat.lt_irrefl _)
    · rw [u16Bytes, ← high]

theorem send_eq_ok {broker after : Broker} {clientName : String} {packet : MqttPacket}
    (sent : broker.send clientName packet = some (.ok (), after)) : ∃ state made,
      broker.connections.lookup clientName = some state ∧ MqttPacket.new packet = .ok made ∧
      after = { broker with connections :=
        broker.connections.insert clientName { state with packetSender := [made] } } := by
  unfold Broker.send at sent
  split at sent
  next => cases sent
  next state found =>
    split at sent
    next => cases sent
    next made packed =>
      obtain ⟨result, queued, same⟩ := Option.map_eq_some_iff.mp sent
      cases result with
      | error => cases same
      | ok state' =>
        cases same
        unfold ConnectionState.send at queued
        split at queued
        next => cases queued
        next =>
          split at queued
          next room =>
            cases queued
            have empty : state.packetSender = [] := List.length_eq_zero_iff.mp (by omega)
            refine ⟨state, made, found, packed, ?_⟩
            rw [empty, List.nil_append]
          next => cases queued

theorem publishToClient_eq_ok {ς : Type} [Target] {harness after : TestHarness ς}
    {brokerName clientName payload topic : String}
    (returned : harness.publishToClient brokerName clientName payload topic =
      some (.ok (), after)) : ∃ broker broker', harness.brokers.lookup brokerName = some broker ∧
      broker.send clientName (.publish (unnumbered (asBytes payload) topic)) =
        some (.ok (), broker') ∧ after = harness.updateBroker brokerName broker' := by
  unfold TestHarness.publishToClient at returned
  split at returned
  next => cases returned
  next broker found =>
    obtain ⟨⟨result, broker'⟩, sent, same⟩ := Option.map_eq_some_iff.mp returned
    obtain ⟨rfl, rfl⟩ := Prod.mk.inj same
    exact ⟨broker, broker', found, sent, rfl⟩

/-- A call that returns has queued something else than its payload. -/
theorem publishToClient_misreads {ς : Type} [Target] {harness after : TestHarness ς}
    {brokerName clientName payload topic : String}
    (returned : harness.publishToClient brokerName clientName payload topic =
      some (.ok (), after)) : ∃ broker state p, after.brokers.lookup brokerName = some broker ∧
      broker.connections.lookup clientName = some state ∧ state.packetSender = [.publish p] ∧
      Misread (asBytes payload) topic p := by
  obtain ⟨broker, broker', -, sent, rfl⟩ := publishToClient_eq_ok returned
  obtain ⟨state, made, -, packed, rfl⟩ := send_eq_ok sent
  obtain ⟨p, rfl, misread⟩ := new_unnumbered packed
  exact ⟨_, _, p, AList.lookup_insert _, AList.lookup_insert _, rfl, misread⟩

end

/-! ### A client and the broker it is connected to -/

section

variable [Target] [Build] [FxHasher]

/-- A run of a client with one of the broker's connection, that has read a front of what
the client wrote on a channel. -/
structure Linked (start client : CoreClient) (trace : ClientTrace) (channel : Nat)
    (seen : BrokerTrace) (connection : ConnectionState) : Prop where
  initial : start.Initial
  run : ClientRuns start trace client
  proper : ∀ entry ∈ trace, CoreClient.Proper entry
  observed : BrokerRuns seen connection
  front : ∃ bytes, MqttPacketCodec.encodeAll (trace.flatMap (CoreClient.sentOn channel)) [] =
    (.ok (), bytes) ∧ (seen.flatMap arrived).flatten <+: bytes

/-- Every packet that the client accepted has been recorded: its task runs and its queue is
empty, the bytes are all there, nothing waits on the broker's side and nothing was read
too soon. -/
structure Delivered (client : CoreClient) (trace : ClientTrace) (channel : Nat)
    (seen : BrokerTrace) (connection : ConnectionState) : Prop where
  running : ∃ fsm, client.connections channel = some ⟨.running fsm, []⟩
  all : MqttPacketCodec.encodeAll (trace.flatMap (CoreClient.sentOn channel)) [] =
    (.ok (), (seen.flatMap arrived).flatten)
  settled : connection.Settled
  prompt : EveryStep (fun _ => Prompt) seen

variable {start client : CoreClient} {trace : ClientTrace} {channel : Nat} {seen : BrokerTrace}
  {connection : ConnectionState}

theorem Linked.recorded (linked : Linked start client trace channel seen connection) :
    ∃ packets, List.Forall₂ (fun q packet => q.eq packet = .ok true)
        connection.receivedPackets packets ∧
      packets.Sublist (trace.flatMap (CoreClient.sentOn channel)) ∧
      (Delivered client trace channel seen connection →
        packets = trace.flatMap (CoreClient.sentOn channel)) := by
  obtain ⟨initial, run, proper, observed, bytes, encoded, front⟩ := linked
  obtain ⟨frames, written, rfl⟩ := MqttPacketCodec.encodeAll_eq_ok encoded
  obtain ⟨read, pending, split, -, same, -, -, all⟩ := MqttPacketCodec.feed_writes
    (CoreClient.sendable_of_runs initial run proper channel) written front
  obtain ⟨packets, each, within⟩ := exists_sublist (receivedPackets_sublist observed) same
  rw [split]
  refine ⟨packets, each, within.trans (List.sublist_append_left _ _), fun delivered => ?_⟩
  have complete : (seen.flatMap arrived).flatten = [] ++ frames.flatten :=
    congrArg Prod.snd (delivered.all.symm.trans encoded)
  have lengths := each.length_eq
  rw [(receivedPackets_eq_iff observed delivered.settled).mpr delivered.prompt,
    same.length_eq] at lengths
  rw [within.eq_of_length lengths.symm, all complete, List.append_nil]

/-- A check answers by the first message that is recorded, whatever it says. The messages
recorded are accepted ones, in order, and all of them once everything is delivered. -/
theorem checkForPublishOnBroker_of_runs {ς : Type}
    (linked : Linked start client trace channel seen connection) {harness : TestHarness ς}
    {broker : Broker} {brokerName clientName : String}
    (known : harness.brokers.lookup brokerName = some broker)
    (connected : broker.connections.lookup clientName = some connection)
    (payload topic : String) :
    harness.checkForPublishOnBroker brokerName clientName payload topic =
        verdict topic (connection.receivedPackets.filterMap MqttPacket.message?) ∧
      (connection.receivedPackets.filterMap MqttPacket.message?).Sublist
        ((trace.flatMap (accepted channel)).filterMap SendUsage.message?) ∧
      (Delivered client trace channel seen connection →
        connection.receivedPackets.filterMap MqttPacket.message? =
          (trace.flatMap (accepted channel)).filterMap SendUsage.message?) := by
  obtain ⟨packets, each, within, all⟩ := linked.recorded
  refine ⟨?_, ?_, ?_⟩
  · simp only [TestHarness.checkForPublishOnBroker, known, Broker.hasReceivedPacket, connected,
      anyM_checkPublish]
  · rw [messages_congr each]
    exact (within.filterMap _).trans
      (CoreClient.messages_front linked.initial linked.run).sublist
  · intro delivered
    obtain ⟨fsm, running⟩ := delivered.running
    rw [messages_congr each, all delivered,
      CoreClient.messages_eq linked.initial linked.run running]

/-- A check for the CONNECT knows one client identifier, whatever the client is called: it
fails for every other one, unless the CONNECT was lost or has yet to come. -/
theorem checkForConnectOnBroker_of_runs {ς : Type}
    (linked : Linked start client trace channel seen connection) {harness : TestHarness ς}
    {broker : Broker} {brokerName clientName : String}
    (known : harness.brokers.lookup brokerName = some broker)
    (connected : broker.connections.lookup clientName = some connection)
    (clientIdentifier : String) :
    (harness.checkForConnectOnBroker brokerName clientName clientIdentifier = .ok false ∧
        ¬ Delivered client trace channel seen connection) ∨
      harness.checkForConnectOnBroker brokerName clientName clientIdentifier =
        if clientIdentifier = "cloudmqtt-0" then .ok true
        else .error (.unexpectedClientIdentifier "cloudmqtt-0" clientIdentifier) := by
  obtain ⟨packets, each, within, all⟩ := linked.recorded
  have wired := (CoreClient.transmits_of_runs linked.initial linked.run channel).wired
  have answer : harness.checkForConnectOnBroker brokerName clientName clientIdentifier =
      greetingVerdict clientIdentifier (packets.filterMap identifier?) := by
    simp only [TestHarness.checkForConnectOnBroker, known, Broker.hasReceivedPacket, connected,
      anyM_checkConnect, identifiers_congr each]
  have few : (packets.filterMap identifier?).Sublist ["cloudmqtt-0"] :=
    (within.filterMap _).trans (cut_identifiers wired.cut).sublist
  rw [answer]
  rcases List.sublist_singleton.mp few with none | one
  · refine .inl ⟨by rw [none]; rfl, fun delivered => ?_⟩
    obtain ⟨fsm, running⟩ := delivered.running
    rw [running] at wired
    have written := written_identifiers (show Written _ _ from wired)
    rw [← all delivered, none] at written
    cases written
  · right
    rw [one, greetingVerdict]
    simp only [eq_comm]

end

/-! ### A client that published, and a broker that has read all of it -/

section

attribute [local instance] development x86_64 unhashed

theorem connect_read (chunk : List UInt8) :
    ∃ connection, ConnectionState.connect.read chunk = some connection := by
  cases chunk with
  | nil => exact ⟨_, rfl⟩
  | cons => exact ⟨_, rfl⟩

theorem greeted_linked : ∃ client trace seen connection,
    Linked .newAndConnect client trace 0 seen connection ∧
      trace.map (·.input) = CoreClient.greetedSession := by
  obtain ⟨trace, client, run, inputs, proper⟩ := CoreClient.greeted_run
  obtain ⟨frames, written⟩ := CoreClient.written_of_runs run proper 0
  have encoded := MqttPacketCodec.encodeAll_of_writes
    (CoreClient.sendable_of_runs .newAndConnect run proper 0) written []
  obtain ⟨connection, read⟩ := connect_read frames.flatten
  have observed : BrokerRuns _ connection := .next .done (.read read)
  exact ⟨client, trace, _, connection,
    ⟨.newAndConnect, run, proper, observed, _, encoded, by simp [arrived]⟩, inputs⟩

def observing (connection : ConnectionState) : TestHarness Nat where
  brokers := AList.singleton "b1" ⟨"b1", AList.singleton "c1" connection⟩
  clients := ∅

theorem publishToClient_misreads_letters : ∃ after,
    (observing .connect).publishToClient "b1" "c1" "\x01\x00hi" "a" = some (.ok (), after) ∧
    ∃ broker state p, after.brokers.lookup "b1" = some broker ∧
      broker.connections.lookup "c1" = some state ∧ state.packetSender = [.publish p] ∧
      Misread (asBytes "\x01\x00hi") "a" p := by
  obtain ⟨after, returned⟩ : ∃ after, (observing .connect).publishToClient "b1" "c1"
      "\x01\x00hi" "a" = some (.ok (), after) := ⟨_, rfl⟩
  exact ⟨after, returned, publishToClient_misreads returned⟩

theorem checkForPublishOnBroker_of_runs_greeted : ∃ client trace seen connection,
    Linked .newAndConnect client trace 0 seen connection ∧
    trace.map (·.input) = CoreClient.greetedSession ∧
    (observing connection).checkForPublishOnBroker "b1" "c1" "x" "a" =
        verdict "a" (connection.receivedPackets.filterMap MqttPacket.message?) ∧
      (connection.receivedPackets.filterMap MqttPacket.message?).Sublist
        ((trace.flatMap (accepted 0)).filterMap SendUsage.message?) ∧
      (Delivered client trace 0 seen connection →
        connection.receivedPackets.filterMap MqttPacket.message? =
          (trace.flatMap (accepted 0)).filterMap SendUsage.message?) := by
  obtain ⟨client, trace, seen, connection, linked, inputs⟩ := greeted_linked
  exact ⟨client, trace, seen, connection, linked, inputs,
    checkForPublishOnBroker_of_runs linked rfl rfl "x" "a"⟩

theorem checkForConnectOnBroker_of_runs_greeted : ∃ client trace seen connection,
    Linked .newAndConnect client trace 0 seen connection ∧
    trace.map (·.input) = CoreClient.greetedSession ∧
    ((observing connection).checkForConnectOnBroker "b1" "c1" "c1" = .ok false ∧
        ¬ Delivered client trace 0 seen connection ∨
      (observing connection).checkForConnectOnBroker "b1" "c1" "c1" =
        if "c1" = "cloudmqtt-0" then .ok true
        else .error (.unexpectedClientIdentifier "cloudmqtt-0" "c1")) := by
  obtain ⟨client, trace, seen, connection, linked, inputs⟩ := greeted_linked
  exact ⟨client, trace, seen, connection, linked, inputs,
    checkForConnectOnBroker_of_runs linked rfl rfl "c1"⟩

end

end Harness
