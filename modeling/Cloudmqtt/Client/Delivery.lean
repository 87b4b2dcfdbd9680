import Cloudmqtt.Client.Forwarding
import Cloudmqtt.Client.Routing
import Cloudmqtt.Client.Subscribing

/-! A call of `build` among the tasks: the connection hands publishes to the router
while the subscription they are for is being registered.
-/

set_option autoImplicit false

namespace Client

open Base Rust V5 Core

inductive Stage (ς : Type) where
  | packed (packet : MqttPacket)
  | handed
  | registering (id : SubscriptionId) (sink : ς) (remaining : List String)
  | stopped

def Stage.id? {ς : Type} : Stage ς → Option SubscriptionId
  | registering id _ _ => some id
  | _ => none

/-- The client, one call of `build`, and the channel from the connections to the routing
task. Of the call's SUBSCRIBE it is noted on which channel it was handed over and whether
it was written; of a packet on its way, whether it was received after that; and of the
packet that is routed, the identifier the call had by then, until its turn is over. -/
structure Scene (ς : Type) [Target] where
  coreClient : CoreClient
  router : RoutingState ς
  stage : Stage ς
  handedTo : Option Nat
  written : Bool
  incoming : List (MqttPacket × Bool)
  due : Option (Bool × SubscriptionId)

inductive SceneEvent (ς : Type) where
  | hand
  | addSink (sink : ς)
  | addFilter
  | client (event : ClientEvent)
  | register (input : Registration ς)
  | receive (order : List TopicEntry)
  | advance
  | poll (sink : ς)
  | drop (sink : ς)

def SceneEvent.isReceive {ς : Type} : SceneEvent ς → Bool
  | receive _ => true
  | _ => false

def SceneEvent.isAdvance {ς : Type} : SceneEvent ς → Bool
  | advance => true
  | _ => false

inductive SceneOutput (ς : Type) where
  | quiet
  | client (output : ClientOutput)
  | sent (delivery : Option (Delivery ς))

def Effect.isSubscribe : Effect → Bool
  | sent (.subscribe _) => true
  | _ => false

namespace Scene

variable {ς : Type} [Target]

/-- The task of the connection writes the SUBSCRIBE that waits in its channel. -/
def writes (self : Scene ς) : ClientEvent → ClientOutput → Bool
  | .task channel (.toSend _ _ _), .effects effects =>
    decide (self.handedTo = some channel) && effects.any Effect.isSubscribe
  | _, _ => false

def arriving (self : Scene ς) (output : ClientOutput) : List (MqttPacket × Bool) :=
  self.incoming ++ output.forwarded.map fun packet => (packet, self.written)

def Returned (self : Scene ς) (sink : ς) : Prop :=
  ∀ id remaining, self.stage = .registering id sink remaining → remaining = []

def taken (self : Scene ς) (router : RoutingState ς) (late : Bool)
    (rest : List (MqttPacket × Bool)) : Scene ς :=
  { self with router, incoming := rest, due := self.stage.id?.map fun id => (late, id) }

def advanced (self : Scene ς) (router : RoutingState ς) : Scene ς :=
  { self with router, due := self.due.filter fun (_, id) => self.router.turn? ≠ some id }

-- Other callers of the client are the `send` events of its own steps and `register`. A
-- registration that waits for the filter map blocks its thread; the tasks go on.
/-- One step of the call, of a task, of a subscriber or of another caller, in any order. A
filter that is no valid one stops the call. -/
inductive Steps [FxHasher] [DashMap] [DecidableEq ς] (topicFilters : List String)
    (before : Scene ς) : SceneEvent ς → SceneOutput ς → Scene ς → Prop where
  | hand {packet : MqttPacket} {channel : Nat} {coreClient : CoreClient} :
      before.stage = .packed packet → before.coreClient.connectionState = .connected channel →
      before.coreClient.send (.subscribe packet) = some (.ok (), coreClient) →
      Steps topicFilters before .hand .quiet
        { before with coreClient, stage := .handed, handedTo := some channel }
  | refuse {packet : MqttPacket} {e : Error} {coreClient : CoreClient} :
      before.stage = .packed packet →
      before.coreClient.send (.subscribe packet) = some (.error e, coreClient) →
      Steps topicFilters before .hand .quiet { before with stage := .stopped }
  | addSink (sink : ς) : before.stage = .handed → before.router.sinks sink = none →
      Steps topicFilters before (.addSink sink) .quiet { before with
        router := (before.router.addSubscriptionSink sink).2
        stage := .registering (before.router.addSubscriptionSink sink).1 sink topicFilters }
  | addFilter {id : SubscriptionId} {sink : ς} {topicFilter : String} {remaining : List String}
      {router : RoutingState ς} : before.stage = .registering id sink (topicFilter :: remaining) →
      before.router.addSubscriptionToTopic id topicFilter = some (.ok router) →
      Steps topicFilters before .addFilter .quiet
        { before with router, stage := .registering id sink remaining }
  -- the receiver goes with the call
  | unwind {id : SubscriptionId} {sink : ς} {topicFilter : String} {remaining : List String}
      {p : Panic} : before.stage = .registering id sink (topicFilter :: remaining) →
      before.router.addSubscriptionToTopic id topicFilter = some (.error p) →
      Steps topicFilters before .addFilter .quiet
        { before with router := before.router.drop sink, stage := .stopped }
  | client {event : ClientEvent} {output : ClientOutput} {coreClient : CoreClient} :
      CoreClient.Steps before.coreClient event output coreClient →
      -- the channel has room for one packet
      (before.arriving output).length ≤ 1 ∨ output.forwarded = [] →
      Steps topicFilters before (.client event) (.client output) { before with
        coreClient
        written := before.written || before.writes event output
        incoming := before.arriving output }
  | register {input : Registration ς} {router : RoutingState ς} :
      RoutingState.Registers before.router input router →
      Steps topicFilters before (.register input) .quiet { before with router }
  | receive {order : List TopicEntry} {packet : MqttPacket} {late : Bool}
      {rest : List (MqttPacket × Bool)} {router : RoutingState ς} :
      before.router.routing = none → before.incoming = (packet, late) :: rest →
      order.Perm before.router.router.subscriptionTopics.entries →
      before.router.receive order packet = .ok router →
      Steps topicFilters before (.receive order) .quiet (before.taken router late rest)
  | advance {delivery : Option (Delivery ς)} {router : RoutingState ς} :
      before.router.advance = some (delivery, router) →
      Steps topicFilters before .advance (.sent delivery) (before.advanced router)
  | poll {sink : ς} {packet : MqttPacket} {router : RoutingState ς} : before.Returned sink →
      before.router.pollNext sink = some (packet, router) →
      Steps topicFilters before (.poll sink) .quiet { before with router }
  | drop {sink : ς} : before.Returned sink → before.router.sinks sink ≠ none →
      Steps topicFilters before (.drop sink) .quiet
        { before with router := before.router.drop sink }

def Initial [Build] (topicFilters : List String) (start : Scene ς) : Prop :=
  ∃ (client : CloudmqttClient ς) (packet : MqttPacket),
    client.Initial ∧ subscribePacket topicFilters = .ok packet ∧
    start = ⟨client.coreClient, .idle client.router, .packed packet, none, false, [], none⟩

abbrev SceneEntry (ς : Type) : Type := Entry (Scene ς) (SceneEvent ς) (SceneOutput ς)

def Requested (topicFilters : List String) (packet : MqttPacket) : Prop :=
  ∃ publish topicName, packet = .publish publish ∧
    TopicNameBuf.new publish.topicName = .ok topicName ∧
    ∃ topicFilter ∈ topicFilters, ∃ filter, TopicFilterBuf.new topicFilter = .ok filter ∧
      topicName.matchesFilter filter = .ok true

open Classical in
/-- Those of the packets that match and were received after the SUBSCRIBE was written. -/
noncomputable def wanted (topicFilters : List String) (packets : List (MqttPacket × Bool)) :
    List MqttPacket :=
  (packets.filter fun item => item.2 = true ∧ Requested topicFilters item.1).map Prod.fst

noncomputable def received (topicFilters : List String) (entry : SceneEntry ς) : List MqttPacket :=
  match entry.input with
  | .client event =>
    wanted topicFilters (event.incoming?.toList.map fun (_, packet, _) =>
      (packet, entry.before.written))
  | _ => []

/-- The packet that is routed, while the turn of the call's identifier is to come. -/
def inHand (self : Scene ς) : List (MqttPacket × Bool) :=
  match self.router.routing, self.due with
  | some routing, some (late, id) =>
    if id ∈ routing.pending then [(routing.packet, late)] else []
  | _, _ => []

def Reaches (self : Scene ς) (delivery : Delivery ς) : Prop :=
  ∃ remaining, self.stage = .registering delivery.subscriptionId delivery.sink remaining

open Classical in
/-- What is put into the channel of the subscription in this step, of the packets that are
wanted; a second copy of one is not counted. -/
noncomputable def delivered (topicFilters : List String) (entry : SceneEntry ς) : List MqttPacket :=
  match entry.output, entry.before.due with
  | .sent (some delivery), some (late, id) =>
    if id = delivery.subscriptionId ∧ entry.before.Reaches delivery then
      wanted topicFilters [(delivery.packet, late)]
    else []
  | _, _ => []

noncomputable def waiting (topicFilters : List String) (self : Scene ς) : List MqttPacket :=
  wanted topicFilters (self.inHand ++ self.incoming)

/-- The sink is added, and the filter that the router meets first among those that match
is registered for it. -/
def Serves (self : Scene ς) (order : List TopicEntry) (packet : MqttPacket) : Prop :=
  ∃ id publish topicName, self.stage.id? = some id ∧ packet = .publish publish ∧
    TopicNameBuf.new publish.topicName = .ok topicName ∧
    id ∈ firstMatch topicName.matchesEntry (·.2) order

/-- In its turn, the call's identifier stands for the call's sink, and the subscription is
not dropped. -/
def Takes (self : Scene ς) (routing : Routing ς) (id : SubscriptionId) : Prop :=
  ∃ sink remaining slot, self.stage = .registering id sink remaining ∧
    routing.sending = some (id, sink) ∧ self.router.sinks sink = some (.live slot)

/-- A wanted packet that is received is passed on, one that is taken out of the channel is
served, and one that is sent is taken. -/
def Keeps (topicFilters : List String) (entry : SceneEntry ς) : Prop :=
  match entry.input with
  | .client event => ∀ channel packet transport,
    event.incoming? = some (channel, packet, transport) → entry.before.written = true →
      Requested topicFilters packet → entry.before.coreClient.Passes channel packet transport
  | .receive order => ∀ packet rest, entry.before.incoming = (packet, true) :: rest →
    Requested topicFilters packet → entry.before.Serves order packet
  | .advance => ∀ routing id, entry.before.router.routing = some routing →
    entry.before.due = some (true, id) → entry.before.router.turn? = some id →
      Requested topicFilters routing.packet → entry.before.Takes routing id
  | _ => True

/-- Neither the task nor its packets hold the routing up. -/
structure Proceeds [DecidableEq ς] (scene : Scene ς) : Prop where
  advance : scene.router.routing ≠ none → scene.router.advance.isSome = true
  receive : ∀ packet late rest order, scene.incoming = (packet, late) :: rest →
    order.Perm scene.router.router.subscriptionTopics.entries →
    ∃ router, scene.router.receive order packet = .ok router

omit [Target] in
theorem wanted_append {topicFilters : List String} (first second : List (MqttPacket × Bool)) :
    wanted topicFilters (first ++ second) =
      wanted topicFilters first ++ wanted topicFilters second := by
  rw [wanted, List.filter_append, List.map_append]
  rfl

omit [Target] in
theorem wanted_single {topicFilters : List String} {packet : MqttPacket} {late : Bool} :
    late = true ∧ Requested topicFilters packet ∧ wanted topicFilters [(packet, late)] = [packet] ∨
      ¬ (late = true ∧ Requested topicFilters packet) ∧
        wanted topicFilters [(packet, late)] = [] := by
  unfold wanted
  by_cases wants : late = true ∧ Requested topicFilters packet
  · exact .inl ⟨wants.1, wants.2, by simp [wants]⟩
  · exact .inr ⟨wants, by simp [wants]⟩

theorem inHand_eq {self : Scene ς} {routing : Routing ς} {late : Bool} {id : SubscriptionId}
    (held : self.router.routing = some routing) (due : self.due = some (late, id)) :
    self.inHand = if id ∈ routing.pending then [(routing.packet, late)] else [] := by
  rw [inHand, held, due]

theorem inHand_idle {self : Scene ς} (idle : self.router.routing = none) : self.inHand = [] := by
  rw [inHand, idle]

theorem inHand_undue {self : Scene ς} (undue : self.due = none) : self.inHand = [] := by
  rw [inHand, undue]
  cases self.router.routing <;> rfl

theorem serves_iff {self : Scene ς} {order : List TopicEntry} {publish : MPublish}
    {topicName : TopicNameBuf} (named : TopicNameBuf.new publish.topicName = .ok topicName) :
    self.Serves order (.publish publish) ↔ ∃ id, self.stage.id? = some id ∧
      id ∈ firstMatch topicName.matchesEntry (·.2) order := by
  constructor
  · rintro ⟨id, _, topicName', stage, ⟨⟩, named', first⟩
    obtain rfl := Except.ok.inj (named.symm.trans named')
    exact ⟨id, stage, first⟩
  · rintro ⟨id, stage, first⟩
    exact ⟨id, publish, topicName, stage, rfl, named, first⟩

theorem inHand_taken {before : Scene ς} {order : List TopicEntry} {publish : MPublish}
    {topicName : TopicNameBuf} {router : RoutingState ς} (idle : before.router.routing = none)
    (named : TopicNameBuf.new publish.topicName = .ok topicName)
    (ran : before.router.receive order (.publish publish) = .ok router) (late : Bool)
    (rest : List (MqttPacket × Bool)) :
    before.Serves order (.publish publish) ∧
        (before.taken router late rest).inHand = [(.publish publish, late)] ∨
      ¬ before.Serves order (.publish publish) ∧ (before.taken router late rest).inHand = [] := by
  rw [serves_iff named, firstMatch]
  cases stage : before.stage.id? with
  | none => exact .inr ⟨by simp, inHand_undue (by simp [taken, stage])⟩
  | some id =>
    have due : (before.taken router late rest).due = some (late, id) := by simp [taken, stage]
    rcases RoutingState.receive_eq_ok named ran with ⟨found, rfl⟩ | ⟨r, found, rfl⟩
    · rw [found]
      exact .inr ⟨by simp, inHand_idle idle⟩
    · rw [found, inHand_eq rfl due]
      by_cases listed : id ∈ r.2
      · exact .inl ⟨⟨id, rfl, listed⟩, by simp [Routing.pending, listed]⟩
      · refine .inr ⟨?_, by simp [Routing.pending, listed]⟩
        rintro ⟨_, ⟨⟩, member⟩
        exact listed member

theorem inHand_taken_or {before : Scene ς} {order : List TopicEntry} {packet : MqttPacket}
    {router : RoutingState ς} (idle : before.router.routing = none)
    (ran : before.router.receive order packet = .ok router) (late : Bool)
    (rest : List (MqttPacket × Bool)) :
    (before.taken router late rest).inHand = [(packet, late)] ∨
      (before.taken router late rest).inHand = [] := by
  obtain ⟨found, -, rfl⟩ := except_map_eq_ok.mp ran
  cases stage : before.stage.id? with
  | none => exact .inr (inHand_undue (by simp [taken, stage]))
  | some id =>
    cases found with
    | none => exact .inr (inHand_idle idle)
    | some r =>
      rw [inHand_eq rfl (show (before.taken _ late rest).due = some (late, id) by
        simp [taken, stage])]
      split
      next => exact .inl rfl
      next => exact .inr rfl

theorem delivered_in_turn {before : Scene ς} {routing : Routing ς}
    {delivery : Option (Delivery ς)} {late : Bool} {id : SubscriptionId}
    (due : before.due = some (late, id))
    (sent : (∃ sink, routing.sending = some (id, sink) ∧
        before.router.sinks sink = some (.live none) ∧
        delivery = some ⟨id, sink, routing.packet⟩) ∨
      delivery = none ∧ ∀ sink slot, routing.sending = some (id, sink) →
        before.router.sinks sink ≠ some (.live slot)) (topicFilters : List String) :
    before.Takes routing id ∧ delivered topicFilters ⟨before, .advance, .sent delivery⟩ =
        wanted topicFilters [(routing.packet, late)] ∨
      ¬ before.Takes routing id ∧
        delivered topicFilters ⟨before, .advance, .sent delivery⟩ = [] := by
  rcases sent with ⟨sink, sending, room, rfl⟩ | ⟨rfl, closed⟩
  · by_cases reaches : before.Reaches ⟨id, sink, routing.packet⟩
    · obtain ⟨remaining, stage⟩ := reaches
      refine .inl ⟨⟨sink, remaining, none, stage, sending, room⟩, ?_⟩
      simp only [delivered, due]
      exact if_pos ⟨rfl, remaining, stage⟩
    · refine .inr ⟨?_, ?_⟩
      · rintro ⟨other, remaining, _, stage, sending', -⟩
        obtain ⟨-, rfl⟩ := Prod.mk.inj (Option.some.inj (sending.symm.trans sending'))
        exact reaches ⟨remaining, stage⟩
      · simp only [delivered, due]
        exact if_neg fun both => reaches both.2
  · refine .inr ⟨?_, rfl⟩
    rintro ⟨sink, _, slot, -, sending, live⟩
    exact closed sink slot sending live

variable {topicFilters : List String} {before after : Scene ς}

theorem balance_receive {order : List TopicEntry} {packet : MqttPacket} {late : Bool}
    {rest : List (MqttPacket × Bool)} {router : RoutingState ς}
    (idle : before.router.routing = none) (front : before.incoming = (packet, late) :: rest)
    (ran : before.router.receive order packet = .ok router) :
    Balances (Keeps topicFilters ⟨before, .receive order, .quiet⟩) (before.waiting topicFilters)
      ((before.taken router late rest).waiting topicFilters) := by
  have cut : before.waiting topicFilters =
      wanted topicFilters [(packet, late)] ++ wanted topicFilters rest := by
    rw [waiting, inHand_idle idle, List.nil_append, front]
    exact wanted_append [(packet, late)] rest
  have left : (before.taken router late rest).waiting topicFilters =
      wanted topicFilters (before.taken router late rest).inHand ++ wanted topicFilters rest :=
    wanted_append _ rest
  rw [cut, left]
  refine Balances.append_right ?_ _
  rcases @wanted_single topicFilters packet late with
    ⟨rfl, requested, wants⟩ | ⟨unwanted, nothing⟩
  · -- a wanted packet is in hand exactly where it is served
    have parts := requested
    obtain ⟨publish, topicName, rfl, named, -⟩ := parts
    rcases inHand_taken idle named ran true rest with ⟨serves, inHand⟩ | ⟨ignored, inHand⟩
    · refine .of_kept (fun _ _ same _ => ?_) (by rw [inHand])
      obtain ⟨same, -⟩ := List.cons.inj (front.symm.trans same)
      obtain ⟨rfl, -⟩ := Prod.mk.inj same
      exact serves
    · refine .of_lost (fun kept => ignored (kept _ rest front requested)) ?_
      rw [inHand, wants]
      exact Nat.one_pos
  · -- any other packet counts for nothing, in the channel or in hand
    have inside : wanted topicFilters (before.taken router late rest).inHand = [] := by
      rcases inHand_taken_or idle ran late rest with inHand | inHand
      · rw [inHand, nothing]
      · rw [inHand]
        rfl
    refine .of_kept (fun _ _ same requested => ?_) (nothing.trans inside.symm)
    obtain ⟨same, -⟩ := List.cons.inj (front.symm.trans same)
    obtain ⟨rfl, rfl⟩ := Prod.mk.inj same
    exact absurd ⟨rfl, requested⟩ unwanted

/-- In its turn, the packet in hand is delivered or lost. -/
theorem balance_turn {routing : Routing ς} {delivery : Option (Delivery ς)}
    {router : RoutingState ς} {late : Bool} {id : SubscriptionId}
    (held : before.router.routing = some routing) (due : before.due = some (late, id))
    (turn : before.router.turn? = some id) (pending : id ∈ routing.pending)
    (sent : (∃ sink, routing.sending = some (id, sink) ∧
        before.router.sinks sink = some (.live none) ∧
        delivery = some ⟨id, sink, routing.packet⟩) ∨
      delivery = none ∧ ∀ sink slot, routing.sending = some (id, sink) →
        before.router.sinks sink ≠ some (.live slot)) :
    Balances (Keeps topicFilters ⟨before, .advance, .sent delivery⟩)
      (wanted topicFilters before.inHand)
      (delivered topicFilters ⟨before, .advance, .sent delivery⟩ ++
        wanted topicFilters (before.advanced router).inHand) := by
  have past : (before.advanced router).due = none := by simp [advanced, due, turn]
  have none : wanted topicFilters (before.advanced router).inHand = [] := by
    rw [inHand_undue past]
    rfl
  rw [inHand_eq held due, if_pos pending, none, List.append_nil]
  have own {other : Routing ς} {late' : Bool} {id' : SubscriptionId}
      (same : before.router.routing = some other) (some : before.due = some (late', id')) :
      other = routing ∧ late' = late ∧ id' = id := by
    obtain rfl := Option.some.inj (held.symm.trans same)
    obtain ⟨rfl, rfl⟩ := Prod.mk.inj (Option.some.inj (due.symm.trans some))
    exact ⟨rfl, rfl, rfl⟩
  rcases @wanted_single topicFilters routing.packet late with
    ⟨rfl, requested, wants⟩ | ⟨unwanted, nothing⟩
  · rcases delivered_in_turn due sent topicFilters with ⟨takes, all⟩ | ⟨refuses, none⟩
    · refine .of_kept (fun _ _ same some _ _ => ?_) all.symm
      obtain ⟨rfl, -, rfl⟩ := own same some
      exact takes
    · refine .of_lost (fun kept => refuses (kept routing id held due turn requested)) ?_
      rw [none, wants]
      exact Nat.one_pos
  · have missing : delivered topicFilters ⟨before, .advance, .sent delivery⟩ = [] := by
      rcases delivered_in_turn due sent topicFilters with ⟨-, all⟩ | ⟨-, none⟩
      · rw [all, nothing]
      · exact none
    refine .of_kept (fun _ _ same some _ requested => ?_) (nothing.trans missing.symm)
    obtain ⟨rfl, rfl, -⟩ := own same some
    exact absurd ⟨rfl, requested⟩ unwanted

theorem balance_advance [DecidableEq ς] {delivery : Option (Delivery ς)} {router : RoutingState ς}
    (ran : before.router.advance = some (delivery, router)) :
    Balances (Keeps topicFilters ⟨before, .advance, .sent delivery⟩)
      (wanted topicFilters before.inHand)
      (delivered topicFilters ⟨before, .advance, .sent delivery⟩ ++
        wanted topicFilters (before.advanced router).inHand) := by
  obtain ⟨routing, held, step⟩ := RoutingState.advances_of_advance ran
  cases due : before.due with
  | none =>
    have undue : (before.advanced router).due = none := by simp [advanced, due]
    rw [inHand_undue due, inHand_undue undue]
    refine .of_kept (fun _ _ _ some => ?_) (by simp [delivered, due, wanted])
    cases due.symm.trans some
  | some pair =>
    obtain ⟨late, id⟩ := pair
    -- until the turn of the identifier is over, the packet stays in hand
    have stays {next : Routing ς} (left : router.routing = some next)
        (still : (before.advanced router).due = some (late, id))
        (packet : next.packet = routing.packet)
        (pending : id ∈ next.pending ↔ id ∈ routing.pending) :
        (before.advanced router).inHand = before.inHand := by
      rw [inHand_eq held due, inHand_eq left still, packet]
      simp only [pending]
    rcases RoutingState.turn_of_advances held step with
      ⟨turn, rfl, left⟩ | ⟨served, next, turn, left, packet, pending, sent⟩
    · -- it is nobody's turn yet
      have still : (before.advanced router).due = some (late, id) := by
        simp [advanced, due, turn]
      have same : (before.advanced router).inHand = before.inHand := by
        rcases left with ⟨idle, none⟩ | ⟨next, left, packet, pending⟩
        · rw [inHand_idle idle, inHand_eq held due, none]
          rfl
        · exact stays left still packet (by rw [pending])
      refine .of_kept (fun _ _ _ _ other => ?_) (by simp [same, delivered])
      cases turn.symm.trans other
    · by_cases mine : id = served
      · subst mine
        exact balance_turn held due turn (pending ▸ List.mem_cons_self) sent
      · -- it is another subscription's turn
        have still : (before.advanced router).due = some (late, id) := by
          simp [advanced, due, turn, Ne.symm mine]
        have same := stays left still packet (by simp [pending, mine])
        have nothing : delivered topicFilters ⟨before, .advance, .sent delivery⟩ = [] := by
          rcases sent with ⟨sink, -, -, rfl⟩ | ⟨rfl, -⟩
          · simp [delivered, due, mine]
          · rfl
        refine .of_kept (fun _ _ _ some turn' => ?_) (by rw [same, nothing, List.nil_append])
        obtain ⟨-, rfl⟩ := Prod.mk.inj (Option.some.inj (due.symm.trans some))
        exact absurd (Option.some.inj (turn'.symm.trans turn)) mine

theorem inHand_congr {self other : Scene ς} (routing : other.router.routing = self.router.routing)
    (due : other.due = self.due) : other.inHand = self.inHand := by
  rw [inHand, routing, due]
  rfl

theorem balance_client [FxHasher] {event : ClientEvent} {output : ClientOutput}
    {coreClient : CoreClient} (ran : CoreClient.Steps before.coreClient event output coreClient) :
    Balances (Keeps topicFilters ⟨before, .client event, .client output⟩)
      (received topicFilters ⟨before, .client event, .client output⟩)
      (wanted topicFilters (output.forwarded.map fun packet => (packet, before.written))) := by
  simp only [received, Keeps]
  cases incoming : event.incoming? with
  | none =>
    refine .of_kept (fun _ _ _ same => by cases same) ?_
    rw [ran.silent incoming]
    rfl
  | some got =>
    obtain ⟨channel, packet, transport⟩ := got
    obtain ⟨passes, keeps⟩ := ran.forwarded incoming
    rw [Option.toList_some, List.map_singleton]
    rcases @wanted_single topicFilters packet before.written with
      ⟨late, requested, wants⟩ | ⟨unwanted, nothing⟩
    · by_cases passing : before.coreClient.Passes channel packet transport
      · refine .of_kept ?_ (by rw [passes passing]; rfl)
        rintro _ _ _ ⟨⟩ - -
        exact passing
      · refine .of_lost (fun kept => passing (kept _ _ _ rfl late requested)) ?_
        rw [keeps passing, wants]
        exact Nat.one_pos
    · have arrived : wanted topicFilters
          (output.forwarded.map fun packet => (packet, before.written)) = [] := by
        by_cases passing : before.coreClient.Passes channel packet transport
        · rw [passes passing]
          exact nothing
        · rw [keeps passing]
          rfl
      refine .of_kept ?_ (nothing.trans arrived.symm)
      rintro _ _ _ ⟨⟩ late requested
      exact absurd ⟨late, requested⟩ unwanted

section

variable [FxHasher] [DashMap] [DecidableEq ς] {input : SceneEvent ς} {output : SceneOutput ς}

/-- A step that keeps passes the wanted packets on; any other loses one. -/
theorem balance (step : Steps topicFilters before input output after) :
    Balances (Keeps topicFilters ⟨before, input, output⟩)
      (before.waiting topicFilters ++ received topicFilters ⟨before, input, output⟩)
      (delivered topicFilters ⟨before, input, output⟩ ++ after.waiting topicFilters) := by
  have quietly {input : SceneEvent ς} {other : Scene ς}
      (routing : other.router.routing = before.router.routing) (due : other.due = before.due)
      (incoming : other.incoming = before.incoming)
      (kept : Keeps topicFilters ⟨before, input, .quiet⟩)
      (none : received topicFilters ⟨before, input, .quiet⟩ = []) :
      Balances (Keeps topicFilters ⟨before, input, .quiet⟩)
        (before.waiting topicFilters ++ received topicFilters ⟨before, input, .quiet⟩)
        (delivered topicFilters ⟨before, input, .quiet⟩ ++ other.waiting topicFilters) := by
    rw [waiting, waiting, inHand_congr routing due, incoming, none]
    exact .of_kept kept (List.append_nil _)
  cases step with
  | hand | refuse | addSink | unwind | drop => exact quietly rfl rfl rfl trivial rfl
  | addFilter _ added =>
    obtain ⟨-, router, -, rfl⟩ := RoutingState.addSubscriptionToTopic_eq_ok added
    exact quietly rfl rfl rfl trivial rfl
  | register registers => exact quietly registers.router.2 rfl rfl trivial rfl
  | poll _ polled =>
    obtain ⟨-, rfl⟩ := RoutingState.pollNext_eq_some polled
    exact quietly rfl rfl rfl trivial rfl
  | @client event output coreClient ran room =>
    have later : wanted topicFilters (before.inHand ++ before.arriving output) =
        before.waiting topicFilters ++
          wanted topicFilters (output.forwarded.map fun packet => (packet, before.written)) := by
      rw [arriving, ← List.append_assoc, wanted_append]
      rfl
    have behind : Balances (Keeps topicFilters ⟨before, .client event, .client output⟩) _ _ :=
      (balance_client ran).append_left (before.waiting topicFilters)
    rw [← later] at behind
    exact behind
  | @receive order _ _ _ _ idle front perm ran =>
    have none : received topicFilters ⟨before, .receive order, .quiet⟩ = [] := rfl
    rw [none, List.append_nil]
    exact balance_receive idle front ran
  | @advance delivery router ran =>
    have none : received topicFilters ⟨before, .advance, .sent delivery⟩ = [] := rfl
    have front : Balances (Keeps topicFilters ⟨before, .advance, .sent delivery⟩) _ _ :=
      (balance_advance ran).append_right (wanted topicFilters before.incoming)
    rw [List.append_assoc, ← wanted_append, ← wanted_append] at front
    rw [none, List.append_nil]
    exact front

/-- Every part of the loop leaves fewer of them, and only a packet that is received brings
new ones. -/
theorem Steps.work_le (step : Steps topicFilters before input output after)
    (own : input.isReceive = false) :
    (if input.isAdvance then 1 else 0) + after.router.work ≤ before.router.work := by
  have still {other : RoutingState ς} (same : other.routing = before.router.routing) :
      0 + other.work ≤ before.router.work := by
    rw [RoutingState.work, same, Nat.zero_add]
    exact Nat.le_refl _
  cases step with
  | hand | refuse | addSink | unwind | client | drop => exact still rfl
  | addFilter _ added =>
    obtain ⟨-, router, -, rfl⟩ := RoutingState.addSubscriptionToTopic_eq_ok added
    exact still rfl
  | register registers => exact still registers.router.2
  | receive => cases own
  | @advance _ router ran =>
    obtain ⟨_, held, step⟩ := RoutingState.advances_of_advance ran
    have fewer : router.work < before.router.work := step.work_lt held
    exact (Nat.add_comm 1 router.work).trans_le fewer
  | poll _ polled =>
    obtain ⟨-, rfl⟩ := RoutingState.pollNext_eq_some polled
    exact still rfl

end

section

variable [DashMap] [DecidableEq ς] {input : SceneEvent ς} {output : SceneOutput ς}

-- The router's `panic!` and `expect` are ruled out by where its packets and filters
-- come from.
structure Sound (scene : Scene ς) : Prop where
  router : ∃ trace, RouterRuns trace scene.router.router
  known : ∀ id sink remaining, scene.stage = .registering id sink remaining →
    id ∈ scene.router.router.subscriptions
  publishes : ∀ item ∈ scene.incoming, ∃ publish, item.1 = .publish publish

omit [DashMap] [DecidableEq ς] in
theorem Initial.sound [Build] {start : Scene ς} (initial : start.Initial topicFilters) :
    start.Sound := by
  obtain ⟨client, packet, made, -, rfl⟩ := initial
  have router : client.router = .new := by cases made <;> rfl
  refine ⟨⟨[], ?_⟩, fun _ _ _ stage => by simp at stage, fun _ member => by simp at member⟩
  rw [RoutingState.idle, router]
  exact .done

theorem Sound.step [FxHasher] (sound : before.Sound)
    (step : Steps topicFilters before input output after) : after.Sound := by
  obtain ⟨⟨trace, run⟩, known, publishes⟩ := sound
  cases step with
  | hand => exact ⟨⟨trace, run⟩, fun _ _ _ stage => by simp at stage, publishes⟩
  | refuse => exact ⟨⟨trace, run⟩, fun _ _ _ stage => by simp at stage, publishes⟩
  | addSink sink =>
    refine ⟨⟨_, .next run (.sink sink)⟩, ?_, publishes⟩
    rintro _ _ _ ⟨⟩
    exact (AList.mem_insert _).mpr (.inl rfl)
  | addFilter stage added =>
    obtain ⟨-, router, ran, rfl⟩ := RoutingState.addSubscriptionToTopic_eq_ok added
    have step := Registers.topic _ _ (known _ _ _ stage) ran
    refine ⟨⟨_, .next run step⟩, ?_, publishes⟩
    rintro _ _ _ ⟨⟩
    exact step.known (known _ _ _ stage)
  | unwind => exact ⟨⟨trace, run⟩, fun _ _ _ stage => by simp at stage, publishes⟩
  | client ran room =>
    refine ⟨⟨trace, run⟩, known, fun item member => ?_⟩
    rcases List.mem_append.mp member with member | member
    · exact publishes item member
    · obtain ⟨packet, forwarded, rfl⟩ := List.mem_map.mp member
      exact ran.publishes forwarded
  | register registers =>
    obtain ⟨⟨_, registers⟩, -⟩ := registers.router
    exact ⟨⟨_, .next run registers⟩, fun _ _ _ stage => registers.known (known _ _ _ stage),
      publishes⟩
  | @receive order packet late rest router idle front perm ran =>
    have same := RoutingState.receive_router ran
    refine ⟨⟨trace, same ▸ run⟩, fun id sink remaining stage => ?_, fun item member => ?_⟩
    · exact same ▸ known id sink remaining stage
    · exact publishes item (front ▸ List.mem_cons_of_mem _ member)
  | @advance delivery router ran =>
    obtain ⟨_, -, step⟩ := RoutingState.advances_of_advance ran
    have same := step.router
    exact ⟨⟨trace, same ▸ run⟩, fun id sink remaining stage => same ▸ known id sink remaining stage,
      publishes⟩
  | poll _ polled =>
    obtain ⟨-, rfl⟩ := RoutingState.pollNext_eq_some polled
    exact ⟨⟨trace, run⟩, known, publishes⟩
  | drop => exact ⟨⟨trace, run⟩, known, publishes⟩

omit [DashMap] in
/-- The task unwinds on nothing, and waits for nothing but room. -/
theorem Sound.proceeds_iff {self : Scene ς} (sound : self.Sound) :
    self.Proceeds ↔ self.router.HasRoom := by
  constructor
  · intro proceeds routing id sink held
    have room := (RoutingState.advance_isSome_iff held).mp (proceeds.advance (by simp [held]))
    exact room routing id sink held
  · intro room
    refine ⟨fun busy => ?_, fun packet late rest order front perm => ?_⟩
    · obtain ⟨routing, held⟩ := Option.ne_none_iff_exists'.mp busy
      exact (RoutingState.advance_isSome_iff held).mpr room
    · obtain ⟨publish, rfl⟩ := sound.publishes (packet, late) (by simp [front])
      obtain ⟨_, run⟩ := sound.router
      exact RoutingState.receive_ok run.holds perm publish

variable [FxHasher]

abbrev SceneRuns (topicFilters : List String) : Scene ς → List (SceneEntry ς) → Scene ς → Prop :=
  Run (Steps topicFilters)

/-- Every publish that was received after the SUBSCRIBE was written, and whose
topic matches, was delivered or is on its way to the subscription, in order, exactly
when no step lost one. The routing task goes on exactly when the sink that it sends to
has room, and it is through with a packet after as many parts of its loop as are left. -/
theorem delivery_iff [Build] {start final : Scene ς} {trace : List (SceneEntry ς)}
    (initial : start.Initial topicFilters) (run : SceneRuns topicFilters start trace final) :
    (trace.flatMap (received topicFilters) =
        trace.flatMap (delivered topicFilters) ++ final.waiting topicFilters ↔
      EveryStep (fun _ => Keeps topicFilters) trace) ∧
    (final.Proceeds ↔ final.router.HasRoom) ∧
    ∀ later scene, SceneRuns topicFilters final later scene →
      EveryStep (fun _ entry => entry.input.isReceive = false) later →
        later.countP (·.input.isAdvance) ≤ final.router.work := by
  have sound : final.Sound := run.always (fun _ scene => scene.Sound) initial.sound
    fun kept step => kept.step step
  refine ⟨?_, sound.proceeds_iff, fun later scene run own => ?_⟩
  · refine (run.balances (fun step => balance step) ?_).iff
    obtain ⟨client, packet, -, -, rfl⟩ := initial
    rfl
  · have bound := run.countP_le (fun scene => scene.router.work) (·.input.isAdvance)
      (fun step own => step.work_le own) own
    exact (Nat.le_add_right _ _).trans bound

/-! ### The call alone -/

theorem registerAll_run (self : Scene ς) {id : SubscriptionId} {sink : ς} {remaining : List String}
    (idle : self.router.routing = none) (stage : self.stage = .registering id sink remaining)
    {router : Router ς}
    (ended : SubscriptionBuilder.registerAll self.router.router id remaining = (.ok (), router)) :
    ∃ trace, SceneRuns topicFilters self trace { self with
      router := { self.router with router }
      stage := .registering id sink [] } := by
  induction remaining generalizing self with
  | nil =>
    obtain ⟨-, rfl⟩ := Prod.mk.inj ended
    rw [← stage]
    exact ⟨[], .done⟩
  | cons topicFilter remaining ih =>
    unfold SubscriptionBuilder.registerAll tryForEach at ended
    split at ended
    next next added =>
      obtain ⟨trace, run⟩ := ih { self with
        router := { self.router with router := next }
        stage := .registering id sink remaining } idle rfl ended
      have free := RoutingState.addSubscriptionToTopic_idle idle added
      exact ⟨_, (Run.next .done (.addFilter stage free)).append run⟩
    next => simp at ended

-- This ties the steps to the function: they are its statements, one by one.
/-- Undisturbed, the steps of the call do what `build` does. -/
theorem build_run [Build] {client built : CloudmqttClient ς} {sink : ς} {id : SubscriptionId}
    (returned : SubscriptionBuilder.build client topicFilters sink = some (.ok id, built))
    {sinks : ς → Option SinkChannel} (fresh : sinks sink = none) :
    ∃ packet, subscribePacket topicFilters = .ok packet ∧ ∀ written incoming due, ∃ trace channel,
      SceneRuns topicFilters
        ⟨client.coreClient, ⟨client.router, sinks, none⟩, .packed packet, none, written, incoming,
          due⟩ trace
        ⟨built.coreClient,
          ⟨built.router, Function.update sinks sink (some (.live none)), none⟩,
          .registering id sink [], some channel, written, incoming, due⟩ := by
  unfold SubscriptionBuilder.build at returned
  split at returned
  next => simp at returned
  next packet packed =>
    refine ⟨packet, packed, fun written incoming due => ?_⟩
    split at returned
    next => simp at returned
    next => simp at returned
    next coreClient sent =>
      obtain ⟨channel, _, connected, -⟩ := CoreClient.send_ok sent
      dsimp only at returned
      split at returned
      next => simp at returned
      next router ended =>
        obtain ⟨same, rfl⟩ := Prod.mk.inj (Option.some.inj returned)
        obtain rfl := Except.ok.inj same
        let idle : Scene ς := ⟨client.coreClient, ⟨client.router, sinks, none⟩, .packed packet,
          none, written, incoming, due⟩
        have handed : Steps topicFilters idle .hand .quiet
            { idle with coreClient, stage := .handed, handedTo := some channel } :=
          .hand rfl connected sent
        obtain ⟨trace, run⟩ := registerAll_run
          ⟨coreClient, (idle.router.addSubscriptionSink sink).2,
            .registering (client.router.addSubscriptionSink sink).1 sink topicFilters, some channel,
            written, incoming, due⟩ rfl rfl ended
        exact ⟨_, channel, (Run.next (.next .done handed) (.addSink sink rfl fresh)).append run⟩

end

end Scene

/-! ### A retained message -/

namespace Scene

@[reducible] def oneShard : DashMap := ⟨fun _ => 0⟩

attribute [local instance] development x86_64 unhashed oneShard

open CoreClient (taking)

def message : ClientEvent := .task 0 (.incoming (.publish (publishTo "a")) ⟨0⟩ taking)

/-- The task starts, the server accepts, and the SUBSCRIBE is written; then it
sends the message it retained. -/
def retained : List (SceneEvent Nat) :=
  [.client (.task 0 (.start ⟨0⟩ taking)), .client (.task 0 (.incoming accepting ⟨0⟩ taking)), .hand,
    .client (.task 0 (.toSend (fun _ => ⟨0⟩) ⟨0⟩ taking)), .client message]

theorem requested_a {topicFilters : List String} (member : "a" ∈ topicFilters) :
    Requested topicFilters (.publish (publishTo "a")) :=
  ⟨publishTo "a", ⟨[levelA]⟩, rfl, rfl, "a", member, _, filter_a, by decide⟩

theorem retained_run {topicFilters : List String} {request : MSubscribe}
    (packed : subscribePacket topicFilters = .ok (.subscribe request))
    (member : "a" ∈ topicFilters) :
    ∃ (start : Scene Nat) (trace : List (SceneEntry Nat)) (coreClient : CoreClient),
      start.Initial topicFilters ∧ SceneRuns topicFilters start trace
        ⟨coreClient, .idle .new, .handed, some 0, true, [(.publish (publishTo "a"), true)], none⟩ ∧
      trace.map (·.input) = retained ∧
      trace.flatMap (received topicFilters) = [.publish (publishTo "a")] ∧
      trace.flatMap (delivered topicFilters) = [] ∧
      ∃ again, CoreClient.Steps coreClient message
        (.effects [.forwarded (.publish (publishTo "a"))]) again := by
  let start : Scene Nat :=
    ⟨.newAndConnect, .idle .new, .packed (.subscribe request), none, false, [], none⟩
  have run : SceneRuns topicFilters start _ _ :=
    .next (.next (.next (.next (.next .done
      (.client (.task 0 (.start ⟨0⟩ taking) rfl rfl) (.inr rfl)))
      (.client (.task 0 (.incoming accepting ⟨0⟩ taking) rfl rfl) (.inr rfl)))
      (.hand rfl rfl rfl))
      (.client (.task 0 (.toSend (fun _ => ⟨0⟩) ⟨0⟩ taking) rfl rfl) (.inr rfl)))
      (.client (.task 0 (.incoming (.publish (publishTo "a")) ⟨0⟩ taking) rfl rfl)
        (.inl (Nat.le_refl 1)))
  refine ⟨start, _, _, ⟨.newFromConnection, _, .newFromConnection, packed, rfl⟩, run, rfl, ?_,
    rfl, _, .task 0 (.incoming (.publish (publishTo "a")) ⟨0⟩ taking) rfl rfl⟩
  have early : wanted topicFilters [(accepting, false)] = [] := by simp [wanted]
  have late : wanted topicFilters [(.publish (publishTo "a"), true)] =
      [.publish (publishTo "a")] := by simp [wanted, requested_a member]
  change wanted topicFilters [(accepting, false)] ++
    (wanted topicFilters [(.publish (publishTo "a"), true)] ++ []) = _
  rw [early, late]
  rfl

def registeredA : List TopicEntry := [⟨⟨[.path levelA], false⟩, [⟨0⟩]⟩]

/-- Registered in time, the subscription gets the message. -/
theorem delivery_retained : ∃ (start final : Scene Nat) (trace : List (SceneEntry Nat)),
    start.Initial ["a"] ∧ SceneRuns ["a"] start trace final ∧ trace.map (·.input) = retained ++
        [.addSink 10, .addFilter, .receive registeredA, .advance, .advance, .advance, .poll 10] ∧
      (trace.flatMap (received ["a"]) =
          trace.flatMap (delivered ["a"]) ++ final.waiting ["a"] ↔
        EveryStep (fun _ => Keeps ["a"]) trace) ∧
      (final.Proceeds ↔ final.router.HasRoom) ∧
      ∀ later scene, SceneRuns ["a"] final later scene →
        EveryStep (fun _ entry => entry.input.isReceive = false) later →
          later.countP (·.input.isAdvance) ≤ final.router.work := by
  obtain ⟨request, packed⟩ : ∃ request, subscribePacket ["a"] = .ok (.subscribe request) :=
    ⟨_, rfl⟩
  obtain ⟨start, trace, coreClient, initial, run, inputs, -⟩ :=
    retained_run packed (List.mem_singleton_self "a")
  have registered : SceneRuns ["a"] start _ _ := .next (.next run (.addSink 10 rfl rfl))
    (.addFilter rfl (RoutingState.addSubscriptionToTopic_idle rfl
      (Router.addSubscriptionToTopic_eq_ok _ _ filter_a)))
  have served : SceneRuns ["a"] start _ _ := .next (.next (.next (.next (.next registered
    (.receive rfl rfl (.refl registeredA) rfl)) (.advance rfl)) (.advance rfl)) (.advance rfl))
    (.poll (fun _ _ stage => by cases stage; rfl) rfl)
  exact ⟨start, _, _, initial, served, by simp [inputs], delivery_iff initial served⟩

/-- The router looks at the message before the sink is added, and it is lost. -/
theorem delivery_early : ∃ (start final : Scene Nat) (trace : List (SceneEntry Nat)),
    start.Initial ["a"] ∧ SceneRuns ["a"] start trace final ∧
      trace.map (·.input) = retained ++ [.receive [], .addSink 10, .addFilter] ∧
      trace.flatMap (received ["a"]) = [.publish (publishTo "a")] ∧
      trace.flatMap (delivered ["a"]) = [] ∧ final.waiting ["a"] = [] := by
  obtain ⟨request, packed⟩ : ∃ request, subscribePacket ["a"] = .ok (.subscribe request) :=
    ⟨_, rfl⟩
  obtain ⟨start, trace, coreClient, initial, run, inputs, got, none, -⟩ :=
    retained_run packed (List.mem_singleton_self "a")
  have routed : SceneRuns ["a"] start _ _ := .next (.next (.next run
    (.receive rfl rfl (.refl []) rfl)) (.addSink 10 rfl rfl))
    (.addFilter rfl (RoutingState.addSubscriptionToTopic_idle rfl
      (Router.addSubscriptionToTopic_eq_ok _ _ filter_a)))
  refine ⟨start, _, _, initial, routed, by simp [inputs], ?_, ?_, ?_⟩
  · simp [got, received]
  · simp [none, delivered]
  · rfl

end Scene

end Client
