import Cloudmqtt.Client.Router
import Mathlib.Logic.Function.Basic

/-! The routing task: it waits for room in the channel of a subscription, and it guards a
part of the filter map until all of its sends are made.
-/

set_option autoImplicit false

namespace Client

open Base Rust V5

/-- `determine_map` of the filter map: the shard that a key is in. -/
class DashMap where
  determineMap : TopicFilterBuf → Nat

/-- The channel of a subscription: there is room for one packet in it. -/
inductive SinkChannel where
  | live (slot : Option MqttPacket)
  | dropped

/-- The loop over the identifiers of the filter that was found. Of the one whose turn it
is the sender has been cloned; the others stand behind it. -/
structure Routing (ς : Type) where
  packet : MqttPacket
  filter : TopicFilterBuf
  sending : Option (SubscriptionId × ς)
  subscriptionIds : List SubscriptionId

def Routing.pending {ς : Type} (self : Routing ς) : List SubscriptionId :=
  (self.sending.map Prod.fst).toList ++ self.subscriptionIds

/-- The router, the channels of its sinks, and its task: where that has no packet in hand
it waits for one. -/
structure RoutingState (ς : Type) where
  router : Router ς
  sinks : ς → Option SinkChannel
  routing : Option (Routing ς)

def Router.findEntry (order : List TopicEntry) (packet : MqttPacket) :
    Except Panic (Option TopicEntry) :=
  match packet with
  | .publish publish =>
    match TopicNameBuf.new publish.topicName with
    | .error _ => .ok none
    | .ok topicName => order.findM? fun r => topicName.matchesFilter r.1
  | _ => .error (.explicit "Received non-publish packet in router")

/-- The parts of the loop that are left: an identifier takes two at most. -/
def Routing.work {ς : Type} (self : Routing ς) : Nat :=
  self.sending.toList.length + 2 * self.subscriptionIds.length + 1

namespace RoutingState

variable {ς : Type}

def work (self : RoutingState ς) : Nat := (self.routing.map Routing.work).getD 0

def idle (router : Router ς) : RoutingState ς := ⟨router, fun _ => none, none⟩

/-- `entry` would wait: the shard of the filter is guarded. -/
def Guards [DashMap] (self : RoutingState ς) (topicFilter : String) : Bool :=
  match self.routing, TopicFilterBuf.new topicFilter with
  | some routing, .ok filter =>
    DashMap.determineMap routing.filter == DashMap.determineMap filter
  | _, _ => false

/-- Nothing where the call waits. -/
def addSubscriptionToTopic [DashMap] (self : RoutingState ς) (id : SubscriptionId)
    (topicFilter : String) : Option (Except Panic (RoutingState ς)) :=
  if self.Guards topicFilter then none
  else some ((self.router.addSubscriptionToTopic id topicFilter).map fun router =>
    { self with router })

def receive (self : RoutingState ς) (order : List TopicEntry) (packet : MqttPacket) :
    Except Panic (RoutingState ς) :=
  (Router.findEntry order packet).map fun
    | none => self
    | some r => { self with routing := some ⟨packet, r.1, none, r.2⟩ }

/-- The identifier that the next part of the loop is done with. -/
def turn? (self : RoutingState ς) : Option SubscriptionId :=
  match self.routing with
  | none => none
  | some routing =>
    match routing.sending, routing.subscriptionIds with
    | some (id, _), _ => some id
    | none, id :: _ => if (self.router.subscriptions.lookup id).isNone then some id else none
    | none, [] => none

/-- The sink whose turn it is has room for the packet, or takes none any more. -/
def HasRoom (self : RoutingState ς) : Prop :=
  ∀ routing id sink, self.routing = some routing → routing.sending = some (id, sink) →
    ∀ packet, self.sinks sink ≠ some (.live (some packet))

theorem addSubscriptionToTopic_eq_ok [DashMap] {before after : RoutingState ς}
    {id : SubscriptionId} {topicFilter : String}
    (added : before.addSubscriptionToTopic id topicFilter = some (.ok after)) :
    before.Guards topicFilter = false ∧ ∃ router,
      before.router.addSubscriptionToTopic id topicFilter = .ok router ∧
        after = { before with router } := by
  unfold addSubscriptionToTopic at added
  split at added
  next => cases added
  next free =>
    obtain ⟨router, ran, same⟩ := except_map_eq_ok.mp (Option.some.inj added)
    exact ⟨Bool.eq_false_iff.mpr free, router, ran, same.symm⟩

theorem addSubscriptionToTopic_idle [DashMap] {self : RoutingState ς} {id : SubscriptionId}
    {topicFilter : String} {router : Router ς} (idle : self.routing = none)
    (added : self.router.addSubscriptionToTopic id topicFilter = .ok router) :
    self.addSubscriptionToTopic id topicFilter = some (.ok { self with router }) := by
  rw [addSubscriptionToTopic, Guards, idle, added]
  rfl

theorem receive_router {before after : RoutingState ς} {order : List TopicEntry}
    {packet : MqttPacket} (received : before.receive order packet = .ok after) :
    after.router = before.router := by
  obtain ⟨found, -, rfl⟩ := except_map_eq_ok.mp received
  cases found <;> rfl

theorem receive_eq_ok {before after : RoutingState ς} {order : List TopicEntry}
    {publish : MPublish} {topicName : TopicNameBuf}
    (named : TopicNameBuf.new publish.topicName = .ok topicName)
    (received : before.receive order (.publish publish) = .ok after) :
    (order.find? topicName.matchesEntry = none ∧ after = before) ∨
      ∃ r, order.find? topicName.matchesEntry = some r ∧
        after = { before with routing := some ⟨.publish publish, r.1, none, r.2⟩ } := by
  obtain ⟨found, searched, made⟩ := except_map_eq_ok.mp received
  simp only [Router.findEntry, named] at searched
  have same (r : TopicEntry) :
      topicName.matchesEntry r = true ↔ topicName.matchesFilter r.1 = .ok true :=
    decide_eq_true_iff
  rw [find?_of_findM? same searched]
  cases found with
  | none => exact .inl ⟨rfl, made.symm⟩
  | some r => exact .inr ⟨r, rfl, made.symm⟩

theorem receive_ok {before : RoutingState ς} {trace : RouterTrace ς}
    (holds : before.router.Holds trace) {order : List TopicEntry}
    (perm : order.Perm before.router.subscriptionTopics.entries)
    (publish : MPublish) : ∃ after, before.receive order (.publish publish) = .ok after := by
  unfold receive Router.findEntry
  dsimp only
  cases TopicNameBuf.new publish.topicName with
  | error e => exact ⟨before, rfl⟩
  | ok topicName =>
    dsimp only
    rw [holds.findM?_eq perm]
    exact ⟨_, rfl⟩

variable [DecidableEq ς]

def addSubscriptionSink (self : RoutingState ς) (sink : ς) : SubscriptionId × RoutingState ς :=
  let (id, router) := self.router.addSubscriptionSink sink
  (id, { self with router, sinks := Function.update self.sinks sink (some (.live none)) })

-- The sender is cloned before the packet is sent, so a send that waits does not look at
-- the map of sinks again. The guard is dropped behind the last send.
/-- The next part of the loop; nothing where the task waits. -/
def advance (self : RoutingState ς) : Option (Option (Delivery ς) × RoutingState ς) :=
  match self.routing with
  | none => none
  | some routing =>
    match routing.sending, routing.subscriptionIds with
    | none, [] => some (none, { self with routing := none })
    | none, id :: subscriptionIds =>
      let sending := (self.router.subscriptions.lookup id).map fun sink => (id, sink)
      some (none, { self with routing := some { routing with sending, subscriptionIds } })
    | some (id, sink), _ =>
      let sent := { self with routing := some { routing with sending := none } }
      match self.sinks sink with
      | some (.live (some _)) => none
      | some (.live none) =>
        some (some ⟨id, sink, routing.packet⟩, { sent with
          sinks := Function.update self.sinks sink (some (.live (some routing.packet))) })
      -- the error is logged
      | some .dropped | none => some (none, sent)

def pollNext (self : RoutingState ς) (sink : ς) : Option (MqttPacket × RoutingState ς) :=
  match self.sinks sink with
  | some (.live (some packet)) =>
    some (packet, { self with sinks := Function.update self.sinks sink (some (.live none)) })
  | _ => none

def drop (self : RoutingState ς) (sink : ς) : RoutingState ς :=
  { self with sinks := Function.update self.sinks sink (some .dropped) }

/-! ### What the steps do -/

inductive Advances (before : RoutingState ς) (routing : Routing ς) :
    Option (Delivery ς) → RoutingState ς → Prop where
  | finish : routing.sending = none → routing.subscriptionIds = [] →
      Advances before routing none { before with routing := none }
  | skip {id : SubscriptionId} {ids : List SubscriptionId} : routing.sending = none →
      routing.subscriptionIds = id :: ids → before.router.subscriptions.lookup id = none →
      Advances before routing none
        { before with routing := some ⟨routing.packet, routing.filter, none, ids⟩ }
  | clone {id : SubscriptionId} {ids : List SubscriptionId} {sink : ς} : routing.sending = none →
      routing.subscriptionIds = id :: ids →
      before.router.subscriptions.lookup id = some sink →
      Advances before routing none
        { before with routing := some ⟨routing.packet, routing.filter, some (id, sink), ids⟩ }
  | send {id : SubscriptionId} {sink : ς} : routing.sending = some (id, sink) →
      before.sinks sink = some (.live none) →
      Advances before routing (some ⟨id, sink, routing.packet⟩) { before with
        sinks := Function.update before.sinks sink (some (.live (some routing.packet)))
        routing := some { routing with sending := none } }
  | refuse {id : SubscriptionId} {sink : ς} : routing.sending = some (id, sink) →
      (∀ slot, before.sinks sink ≠ some (.live slot)) →
      Advances before routing none
        { before with routing := some { routing with sending := none } }

variable {self before after : RoutingState ς} {routing : Routing ς}
  {delivery : Option (Delivery ς)}

theorem advances_of_advance (ran : before.advance = some (delivery, after)) :
    ∃ routing, before.routing = some routing ∧ Advances before routing delivery after := by
  unfold advance at ran
  split at ran
  next => cases ran
  next routing held =>
    refine ⟨routing, held, ?_⟩
    split at ran
    next sending behind =>
      cases ran
      exact .finish sending behind
    next id ids sending behind =>
      cases found : before.router.subscriptions.lookup id with
      | none =>
        rw [found] at ran
        cases ran
        exact .skip sending behind found
      | some sink =>
        rw [found] at ran
        cases ran
        exact .clone sending behind found
    next id sink _ sending =>
      dsimp only at ran
      split at ran
      next => cases ran
      next room =>
        cases ran
        exact .send sending room
      next closed =>
        cases ran
        exact .refuse sending (by simp [closed])
      next closed =>
        cases ran
        exact .refuse sending (by simp [closed])

theorem Advances.router (step : Advances before routing delivery after) :
    after.router = before.router := by
  cases step <;> rfl

theorem Advances.work_lt (held : before.routing = some routing)
    (step : Advances before routing delivery after) : after.work < before.work := by
  cases step with
  | finish sending behind => simp [work, held, Routing.work]
  | skip sending behind => simp [work, held, Routing.work, sending, behind]
  | clone sending behind =>
    simp [work, held, Routing.work, sending, behind]
    omega
  | send sending => simp [work, held, Routing.work, sending]
  | refuse sending => simp [work, held, Routing.work, sending]

/-- What a part of the loop is done with is no longer to be served, and has been sent where
its sink takes it. -/
theorem turn_of_advances (held : before.routing = some routing)
    (step : Advances before routing delivery after) :
    (before.turn? = none ∧ delivery = none ∧ (after.routing = none ∧ routing.pending = [] ∨
      ∃ next, after.routing = some next ∧ next.packet = routing.packet ∧
        next.pending = routing.pending)) ∨
    ∃ id next, before.turn? = some id ∧ after.routing = some next ∧
      next.packet = routing.packet ∧ routing.pending = id :: next.pending ∧
      ((∃ sink, routing.sending = some (id, sink) ∧ before.sinks sink = some (.live none) ∧
          delivery = some ⟨id, sink, routing.packet⟩) ∨
        delivery = none ∧ ∀ sink slot, routing.sending = some (id, sink) →
          before.sinks sink ≠ some (.live slot)) := by
  cases step with
  | finish sending behind =>
    have turn : before.turn? = none := by simp [turn?, held, sending, behind]
    exact .inl ⟨turn, rfl, .inl ⟨rfl, by simp [Routing.pending, sending, behind]⟩⟩
  | @skip id ids sending behind missing =>
    have turn : before.turn? = some id := by simp [turn?, held, sending, behind, missing]
    refine .inr ⟨id, _, turn, rfl, rfl, ?_, .inr ⟨rfl, fun sink slot same => ?_⟩⟩
    · simp [Routing.pending, sending, behind]
    · cases sending.symm.trans same
  | @clone id ids sink sending behind found =>
    have turn : before.turn? = none := by simp [turn?, held, sending, behind, found]
    refine .inl ⟨turn, rfl, .inr ⟨_, rfl, rfl, ?_⟩⟩
    simp [Routing.pending, sending, behind]
  | @send id sink sending room =>
    have turn : before.turn? = some id := by simp [turn?, held, sending]
    refine .inr ⟨id, _, turn, rfl, rfl, ?_, .inl ⟨sink, sending, room, rfl⟩⟩
    simp [Routing.pending, sending]
  | @refuse id sink sending closed =>
    have turn : before.turn? = some id := by simp [turn?, held, sending]
    refine .inr ⟨id, _, turn, rfl, rfl, ?_, .inr ⟨rfl, fun other slot same => ?_⟩⟩
    · simp [Routing.pending, sending]
    · obtain ⟨-, rfl⟩ := Prod.mk.inj (Option.some.inj (sending.symm.trans same))
      exact closed slot

/-- The task waits for nothing but room. -/
theorem advance_isSome_iff (held : self.routing = some routing) :
    self.advance.isSome = true ↔ self.HasRoom := by
  have room : self.HasRoom ↔ ∀ id sink, routing.sending = some (id, sink) →
      ∀ packet, self.sinks sink ≠ some (.live (some packet)) := by
    constructor
    · intro room id sink sending
      exact room routing id sink held sending
    · rintro room other id sink held' sending
      obtain rfl := Option.some.inj (held.symm.trans held')
      exact room id sink sending
  rw [room]
  unfold advance
  rw [held]
  dsimp only
  split
  next sending _ => simp [sending]
  next sending _ => simp [sending]
  next id sink _ sending =>
    rw [sending]
    split
    next full => simp [full]
    next room => simp [room]
    next closed => simp [closed]
    next closed => simp [closed]

theorem pollNext_eq_some {sink : ς} {packet : MqttPacket}
    (polled : before.pollNext sink = some (packet, after)) :
    before.sinks sink = some (.live (some packet)) ∧
      after = { before with sinks := Function.update before.sinks sink (some (.live none)) } := by
  unfold pollNext at polled
  split at polled
  next full =>
    cases polled
    exact ⟨full, rfl⟩
  next => cases polled

inductive Registers [DashMap] (before : RoutingState ς) :
    Registration ς → RoutingState ς → Prop where
  | sink (sink : ς) : before.sinks sink = none →
      Registers before (.sink sink) (before.addSubscriptionSink sink).2
  | topic (id : SubscriptionId) (topicFilter : String) {after : RoutingState ς} :
      id ∈ before.router.subscriptions →
      before.addSubscriptionToTopic id topicFilter = some (.ok after) →
      Registers before (.topic id topicFilter) after

theorem Registers.router [DashMap] {input : Registration ς}
    (registers : Registers before input after) :
    (∃ output, Client.Registers before.router input output after.router) ∧
      after.routing = before.routing := by
  cases registers with
  | sink sink fresh => exact ⟨⟨_, .sink sink⟩, rfl⟩
  | topic id topicFilter known added =>
    obtain ⟨-, router, ran, rfl⟩ := addSubscriptionToTopic_eq_ok added
    exact ⟨⟨_, .topic id topicFilter known ran⟩, rfl⟩

/-! ### The sends of one packet -/

/-- The loop from here to its end, with no other step in between. -/
inductive Completes : RoutingState ς → List (Delivery ς) → RoutingState ς → Prop where
  | done {self : RoutingState ς} : self.routing = none → Completes self [] self
  | next {before middle after : RoutingState ς} {delivery : Option (Delivery ς)}
      {deliveries : List (Delivery ς)} : before.advance = some (delivery, middle) →
      Completes middle deliveries after → Completes before (delivery.toList ++ deliveries) after

omit [DecidableEq ς] in
theorem sendAll_cons (router : Router ς) (packet : MqttPacket) (id : SubscriptionId)
    (ids : List SubscriptionId) : router.sendAll packet (id :: ids) =
      ((router.subscriptions.lookup id).map fun sink => ⟨id, sink, packet⟩).toList ++
        router.sendAll packet ids := by
  unfold Router.sendAll
  rw [List.filterMap_cons]
  cases router.subscriptions.lookup id <;> rfl

theorem completes_of_room {packet : MqttPacket} {filter : TopicFilterBuf}
    {ids : List SubscriptionId} (self : RoutingState ς)
    (held : self.routing = some ⟨packet, filter, none, ids⟩)
    (room : ∀ delivery ∈ self.router.sendAll packet ids,
      self.sinks delivery.sink = some (.live none))
    (distinct : ((self.router.sendAll packet ids).map (·.sink)).Nodup) :
    ∃ after, Completes self (self.router.sendAll packet ids) after := by
  induction ids generalizing self with
  | nil =>
    have ran : self.advance = some (none, { self with routing := none }) := by
      rw [advance, held]
    exact ⟨_, .next ran (.done rfl)⟩
  | cons id ids ih =>
    have ran : self.advance = some (none, { self with
        routing := some ⟨packet, filter, (self.router.subscriptions.lookup id).map
          fun sink => (id, sink), ids⟩ }) := by
      rw [advance, held]
    have cut := sendAll_cons self.router packet id ids
    cases found : self.router.subscriptions.lookup id with
    | none =>
      rw [found, Option.map_none] at ran cut
      rw [Option.toList_none, List.nil_append] at cut
      rw [cut] at room distinct ⊢
      obtain ⟨after, rest⟩ :=
        ih { self with routing := some ⟨packet, filter, none, ids⟩ } rfl room distinct
      exact ⟨after, .next ran rest⟩
    | some sink =>
      rw [found, Option.map_some] at ran cut
      rw [Option.toList_some, List.singleton_append] at cut
      rw [cut] at room distinct ⊢
      obtain ⟨here, behind⟩ := List.forall_mem_cons.mp room
      rw [List.map_cons] at distinct
      obtain ⟨apart, distinct⟩ := List.nodup_cons.mp distinct
      let sent : RoutingState ς := { self with
        sinks := Function.update self.sinks sink (some (.live (some packet)))
        routing := some ⟨packet, filter, none, ids⟩ }
      have pushed :
          advance { self with routing := some ⟨packet, filter, some (id, sink), ids⟩ } =
            some (some ⟨id, sink, packet⟩, sent) := by
        simp only [sent, advance, here]
      have free : ∀ delivery ∈ self.router.sendAll packet ids,
          sent.sinks delivery.sink = some (.live none) := by
        intro delivery member
        have other : delivery.sink ≠ sink := by
          rintro rfl
          exact apart (List.mem_map.mpr ⟨delivery, member, rfl⟩)
        rw [← behind delivery member]
        exact Function.update_of_ne other _ _
      obtain ⟨after, rest⟩ := ih sent rfl free distinct
      exact ⟨after, .next ran (.next pushed rest)⟩

omit [DecidableEq ς] in
theorem route_eq_findEntry (router : Router ς) (order : List TopicEntry) (packet : MqttPacket) :
    router.route order packet = (Router.findEntry order packet).map fun
      | none => []
      | some r => router.sendAll packet r.2 := by
  cases packet with
  | publish publish =>
    cases named : TopicNameBuf.new publish.topicName with
    | error e => simp only [Router.route, Router.findEntry, named, Except.map]
    | ok topicName =>
      simp only [Router.route, Router.findEntry, named]
      cases order.findM? fun r => topicName.matchesFilter r.1 with
      | error p => rfl
      | ok found => cases found <;> rfl
  | _ => rfl

/-- Undisturbed, and with room in each sink, the task sends what `route` lists. -/
theorem completes_of_route {order : List TopicEntry} {packet : MqttPacket}
    {deliveries : List (Delivery ς)} (idle : self.routing = none)
    (routed : self.router.route order packet = .ok deliveries)
    (room : ∀ delivery ∈ deliveries, self.sinks delivery.sink = some (.live none))
    (distinct : (deliveries.map (·.sink)).Nodup) :
    ∃ received after, self.receive order packet = .ok received ∧
      Completes received deliveries after := by
  rw [route_eq_findEntry] at routed
  obtain ⟨entry, found, rfl⟩ := except_map_eq_ok.mp routed
  cases entry with
  | none => exact ⟨self, self, by rw [receive, found]; rfl, .done idle⟩
  | some r =>
    obtain ⟨after, completes⟩ := completes_of_room
      { self with routing := some ⟨packet, r.1, none, r.2⟩ } rfl room distinct
    exact ⟨_, after, by rw [receive, found]; rfl, completes⟩

end RoutingState

end Client
