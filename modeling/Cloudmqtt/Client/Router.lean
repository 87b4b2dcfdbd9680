import Cloudmqtt.Base.FirstMatch
import Cloudmqtt.Base.Run
import Cloudmqtt.Client.Appending
import Cloudmqtt.V5.Packet
import Mathlib.Data.List.AList

/-! The router: which subscriptions get a copy of an incoming publish. -/

set_option autoImplicit false

namespace Client

open Base Rust V5

structure SubscriptionId where
  value : UInt64
  deriving DecidableEq

/-- The filter map is a hash map: it has no order of its own. -/
structure Router (ς : Type) where
  nextSubscriptionId : UInt64
  subscriptions : AList fun _ : SubscriptionId => ς
  subscriptionTopics : AList fun _ : TopicFilterBuf => List SubscriptionId

structure Delivery (ς : Type) where
  subscriptionId : SubscriptionId
  sink : ς
  packet : MqttPacket

abbrev TopicEntry : Type := Sigma fun _ : TopicFilterBuf => List SubscriptionId

variable {ς : Type}

namespace Router

def new : Router ς := ⟨0, ∅, ∅⟩

def addSubscriptionSink (self : Router ς) (sink : ς) : SubscriptionId × Router ς :=
  (⟨self.nextSubscriptionId⟩, { self with
    nextSubscriptionId := self.nextSubscriptionId + 1
    subscriptions := self.subscriptions.insert ⟨self.nextSubscriptionId⟩ sink })

def addSubscriptionToTopic (self : Router ς) (subscriptionId : SubscriptionId)
    (topicFilter : String) : Except Panic (Router ς) :=
  match TopicFilterBuf.new topicFilter with
  | .error _ => .error .unwrapError
  | .ok filter => .ok { self with
      subscriptionTopics := self.subscriptionTopics.insert filter
        ((self.subscriptionTopics.lookup filter).getD [] ++ [subscriptionId]) }

def sendAll (self : Router ς) (packet : MqttPacket) (subscriptionIds : List SubscriptionId) :
    List (Delivery ς) :=
  subscriptionIds.filterMap fun id =>
    (self.subscriptions.lookup id).map fun sink => ⟨id, sink, packet⟩

-- `find` stops at the first filter that matches, so the sinks of another filter that
-- matches too get nothing.
/-- What the task does with one packet, when the filter map is iterated in this order. -/
def route (self : Router ς) (order : List TopicEntry) (packet : MqttPacket) :
    Except Panic (List (Delivery ς)) :=
  match packet with
  | .publish publish =>
    match TopicNameBuf.new publish.topicName with
    | .error _ => .ok []
    | .ok topicName => do
      let subscriptionIds ← order.findM? fun r => topicName.matchesFilter r.1
      match subscriptionIds with
      | none => .ok []
      | some r => .ok (self.sendAll packet r.2)
  | _ => .error (.explicit "Received non-publish packet in router")

end Router

/-! ### Registrations -/

/-- Registering a filter unwinds before the map is touched where the filter is
not a valid one; such a call is no step. -/
inductive Registration (ς : Type) where
  | sink (sink : ς)
  | topic (subscriptionId : SubscriptionId) (topicFilter : String)

inductive Registers (before : Router ς) :
    Registration ς → Option SubscriptionId → Router ς → Prop where
  | sink (sink : ς) : Registers before (.sink sink) (some (before.addSubscriptionSink sink).1)
      (before.addSubscriptionSink sink).2
  | topic (id : SubscriptionId) (topicFilter : String) {after : Router ς} :
      id ∈ before.subscriptions → before.addSubscriptionToTopic id topicFilter = .ok after →
      Registers before (.topic id topicFilter) none after

abbrev RouterTrace (ς : Type) : Type :=
  List (Entry (Router ς) (Registration ς) (Option SubscriptionId))

abbrev RouterRuns : RouterTrace ς → Router ς → Prop := Run Registers .new

def Registered (trace : RouterTrace ς) (id : SubscriptionId) (filter : TopicFilterBuf) : Prop :=
  ∃ entry ∈ trace, ∃ topicFilter, entry.input = .topic id topicFilter ∧
    TopicFilterBuf.new topicFilter = .ok filter

structure Router.Holds (trace : RouterTrace ς) (router : Router ς) : Prop where
  nonempty : ∀ filter ∈ router.subscriptionTopics, filter.levels ≠ []
  sinks : ∀ filter ids, router.subscriptionTopics.lookup filter = some ids →
    ∀ id ∈ ids, id ∈ router.subscriptions
  registered : ∀ id filter, (∃ ids, router.subscriptionTopics.lookup filter = some ids ∧ id ∈ ids) ↔
    Registered trace id filter

theorem registered_snoc {trace : RouterTrace ς}
    {entry : Entry (Router ς) (Registration ς) (Option SubscriptionId)} {id : SubscriptionId}
    {filter : TopicFilterBuf} : Registered (trace ++ [entry]) id filter ↔
      Registered trace id filter ∨ ∃ topicFilter, entry.input = .topic id topicFilter ∧
        TopicFilterBuf.new topicFilter = .ok filter := by
  simp only [Registered, List.mem_append, List.mem_singleton, or_and_right, exists_or,
    exists_eq_left]

theorem Router.Holds.new : Router.Holds [] (Router.new : Router ς) where
  nonempty filter member := absurd member (AList.notMem_empty filter)
  sinks filter ids found := by simp [Router.new] at found
  registered id filter := by simp [Registered, Router.new]

-- The filter map is read through `lookup`: an insert changes one filter and leaves the
-- others, and sinks are only added.
theorem Router.Holds.next {trace : RouterTrace ς} {before after : Router ς}
    {input : Registration ς} {output : Option SubscriptionId} (holds : before.Holds trace)
    (step : Registers before input output after) :
    after.Holds (trace ++ [⟨before, input, output⟩]) := by
  cases step with
  | sink =>
    refine ⟨holds.nonempty, fun filter ids found id member => ?_, fun id filter => ?_⟩
    · exact AList.mem_insert _ |>.mpr (.inr (holds.sinks filter ids found id member))
    · simp [registered_snoc, ← holds.registered, Router.addSubscriptionSink]
  | topic id topicFilter known added =>
    unfold Router.addSubscriptionToTopic at added
    split at added
    next => simp at added
    next filter made =>
      obtain rfl := Except.ok.inj added
      refine ⟨fun other member => ?_, fun other ids found id' member => ?_, fun id' other => ?_⟩
      · rcases (AList.mem_insert _).mp member with rfl | member
        · exact TopicFilterBuf.new_nonempty made
        · exact holds.nonempty other member
      · by_cases same : other = filter
        · subst same
          rw [AList.lookup_insert] at found
          obtain rfl := Option.some.inj found
          rcases List.mem_append.mp member with member | member
          · cases earlier : before.subscriptionTopics.lookup other with
            | none => simp [earlier] at member
            | some ids => exact holds.sinks other ids earlier id' (by simpa [earlier] using member)
          · rw [List.mem_singleton.mp member]
            exact known
        · rw [AList.lookup_insert_ne same] at found
          exact holds.sinks other ids found id' member
      · rw [registered_snoc, ← holds.registered]
        by_cases same : other = filter
        · subst same
          cases earlier : before.subscriptionTopics.lookup other <;> simp [made, eq_comm]
        · simp only [AList.lookup_insert_ne same]
          refine (or_iff_left ?_).symm
          rintro ⟨_, input, made'⟩
          cases input
          exact same (Except.ok.inj (made'.symm.trans made))

theorem Registers.known {before after : Router ς} {input : Registration ς}
    {output : Option SubscriptionId} (step : Registers before input output after)
    {id : SubscriptionId} (known : id ∈ before.subscriptions) : id ∈ after.subscriptions := by
  cases step with
  | sink => exact (AList.mem_insert _).mpr (.inr known)
  | topic other topicFilter _ added =>
    unfold Router.addSubscriptionToTopic at added
    split at added
    next => simp at added
    next =>
      obtain rfl := Except.ok.inj added
      exact known

theorem RouterRuns.holds {trace : RouterTrace ς} {router : Router ς}
    (run : RouterRuns trace router) : router.Holds trace :=
  run.always Router.Holds .new fun holds step => holds.next step

/-! ### Routing -/

def TopicNameBuf.matchesEntry (self : TopicNameBuf) (entry : TopicEntry) : Bool :=
  decide (self.matchesFilter entry.1 = .ok true)

def Subscribed (trace : RouterTrace ς) (topicName : TopicNameBuf) (id : SubscriptionId) : Prop :=
  ∃ filter, Registered trace id filter ∧ topicName.matchesFilter filter = .ok true

/-- One copy of the packet for each of these subscriptions, and none for any other. -/
def Router.DeliversOnce (router : Router ς) (subscribed : SubscriptionId → Prop)
    (packet : MqttPacket) (deliveries : List (Delivery ς)) : Prop :=
  ∀ id, (subscribed id → ∃ sink, router.subscriptions.lookup id = some sink ∧
      deliveries.filter (·.subscriptionId = id) = [⟨id, sink, packet⟩]) ∧
    (¬ subscribed id → deliveries.filter (·.subscriptionId = id) = [])

theorem Router.filter_sendAll (router : Router ς) (packet : MqttPacket) (ids : List SubscriptionId)
    (id : SubscriptionId) : (router.sendAll packet ids).filter (·.subscriptionId = id) =
      ((router.subscriptions.lookup id).map fun sink =>
        List.replicate (ids.count id) ⟨id, sink, packet⟩).getD [] := by
  induction ids with
  | nil => cases router.subscriptions.lookup id <;> rfl
  | cons first ids ih =>
    unfold sendAll at ih ⊢
    by_cases same : first = id
    · subst same
      cases found : router.subscriptions.lookup first with
      | none => simpa [found] using ih
      | some sink => simpa [found, List.replicate_succ] using ih
    · cases found : router.subscriptions.lookup first with
      | none => simpa [found, same] using ih
      | some sink => simpa [found, same] using ih

theorem Router.deliversOnce_sendAll_iff {router : Router ς} {subscribed : SubscriptionId → Prop}
    {packet : MqttPacket} {ids : List SubscriptionId}
    (known : ∀ id, subscribed id ∨ id ∈ ids → id ∈ router.subscriptions) :
    router.DeliversOnce subscribed packet (router.sendAll packet ids) ↔
      ∀ id, (subscribed id → ids.count id = 1) ∧ (¬ subscribed id → ids.count id = 0) := by
  refine forall_congr' fun id => and_congr (forall_congr' fun wanted => ?_)
    (forall_congr' fun unwanted => ?_)
  · obtain ⟨sink, found⟩ := Option.isSome_iff_exists.mp
      (AList.lookup_isSome.mpr (known id (.inl wanted)))
    simp only [filter_sendAll, found, Option.map_some, Option.getD_some, Option.some.injEq,
      exists_eq_left']
    constructor
    · intro single
      simpa using congrArg List.length single
    · intro once
      rw [once, List.replicate_one]
  · by_cases member : id ∈ ids
    · obtain ⟨sink, found⟩ := Option.isSome_iff_exists.mp
        (AList.lookup_isSome.mpr (known id (.inr member)))
      simp [filter_sendAll, found]
    · cases found : router.subscriptions.lookup id <;>
        simp [filter_sendAll, found, List.count_eq_zero.mpr member]

theorem Router.route_eq_ok {router : Router ς} {order : List TopicEntry} {publish : MPublish}
    {topicName : TopicNameBuf} (named : TopicNameBuf.new publish.topicName = .ok topicName)
    {deliveries : List (Delivery ς)}
    (routed : router.route order (.publish publish) = .ok deliveries) :
    deliveries =
      router.sendAll (.publish publish) (firstMatch topicName.matchesEntry (·.2) order) := by
  simp only [route, named] at routed
  obtain ⟨found, searched, sent⟩ := except_bind_eq_ok.mp routed
  have same (r : TopicEntry) :
      topicName.matchesEntry r = true ↔ topicName.matchesFilter r.1 = .ok true :=
    decide_eq_true_iff
  have first := find?_of_findM? same searched
  unfold firstMatch
  rw [first]
  cases found <;> exact (Except.ok.inj sent).symm

section

variable {trace : RouterTrace ς} {router : Router ς} {order : List TopicEntry}

theorem Router.Holds.findM?_eq (holds : router.Holds trace)
    (perm : order.Perm router.subscriptionTopics.entries) (topicName : TopicNameBuf) :
    order.findM? (fun r => topicName.matchesFilter r.1) =
      .ok (order.find? topicName.matchesEntry) := by
  refine findM?_eq_ok fun r member => ?_
  have key : r.1 ∈ router.subscriptionTopics :=
    List.mem_map_of_mem (perm.mem_iff.mp member)
  obtain ⟨found, matched⟩ := topicName.matchesFilter_ok (holds.nonempty r.1 key)
  cases found <;> simp [TopicNameBuf.matchesEntry, matched]

theorem Router.Holds.route_ok (holds : router.Holds trace)
    (perm : order.Perm router.subscriptionTopics.entries) (publish : MPublish) :
    ∃ deliveries, router.route order (.publish publish) = .ok deliveries := by
  cases named : TopicNameBuf.new publish.topicName with
  | error e => exact ⟨[], by simp only [Router.route, named]⟩
  | ok topicName =>
    simp only [Router.route, named, holds.findM?_eq perm]
    cases order.find? topicName.matchesEntry with
    | none => exact ⟨_, rfl⟩
    | some r => exact ⟨_, rfl⟩

/-- The wanted subscriptions, read off the filter map. -/
theorem Router.Holds.subscribed_iff (holds : router.Holds trace)
    (perm : order.Perm router.subscriptionTopics.entries) (topicName : TopicNameBuf)
    (id : SubscriptionId) :
    Subscribed trace topicName id ↔ Wanted topicName.matchesEntry (·.2) order id := by
  simp only [Subscribed, Wanted, ← holds.registered, TopicNameBuf.matchesEntry, decide_eq_true_iff]
  constructor
  · rintro ⟨filter, ⟨ids, found, member⟩, matched⟩
    exact ⟨⟨filter, ids⟩, perm.mem_iff.mpr (AList.mem_lookup_iff.mp found), matched, member⟩
  · rintro ⟨⟨filter, ids⟩, entry, matched, member⟩
    exact ⟨filter, ⟨ids, AList.mem_lookup_iff.mpr (perm.mem_iff.mp entry), member⟩, matched⟩

/-- A publish is delivered once to every subscription with a matching filter,
and to no other, exactly when the matching filter found first lists every such
subscription once. -/
theorem route_deliversOnce_iff (run : RouterRuns trace router)
    (perm : order.Perm router.subscriptionTopics.entries) {publish : MPublish}
    {topicName : TopicNameBuf} (named : TopicNameBuf.new publish.topicName = .ok topicName) :
    ∃ deliveries, router.route order (.publish publish) = .ok deliveries ∧
      (router.DeliversOnce (Subscribed trace topicName) (.publish publish) deliveries ↔
        FirstCovers topicName.matchesEntry (·.2) order) := by
  have holds := run.holds
  refine ⟨router.sendAll (.publish publish) (firstMatch topicName.matchesEntry (·.2) order), ?_, ?_⟩
  · simp only [Router.route, named, holds.findM?_eq perm, firstMatch]
    cases order.find? topicName.matchesEntry <;> rfl
  · have known (id : SubscriptionId)
        (member : Subscribed trace topicName id ∨
          id ∈ firstMatch topicName.matchesEntry (·.2) order) :
        id ∈ router.subscriptions := by
      have wanted : Wanted topicName.matchesEntry (·.2) order id :=
        member.elim (holds.subscribed_iff perm topicName id).mp wanted_of_mem_firstMatch
      obtain ⟨⟨filter, ids⟩, entry, -, listed⟩ := wanted
      exact holds.sinks filter ids (AList.mem_lookup_iff.mpr (perm.mem_iff.mp entry)) id listed
    rw [Router.deliversOnce_sendAll_iff known]
    simp only [holds.subscribed_iff perm topicName]
    exact count_firstMatch_iff

end

/-! ### Overlapping, shared and repeated filters -/

theorem Router.addSubscriptionToTopic_eq_ok (router : Router ς) (id : SubscriptionId)
    {topicFilter : String} {filter : TopicFilterBuf}
    (made : TopicFilterBuf.new topicFilter = .ok filter) :
    router.addSubscriptionToTopic id topicFilter = .ok { router with
      subscriptionTopics := router.subscriptionTopics.insert filter
        ((router.subscriptionTopics.lookup filter).getD [] ++ [id]) } := by
  rw [addSubscriptionToTopic, made]

def publishTo (topicName : String) : MPublish :=
  ⟨false, .atMostOnce, false, topicName, none, .new publishFields, []⟩

theorem route_deliversOnce_shared :
    ∃ (trace : RouterTrace Nat) (router : Router Nat), RouterRuns trace router ∧
      trace.map (·.input) =
        [.sink 10, .sink 11, .topic ⟨0⟩ "a/+", .topic ⟨1⟩ "a/+"] ∧
      ∃ deliveries, router.route router.subscriptionTopics.entries (.publish (publishTo "a/b")) =
          .ok deliveries ∧
        (router.DeliversOnce (Subscribed trace ⟨[levelA, levelB]⟩) (.publish (publishTo "a/b"))
          deliveries ↔ FirstCovers (TopicNameBuf.matchesEntry ⟨[levelA, levelB]⟩) (·.2)
            router.subscriptionTopics.entries) := by
  have run : RouterRuns _ _ := .next (.next (.next (.next .done
      (.sink 10)) (.sink 11))
    (.topic ⟨0⟩ "a/+" (by decide) (Router.addSubscriptionToTopic_eq_ok _ _ filter_any)))
    (.topic ⟨1⟩ "a/+" (by decide) (Router.addSubscriptionToTopic_eq_ok _ _ filter_any))
  exact ⟨_, _, run, rfl, route_deliversOnce_iff run (.refl _) rfl⟩

/-- One of two overlapping filters is not looked at; a filter registered twice
is served twice. -/
theorem route_overlapping :
    (∃ (trace : RouterTrace Nat) (router : Router Nat), RouterRuns trace router ∧
      trace.map (·.input) =
        [.sink 10, .sink 11, .topic ⟨0⟩ "a/b", .topic ⟨1⟩ "a/+"] ∧
      ∃ deliveries, router.route router.subscriptionTopics.entries (.publish (publishTo "a/b")) =
          .ok deliveries ∧
        ¬ router.DeliversOnce (Subscribed trace ⟨[levelA, levelB]⟩) (.publish (publishTo "a/b"))
          deliveries) ∧
    ∃ (trace : RouterTrace Nat) (router : Router Nat), RouterRuns trace router ∧
      trace.map (·.input) = [.sink 10, .topic ⟨0⟩ "a", .topic ⟨0⟩ "a"] ∧
      ∃ deliveries, router.route router.subscriptionTopics.entries (.publish (publishTo "a")) =
          .ok deliveries ∧
        ¬ router.DeliversOnce (Subscribed trace ⟨[levelA]⟩) (.publish (publishTo "a"))
          deliveries := by
  constructor
  · refine ⟨_, _, .next (.next (.next (.next .done (.sink 10)) (.sink 11))
        (.topic ⟨0⟩ "a/b" (by decide) (Router.addSubscriptionToTopic_eq_ok _ _ filter_ab)))
        (.topic ⟨1⟩ "a/+" (by decide) (Router.addSubscriptionToTopic_eq_ok _ _ filter_any)),
      rfl, _, rfl, fun once => ?_⟩
    obtain ⟨sink, -, delivered⟩ := (once ⟨0⟩).1 ⟨⟨[.path levelA, .path levelB], false⟩,
      registered_snoc.mpr (.inl (registered_snoc.mpr (.inr ⟨_, rfl, filter_ab⟩))), by decide⟩
    have lengths : 0 = 1 := congrArg List.length delivered
    simp at lengths
  · refine ⟨_, _, .next (.next (.next .done (.sink 10))
        (.topic ⟨0⟩ "a" (by decide) (Router.addSubscriptionToTopic_eq_ok _ _ filter_a)))
        (.topic ⟨0⟩ "a" (by decide) (Router.addSubscriptionToTopic_eq_ok _ _ filter_a)),
      rfl, _, rfl, fun once => ?_⟩
    obtain ⟨sink, -, delivered⟩ := (once ⟨0⟩).1 ⟨⟨[.path levelA], false⟩,
      registered_snoc.mpr (.inr ⟨_, rfl, filter_a⟩), by decide⟩
    have lengths : 2 = 1 := congrArg List.length delivered
    simp at lengths

end Client
