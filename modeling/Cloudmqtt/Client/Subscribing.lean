import Cloudmqtt.Client.Codec
import Cloudmqtt.Client.CoreClient
import Cloudmqtt.Client.Router

/-! Subscribing: a packet is made of the topic filters, handed to the connection,
and only then are the filters registered.
-/

set_option autoImplicit false

namespace Client

open Base Rust V5

/-! ### The packet -/

def subscriptionTo (topicFilter : String) : V5.Subscription :=
  ⟨topicFilter, ⟨.atMostOnce, true, true, .sendRetainedMessagesAlways⟩⟩

def writeSubscriptions (topicFilters : List String) : Except Panic (List UInt8) :=
  let written := Emit.each (fun topicFilter => (subscriptionTo topicFilter).write) topicFilters
  match written.outcome with
  | .ok () => .ok written.emitted
  | .error (.error _) => .error .unwrapError
  | .error (.panic p) => .error p

/-- The identifier is replaced when the packet is sent. -/
def subscribeTo (subscriptions : Subscriptions) : MSubscribe :=
  ⟨⟨⟨1, NonZeroU16.one_ne_zero⟩⟩, .new subscribeFields, subscriptions⟩

def subscribePacket [Build] (topicFilters : List String) : Except Panic MqttPacket := do
  let buf ← writeSubscriptions topicFilters
  match ItemSlice.parse Subscription.parse buf with
  | .error _ => .error .unwrapError
  | .ok (subscriptions, _) => MqttPacket.new (.subscribe (subscribeTo subscriptions))

def itemsLength (topicFilters : List String) : Nat :=
  (topicFilters.map fun topicFilter => len topicFilter + 3).sum

-- A list whose items fill more than 2^32 bytes is announced by what is left of that
-- number; what the parser then sees may still end between two items.
/-- The length field announces what `u32` leaves of the length, and the packet
is read back when that is as much as some of the items have. -/
structure Packable (topicFilters : List String) : Prop where
  short : ∀ topicFilter ∈ topicFilters, len topicFilter ≤ 65535
  announced : ∃ front back, topicFilters = front ++ back ∧ front ≠ [] ∧
    itemsLength front = itemsLength topicFilters % 2 ^ 32 ∧ 3 + itemsLength front ≤ 268435455

def encoded (topicFilter : String) : List UInt8 :=
  prefixed (asBytes topicFilter) ++ [(subscriptionTo topicFilter).options.toU8]

@[simp] theorem length_encoded (topicFilter : String) :
    (encoded topicFilter).length = len topicFilter + 3 := by
  simp [encoded, length_prefixed]
  omega

theorem length_flatMap_encoded (topicFilters : List String) :
    (topicFilters.flatMap encoded).length = itemsLength topicFilters := by
  simp [itemsLength, List.length_flatMap]

theorem subscriptionTo_emits {topicFilter : String} {bytes : List UInt8} :
    (subscriptionTo topicFilter).write.Emits bytes () ↔
      len topicFilter ≤ 65535 ∧ bytes = encoded topicFilter :=
  Subscription.write_emits

theorem subscriptionTo_reads {topicFilter : String} (short : len topicFilter ≤ 65535) :
    Subscription.parse.Reads (encoded topicFilter) (subscriptionTo topicFilter) :=
  Subscription.parse_canonical.reads (a := subscriptionTo topicFilter) short

theorem writeSubscriptions_eq_ok {topicFilters : List String} {buf : List UInt8} :
    writeSubscriptions topicFilters = .ok buf ↔
      (∀ topicFilter ∈ topicFilters, len topicFilter ≤ 65535) ∧
        buf = topicFilters.flatMap encoded := by
  have written : writeSubscriptions topicFilters = .ok buf ↔
      (Emit.each (fun topicFilter => (subscriptionTo topicFilter).write) topicFilters).Emits
        buf () := by
    rw [Emit.emits_iff, writeSubscriptions]
    split
    next ended => simp [ended, eq_comm]
    next failed => simp [failed]
    next failed => simp [failed]
  rw [written, Emit.each_emits]
  constructor
  · rintro ⟨each, rfl⟩
    have emitted topicFilter (member : topicFilter ∈ topicFilters) :=
      subscriptionTo_emits.mp (each topicFilter member)
    exact ⟨fun topicFilter member => (emitted topicFilter member).1,
      List.flatMap_congr fun topicFilter member => (emitted topicFilter member).2⟩
  · rintro ⟨short, rfl⟩
    have emits topicFilter (member : topicFilter ∈ topicFilters) :=
      subscriptionTo_emits.mpr ⟨short topicFilter member, rfl⟩
    have same topicFilter (member : topicFilter ∈ topicFilters) :=
      (Emit.emits_iff.mp (emits topicFilter member)).1
    refine ⟨fun topicFilter member => ?_, (List.flatMap_congr same).symm⟩
    rw [same topicFilter member]
    exact emits topicFilter member

/-- Two bytes of identifier and one of the empty section stand before the items. -/
theorem parse_subscribeTo {bytes : List UInt8} :
    (∃ packet left, MqttPacket.parsePacket .subscribe (0 :: 1 :: 0 :: bytes) = .ok (packet, left)) ↔
      ∃ items, Parser.Items Subscription.parse bytes items ∧ 1 ≤ items.length := by
  have front : MSubscribe.parse (0 :: 1 :: 0 :: bytes) = (do
      let subscriptions ← ItemSlice.parse Subscription.parse
      pure ⟨⟨⟨1, by decide⟩⟩, Properties.takeInner subscribeFields fun _ => none, subscriptions⟩ :
        MParser MSubscribe) bytes := rfl
  constructor
  · rintro ⟨packet, left, run⟩
    obtain ⟨_, read, -⟩ := Parser.map_eq_ok.mp run
    obtain ⟨subscriptions, rest, parsed, -⟩ := Parser.bind_eq_ok.mp (front.symm.trans read)
    exact ((ItemSlice.parse_eq_ok Subscription.parse_shrinks).mp parsed).2.2
  · intro items
    have parsed : ItemSlice.parse Subscription.parse bytes = .ok (⟨bytes⟩, []) :=
      (ItemSlice.parse_eq_ok Subscription.parse_shrinks).mpr ⟨rfl, rfl, items⟩
    exact ⟨_, [], Parser.map_eq_ok.mpr
      ⟨_, front.trans (Parser.bind_eq_ok.mpr ⟨_, [], parsed, rfl⟩), rfl⟩⟩

theorem parsePacket_subscribe_length {bytes left : List UInt8} {packet : MqttPacket}
    (run : MqttPacket.parsePacket .subscribe bytes = .ok (packet, left)) : 3 ≤ bytes.length := by
  obtain ⟨_, read, -⟩ := Parser.map_eq_ok.mp run
  obtain ⟨_, middle, _, last, _, identifier, properties, items, -⟩ := Parser.triple_eq_ok.mp read
  obtain ⟨-, -, items, read, least⟩ := (ItemSlice.parse_eq_ok Subscription.parse_shrinks).mp items
  have first := PacketIdentifier.exact.shrinks _ _ _ identifier
  have second := Properties.parse_shrinks _ _ _ _ properties
  have third := read.length_le Subscription.parse_shrinks
  omega

section

variable [Build]

theorem subscribeTo_adds (subscriptions : Subscriptions) :
    (MqttPacket.subscribe (subscribeTo subscriptions)).packetSize.Adds True
      [2, 1, subscriptions.start.length] := by
  have properties : (Properties.new subscribeFields).binarySize.Adds True
      [variableWidth (announced [])] :=
    (Properties.new subscribeFields).size_adds.congr (iff_true_intro
      ⟨Properties.new_valid _, fun _ member => absurd member List.not_mem_nil,
        announced_nil.le.trans (Nat.zero_le _)⟩)
  rw [announced_nil] at properties
  exact (((Size.Adds.literal 2).add properties).add (Size.Adds.cast _)).congr (by simp)

theorem subscribeTo_size {subscriptions : Subscriptions} {size : UInt32} :
    (MqttPacket.subscribe (subscribeTo subscriptions)).packetSize = .ok size ↔
      size.toNat = announced [2, 1, subscriptions.start.length] :=
  (subscribeTo_adds subscriptions size).trans (iff_of_eq (true_and _))

theorem subscribeTo_emits {subscriptions : Subscriptions} {items : List V5.Subscription}
    (read : Parser.Items Subscription.parse subscriptions.start items) {bytes : List UInt8} :
    (MqttPacket.subscribe (subscribeTo subscriptions)).write.Emits bytes () ↔
      ∃ size length, size.toNat = announced [2, 1, subscriptions.start.length] ∧
        (writeVariableU32 size).Emits length () ∧
        bytes =
          MFixedHeader.toU8 ⟨.subscribe⟩ :: (length ++ 0 :: 1 :: 0 :: subscriptions.start) := by
  have body : (MqttPacket.subscribe (subscribeTo subscriptions)).writePacket.Emits
      (0 :: 1 :: 0 :: subscriptions.start) () := by
    have properties : (Properties.new subscribeFields).write.Emits [0] () :=
      (Properties.write_emits (Properties.new_valid _) (Nat.zero_le _)).mpr
        ⟨[0], rfl, rfl, fun _ _ => rfl⟩
    have identifier : (subscribeTo subscriptions).packetIdentifier.write.Emits [0, 1] () :=
      writeU16_emits.mpr (by decide : [0, 1] = u16Bytes 1)
    exact Emit.seq_emits.mpr ⟨[0, 1], _, identifier, Emit.seq_emits.mpr ⟨[0], _, properties,
      ItemSlice.write_emits Subscription.parse_shrinks Subscription.canonical read, rfl⟩, rfl⟩
  simp only [MqttPacket.write, Emit.seq_emits, MFixedHeader.write, writeByte_emits,
    writeSized_emits, subscribeTo_size]
  constructor
  · rintro ⟨_, _, rfl, ⟨length, _, ⟨size, sized, announced⟩, written, rfl⟩, rfl⟩
    obtain ⟨rfl, -⟩ := written.unique body
    exact ⟨size, length, sized, announced, rfl⟩
  · rintro ⟨size, length, sized, announced, rfl⟩
    exact ⟨_, _, rfl, ⟨length, _, ⟨size, sized, announced⟩, body, rfl⟩, rfl⟩

/-- Both build profiles announce the same length, if it covers the part before the items. -/
theorem announced_request {length size : Nat} (inside : size < 2 ^ 32) :
    size = announced [2, 1, length] ∧ 3 ≤ size ↔ size = 3 + length % 2 ^ 32 := by
  have sum : [2, 1, length].sum = 3 + length := by simp; omega
  have cast : ([2, 1, length].map (· % 2 ^ 32)).sum = 3 + length % 2 ^ 32 := by simp; omega
  unfold announced
  rw [sum, cast]
  split <;> omega

/-- The items that are read back are those that the announced length covers. -/
theorem new_subscribeTo_iff {subscriptions : Subscriptions} {items : List V5.Subscription}
    (read : Parser.Items Subscription.parse subscriptions.start items) :
    (∃ packet, MqttPacket.new (.subscribe (subscribeTo subscriptions)) = .ok packet) ↔
      3 + subscriptions.start.length % 2 ^ 32 ≤ 268435455 ∧ ∃ some,
        Parser.Items Subscription.parse
          (subscriptions.start.take (subscriptions.start.length % 2 ^ 32)) some ∧
        1 ≤ some.length := by
  have kept := Nat.mod_le subscriptions.start.length (2 ^ 32)
  have cut {n : Nat} (least : 3 ≤ n) : (0 :: 1 :: 0 :: subscriptions.start).take n =
      0 :: 1 :: 0 :: subscriptions.start.take (n - 3) := by
    obtain ⟨m, rfl⟩ := Nat.exists_eq_add_of_le' least
    rfl
  simp only [MqttPacket.new_eq_ok, subscribeTo_emits read]
  constructor
  · rintro ⟨packet, -, _, ⟨size, length, total, written, rfl⟩, parsed⟩
    obtain ⟨-, left, run⟩ := (MqttPacket.parseComplete_eq_ok written).mp parsed
    have least := (parsePacket_subscribe_length run).trans (List.length_take_le _ _)
    have rest := (announced_request size.toNat_lt).mp ⟨total, least⟩
    rw [cut least] at run
    have items := parse_subscribeTo.mp ⟨packet, left, run⟩
    rw [rest, Nat.add_sub_cancel_left] at items
    exact ⟨rest ▸ writeVariableU32_le written, items⟩
  · rintro ⟨short, items⟩
    have sized : (UInt32.ofNat (3 + subscriptions.start.length % 2 ^ 32)).toNat =
        3 + subscriptions.start.length % 2 ^ 32 :=
      UInt32.toNat_ofNat_of_lt' (Nat.lt_of_le_of_lt short (by decide))
    obtain ⟨total, least⟩ := (announced_request (UInt32.toNat_lt _)).mpr sized
    obtain ⟨length, written⟩ := writeVariableU32_ok (sized.le.trans short)
    obtain ⟨packet, left, run⟩ := parse_subscribeTo.mpr items
    have size := MqttPacket.binarySize_iff.mpr
      ⟨_, subscribeTo_size.mpr total, sized.le.trans short⟩
    refine ⟨packet, size, _, ⟨_, length, total, written, rfl⟩,
      (MqttPacket.parseComplete_eq_ok written).mpr ⟨?_, left, ?_⟩⟩
    · simp only [List.length_cons]
      omega
    · rw [cut least, sized, Nat.add_sub_cancel_left]
      exact run

/-- Every filter fits its length, and the announced length ends behind one of them. -/
theorem subscribePacket_iff {topicFilters : List String} :
    (∃ packet, subscribePacket topicFilters = .ok packet) ↔ Packable topicFilters := by
  have items {buf : List UInt8} (written : writeSubscriptions topicFilters = .ok buf)
      (n : Nat) (inside : n ≤ buf.length) {items : List V5.Subscription} :
      Parser.Items Subscription.parse (buf.take n) items ↔ ∃ front back,
        topicFilters = front ++ back ∧ itemsLength front = n ∧
          items = front.map subscriptionTo := by
    obtain ⟨short, rfl⟩ := writeSubscriptions_eq_ok.mp written
    simp only [← length_flatMap_encoded]
    exact Parser.Items.take_iff Subscription.parse_local (fun _ _ => by simp [encoded])
      (fun f member => subscriptionTo_reads (short f member)) inside
  constructor
  · rintro ⟨packet, made⟩
    obtain ⟨buf, written, made⟩ := except_bind_eq_ok.mp made
    obtain ⟨short, total⟩ := writeSubscriptions_eq_ok.mp written
    split at made
    next => simp at made
    next subscriptions _ parsed =>
      obtain ⟨rfl, -, _, read, -⟩ := (ItemSlice.parse_eq_ok Subscription.parse_shrinks).mp parsed
      obtain ⟨fits, _, kept, least⟩ := (new_subscribeTo_iff read).mp ⟨packet, made⟩
      obtain ⟨front, back, split, length, rfl⟩ := (items written _ (Nat.mod_le _ _)).mp kept
      refine ⟨short, front, back, split, ?_, ?_, length ▸ fits⟩
      · rintro rfl
        simp at least
      · rw [length, total, length_flatMap_encoded]
  · rintro ⟨short, front, back, split, nonempty, length, fits⟩
    have written := writeSubscriptions_eq_ok.mpr ⟨short, rfl⟩
    have total := length_flatMap_encoded topicFilters
    have read := (items written _ (Nat.le_refl _)).mpr
      ⟨topicFilters, [], (List.append_nil _).symm, total.symm, rfl⟩
    rw [List.take_length] at read
    have positive := List.length_pos_iff.mpr nonempty
    have parsed : ItemSlice.parse Subscription.parse (topicFilters.flatMap encoded) =
        .ok (⟨topicFilters.flatMap encoded⟩, []) := by
      refine (ItemSlice.parse_eq_ok Subscription.parse_shrinks).mpr ⟨rfl, rfl, _, read, ?_⟩
      rw [List.length_map, split, List.length_append]
      omega
    rw [← total] at length
    have kept := (items written _ (Nat.mod_le _ _)).mpr ⟨front, back, split, length, rfl⟩
    obtain ⟨packet, made⟩ := (@new_subscribeTo_iff _ ⟨_⟩ _ read).mpr
      ⟨length ▸ fits, _, kept, by rw [List.length_map]; exact positive⟩
    refine ⟨packet, except_bind_eq_ok.mpr ⟨_, written, ?_⟩⟩
    rw [parsed]
    exact made

end

/-! ### Building a subscription -/

structure CloudmqttClient (ς : Type) [Target] where
  coreClient : CoreClient
  router : Router ς

namespace CloudmqttClient

variable {ς : Type} [Target]

def new : CloudmqttClient ς := ⟨.new, .new⟩

def newFromConnection : CloudmqttClient ς := ⟨.newAndConnect, .new⟩

inductive Initial : CloudmqttClient ς → Prop where
  | new : Initial .new
  | newFromConnection : Initial .newFromConnection

end CloudmqttClient

inductive BuildFault where
  | error (e : Error)
  | panic (p : Panic)

section

variable {ς : Type} [Target]

namespace SubscriptionBuilder

def registerAll (router : Router ς) (id : SubscriptionId) (topicFilters : List String) :
    Except Panic Unit × Router ς :=
  tryForEach (fun router topicFilter => router.addSubscriptionToTopic id topicFilter) router
    topicFilters

-- Topic filters are checked by the wire format before the send, and by the router's
-- own type after it.
/-- The sink is the sender of the new channel. A call that waits for room in the
connection's channel does not return. -/
def build [Build] (client : CloudmqttClient ς) (topicFilters : List String) (sink : ς) :
    Option (Except BuildFault SubscriptionId × CloudmqttClient ς) :=
  match subscribePacket topicFilters with
  | .error p => some (.error (.panic p), client)
  | .ok packet =>
    match client.coreClient.send (.subscribe packet) with
    | none => none
    | some (.error e, coreClient) => some (.error (.error e), { client with coreClient })
    | some (.ok (), coreClient) =>
      let (id, router) := client.router.addSubscriptionSink sink
      match registerAll router id topicFilters with
      | (.error p, router) => some (.error (.panic p), ⟨coreClient, router⟩)
      | (.ok (), router) => some (.ok id, ⟨coreClient, router⟩)

end SubscriptionBuilder

def Router.Lists (self : Router ς) (id : SubscriptionId) (topicFilter : String) : Prop :=
  ∃ filter ids, TopicFilterBuf.new topicFilter = .ok filter ∧
    self.subscriptionTopics.lookup filter = some ids ∧ id ∈ ids

/-- Every filter is registered for the subscription that is returned; or nothing
was handed on, and the maps are as they were. -/
def AllOrNothing (before after : CloudmqttClient ς) (topicFilters : List String) :
    Except BuildFault SubscriptionId → Prop
  | .ok id => ∀ topicFilter ∈ topicFilters, after.router.Lists id topicFilter
  | .error _ => after.coreClient = before.coreClient ∧
    after.router.subscriptions = before.router.subscriptions ∧
    after.router.subscriptionTopics = before.router.subscriptionTopics

def ValidFilter (topicFilter : String) : Prop :=
  ∃ filter, TopicFilterBuf.new topicFilter = .ok filter

omit [Target] in
theorem Router.addSubscriptionToTopic_iff {router : Router ς} {id : SubscriptionId}
    {topicFilter : String} :
    (∃ after, router.addSubscriptionToTopic id topicFilter = .ok after) ↔
      ValidFilter topicFilter := by
  unfold addSubscriptionToTopic ValidFilter
  cases TopicFilterBuf.new topicFilter <;> simp

omit [Target] in
theorem Router.addSubscriptionToTopic_lists {router after : Router ς} {id : SubscriptionId}
    {topicFilter : String} (added : router.addSubscriptionToTopic id topicFilter = .ok after) :
    after.Lists id topicFilter ∧
      ∀ other earlier, router.Lists other earlier → after.Lists other earlier := by
  obtain ⟨filter, made⟩ := addSubscriptionToTopic_iff.mp ⟨after, added⟩
  rw [addSubscriptionToTopic_eq_ok router id made] at added
  obtain rfl := Except.ok.inj added
  constructor
  · exact ⟨filter, _, made, AList.lookup_insert _, by simp⟩
  · rintro other earlier ⟨key, ids, read, found, member⟩
    by_cases same : key = filter
    · subst same
      exact ⟨key, _, read, AList.lookup_insert _, by simp [found, member]⟩
    · exact ⟨key, ids, read, (AList.lookup_insert_ne same).trans found, member⟩

namespace SubscriptionBuilder

omit [Target] in
theorem registerAll_ok_iff {router : Router ς} {id : SubscriptionId} {topicFilters : List String} :
    (registerAll router id topicFilters).1 = .ok () ↔
      ∀ topicFilter ∈ topicFilters, ValidFilter topicFilter :=
  tryForEach_ok_iff fun (_ : Router ς) topicFilter =>
    @Router.addSubscriptionToTopic_iff _ _ id topicFilter

omit [Target] in
theorem registerAll_lists {router : Router ς} {id : SubscriptionId} {topicFilters : List String}
    (ended : (registerAll router id topicFilters).1 = .ok ()) :
    ∀ topicFilter ∈ topicFilters, (registerAll router id topicFilters).2.Lists id topicFilter :=
  tryForEach_establishes (fun topicFilter router => router.Lists id topicFilter)
    (fun added => (Router.addSubscriptionToTopic_lists added).1)
    (fun listed added => (Router.addSubscriptionToTopic_lists added).2 _ _ listed) ended

variable [Build] {client after : CloudmqttClient ς} {topicFilters : List String} {sink : ς}
  {result : Except BuildFault SubscriptionId}

/-- What a call that returns has done. -/
inductive Outcome (client : CloudmqttClient ς) (topicFilters : List String) :
    Except BuildFault SubscriptionId → CloudmqttClient ς → Prop where
  | refused (fault : BuildFault) : ¬ Packable topicFilters ∨ client.coreClient.Closed →
      Outcome client topicFilters (.error fault) client
  | abandoned (fault : BuildFault) {after : CloudmqttClient ς} : Packable topicFilters →
      ¬ client.coreClient.Closed → after.coreClient ≠ client.coreClient →
      ¬ (∀ topicFilter ∈ topicFilters, ValidFilter topicFilter) →
      Outcome client topicFilters (.error fault) after
  | registered (id : SubscriptionId) {after : CloudmqttClient ς} :
      (∀ topicFilter ∈ topicFilters, ValidFilter topicFilter) →
      (∀ topicFilter ∈ topicFilters, after.router.Lists id topicFilter) →
      Outcome client topicFilters (.ok id) after

theorem outcome_of_build (built : build client topicFilters sink = some (result, after)) :
    Outcome client topicFilters result after := by
  unfold build at built
  split at built
  next p failed =>
    obtain ⟨rfl, rfl⟩ := Prod.mk.inj (Option.some.inj built)
    refine .refused _ (.inl fun packable => ?_)
    obtain ⟨packet, made⟩ := subscribePacket_iff.mpr packable
    rw [failed] at made
    cases made
  next packet made =>
    have packable := subscribePacket_iff.mp ⟨packet, made⟩
    split at built
    next => simp at built
    next e coreClient failed =>
      obtain ⟨rfl, rfl⟩ := Prod.mk.inj (Option.some.inj built)
      obtain rfl := CoreClient.send_error failed
      exact .refused _ (.inr (CoreClient.send_error_iff.mp ⟨e, _, failed⟩))
    next coreClient sent =>
      have room : ¬ client.coreClient.Closed := fun closed => by
        obtain ⟨e, _, failed⟩ := CoreClient.send_error_iff.mpr closed
        rw [sent] at failed
        cases failed
      have handed := CoreClient.send_ok_ne sent
      dsimp only at built
      split at built
      next p router stopped =>
        obtain ⟨rfl, rfl⟩ := Prod.mk.inj (Option.some.inj built)
        refine .abandoned _ packable room handed fun valid => ?_
        have ended := (congrArg Prod.fst stopped).symm.trans (registerAll_ok_iff.mpr valid)
        cases ended
      next router ended =>
        obtain ⟨rfl, rfl⟩ := Prod.mk.inj (Option.some.inj built)
        have whole := congrArg Prod.fst ended
        refine .registered _ (registerAll_ok_iff.mp whole) ?_
        have listed := registerAll_lists whole
        rwa [ended] at listed

/-- A subscription is all or nothing exactly when the send is not reached or
refused, or the router takes every filter. -/
theorem build_allOrNothing_iff (built : build client topicFilters sink = some (result, after)) :
    AllOrNothing client after topicFilters result ↔
      ¬ Packable topicFilters ∨ client.coreClient.Closed ∨
        ∀ topicFilter ∈ topicFilters, ValidFilter topicFilter := by
  cases outcome_of_build built with
  | refused fault stopped =>
    refine iff_of_true ⟨rfl, rfl, rfl⟩ ?_
    rcases stopped with unpackable | closed
    · exact .inl unpackable
    · exact .inr (.inl closed)
  | abandoned fault packable room handed invalid =>
    refine iff_of_false (fun unchanged => handed unchanged.1) ?_
    rintro (unpackable | closed | valid)
    · exact unpackable packable
    · exact room closed
    · exact invalid valid
  | registered id valid listed => exact iff_of_true listed (.inr (.inr valid))

end SubscriptionBuilder

end

/-! ### A filter that the router does not take -/

namespace SubscriptionBuilder

attribute [local instance] development x86_64

def connectedClient : CloudmqttClient Nat := .newFromConnection

theorem build_allOrNothing_overlapping :
    ∃ result after, build connectedClient ["a", "a/+"] 10 = some (result, after) ∧
      (AllOrNothing connectedClient after ["a", "a/+"] result ↔
        ¬ Packable ["a", "a/+"] ∨ connectedClient.coreClient.Closed ∨
          ∀ topicFilter ∈ ["a", "a/+"], ValidFilter topicFilter) :=
  ⟨_, _, rfl, build_allOrNothing_iff rfl⟩

/-- The SUBSCRIBE is on its way and the first filter is registered when the second one unwinds. -/
theorem build_invalid : ∃ after,
    build connectedClient ["a", "a#"] 10 = some (.error (.panic .unwrapError), after) ∧
      (after.coreClient.connections 0).map (·.queue.length) = some 1 ∧
      after.router.Lists ⟨0⟩ "a" ∧
      ¬ AllOrNothing connectedClient after ["a", "a#"] (.error (.panic .unwrapError)) := by
  refine ⟨_, rfl, rfl, ⟨_, _, filter_a, rfl, List.mem_singleton_self _⟩, fun unchanged => ?_⟩
  have queues := congrArg (fun client => (client.connections 0).map (·.queue.length)) unchanged.1
  cases queues

end SubscriptionBuilder

end Client
