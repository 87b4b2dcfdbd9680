import Cloudmqtt.Client.Subscribing
import Cloudmqtt.Client.Wire

/-! What the calls of the client make of their arguments, and what arrives of it. -/

set_option autoImplicit false

namespace Client

open Base Rust V5 Core

/-! ### A message -/

def published (message : List UInt8) (topic : String) : MPublish :=
  { publication message topic with properties := .takeInner publishFields fun _ => none }

/-- The topic fits its length field and has no wildcard, and the length that is announced
fits the field in front. -/
structure Publishable (message : List UInt8) (topic : String) : Prop where
  fits : len topic ≤ 65535
  sane : sanityCheckTopicName topic = true
  short : 3 + len topic + message.length % 2 ^ 32 ≤ 268435455

theorem take_published {message : List UInt8} {topic : String} {u : Nat}
    (covers : 3 + len topic ≤ u) : (prefixed (asBytes topic) ++ 0 :: message).take u =
      prefixed (asBytes topic) ++ 0 :: message.take (u - (3 + len topic)) := by
  have width : (prefixed (asBytes topic)).length = 2 + len topic := length_prefixed _
  rw [List.take_append, List.take_of_length_le (by omega), width]
  obtain ⟨n, rfl⟩ := Nat.exists_eq_add_of_le covers
  have rest : 3 + len topic + n - (2 + len topic) = n + 1 := by omega
  have payload : 3 + len topic + n - (3 + len topic) = n := by omega
  rw [rest, payload, List.take_succ_cons]

theorem eq_of_take_prefixed {topic name : String} (fits : len topic ≤ 65535)
    {named behind rest : List UInt8} (namedEmits : (writeString name).Emits named ()) {u : Nat}
    (same : (prefixed (asBytes topic) ++ behind).take u = named ++ rest) :
    name = topic ∧ named = prefixed (asBytes topic) := by
  have topicEmits : (writeString topic).Emits (prefixed (asBytes topic)) () :=
    writeString_emits.mpr ⟨fits, rfl⟩
  have whole : prefixed (asBytes topic) ++ behind =
      named ++ (rest ++ (prefixed (asBytes topic) ++ behind).drop u) := by
    rw [← List.append_assoc, ← same, List.take_append_drop]
  have first := parseString_exact.reads topicEmits behind
  rw [whole, parseString_exact.reads namedEmits] at first
  obtain rfl : name = topic := (Prod.mk.inj (Except.ok.inj first)).1
  exact ⟨rfl, (namedEmits.unique topicEmits).1⟩

theorem parse_published {message : List UInt8} {topic : String} {u : Nat} {packet : MqttPacket}
    (fits : len topic ≤ 65535) :
    (∃ left, MqttPacket.parsePacket (.publish false .atMostOnce false)
        ((prefixed (asBytes topic) ++ 0 :: message).take u) = .ok (packet, left)) ↔
      sanityCheckTopicName topic = true ∧ 3 + len topic ≤ u ∧
        packet = .publish (published (message.take (u - (3 + len topic))) topic) := by
  have topicEmits : (writeString topic).Emits (prefixed (asBytes topic)) () :=
    writeString_emits.mpr ⟨fits, rfl⟩
  have reads (sane : sanityCheckTopicName topic = true) (covers : 3 + len topic ≤ u) :
      MqttPacket.parsePacket (.publish false .atMostOnce false)
        ((prefixed (asBytes topic) ++ 0 :: message).take u) =
          .ok (.publish (published (message.take (u - (3 + len topic))) topic), []) := by
    rw [take_published covers]
    apply Parser.map_eq_ok.mpr
    refine ⟨_, MPublish.parse_eq_ok.mpr ?_, rfl⟩
    exact ⟨rfl, rfl, rfl, sane, by simp [published, publication], rfl, _, [], _, topicEmits,
      Emit.pure_emits.mpr ⟨rfl, rfl⟩, rfl, rfl⟩
  constructor
  · rintro ⟨left, run⟩
    obtain ⟨p, read, -⟩ := Parser.map_eq_ok.mp run
    obtain ⟨-, -, -, sane, -, -, named, identifier, tail, namedEmits, -, properties, same⟩ :=
      MPublish.parse_eq_ok.mp read
    obtain ⟨name, rfl⟩ := eq_of_take_prefixed fits namedEmits same
    rw [name] at sane
    have covers : 3 + len topic ≤ u := by
      have width : (prefixed (asBytes topic)).length = 2 + len topic := length_prefixed _
      have shorter := Properties.parse_shrinks publishFields _ _ _ properties
      have length := congrArg List.length same
      simp only [List.length_append, List.length_take] at length
      omega
    obtain ⟨rfl, -⟩ := Prod.mk.inj (Except.ok.inj (run.symm.trans (reads sane covers)))
    exact ⟨sane, covers, rfl⟩
  · rintro ⟨sane, covers, rfl⟩
    exact ⟨[], reads sane covers⟩

section

variable [Build] {message : List UInt8} {topic : String}

theorem publication_adds : (MqttPacket.publish (publication message topic)).packetSize.Adds True
    [2 + len topic, 1, message.length] := by
  have properties : (Properties.new publishFields).binarySize.Adds True
      [variableWidth (announced [])] :=
    (Properties.new publishFields).size_adds.congr (iff_true_intro
      ⟨Properties.new_valid _, fun _ member => absurd member List.not_mem_nil,
        announced_nil.le.trans (Nat.zero_le _)⟩)
  rw [announced_nil] at properties
  exact ((((Size.Adds.cast _).add .zero).add properties).add (Size.Adds.cast _)).congr (by simp)

theorem publication_emits {bytes : List UInt8} :
    (MqttPacket.publish (publication message topic)).write.Emits bytes () ↔
      len topic ≤ 65535 ∧ ∃ size length,
        size.toNat = announced [2 + len topic, 1, message.length] ∧
        (writeVariableU32 size).Emits length () ∧
        bytes = MFixedHeader.toU8 ⟨.publish false .atMostOnce false⟩ ::
          (length ++ (prefixed (asBytes topic) ++ 0 :: message)) := by
  have body {bytes : List UInt8} :
      (MqttPacket.publish (publication message topic)).writePacket.Emits bytes () ↔
        len topic ≤ 65535 ∧ bytes = prefixed (asBytes topic) ++ 0 :: message := by
    have properties : (Properties.new publishFields).write.Emits [0] () :=
      (Properties.write_emits (Properties.new_valid _) (Nat.zero_le _)).mpr
        ⟨[0], rfl, rfl, fun _ _ => rfl⟩
    have identifier : (writeOption PacketIdentifier.write none).Emits [] () :=
      Emit.pure_emits.mpr ⟨rfl, rfl⟩
    rw [MqttPacket.writePacket, MPublish.write_emits]
    constructor
    · rintro ⟨_, _, _, topicEmits, -, idEmits, sectionEmits, rfl⟩
      obtain ⟨fits, rfl⟩ := writeString_emits.mp topicEmits
      obtain ⟨rfl, -⟩ := idEmits.unique identifier
      obtain ⟨rfl, -⟩ := sectionEmits.unique properties
      exact ⟨fits, rfl⟩
    · rintro ⟨fits, rfl⟩
      exact ⟨_, [], [0], writeString_emits.mpr ⟨fits, rfl⟩, by simp [publication], identifier,
        properties, rfl⟩
  simp only [MqttPacket.write, Emit.seq_emits, MFixedHeader.write, writeByte_emits,
    writeSized_emits, publication_adds _, body]
  constructor
  · rintro ⟨_, _, rfl, ⟨length, _, ⟨size, ⟨-, sized⟩, announced⟩, ⟨fits, rfl⟩, rfl⟩, rfl⟩
    exact ⟨fits, size, length, sized, announced, rfl⟩
  · rintro ⟨fits, size, length, sized, announced, rfl⟩
    exact ⟨_, _, rfl, ⟨length, _, ⟨size, ⟨trivial, sized⟩, announced⟩, ⟨fits, rfl⟩, rfl⟩, rfl⟩

/-- The announced length covers the topic in either build profile only where the sum
does not go beyond 32 bits. -/
theorem announced_publication {size : Nat} (inside : size < 2 ^ 32) (fits : len topic ≤ 65535) :
    size = announced [2 + len topic, 1, message.length] ∧ 3 + len topic ≤ size ↔
      size = 3 + len topic + message.length % 2 ^ 32 := by
  have sum : [2 + len topic, 1, message.length].sum = 3 + len topic + message.length := by
    simp
    omega
  have cast : ([2 + len topic, 1, message.length].map (· % 2 ^ 32)).sum =
      3 + len topic + message.length % 2 ^ 32 := by
    simp
    omega
  unfold announced
  rw [sum, cast]
  split <;> omega

theorem new_publication_iff {packet : MqttPacket} :
    MqttPacket.new (.publish (publication message topic)) = .ok packet ↔
      Publishable message topic ∧
        packet = .publish (published (message.take (message.length % 2 ^ 32)) topic) := by
  simp only [MqttPacket.new_eq_ok, publication_emits]
  constructor
  · rintro ⟨-, _, ⟨fits, size, length, total, written, rfl⟩, parsed⟩
    obtain ⟨-, left, run⟩ := (MqttPacket.parseComplete_eq_ok written).mp parsed
    obtain ⟨sane, covers, rfl⟩ := (parse_published fits).mp ⟨left, run⟩
    have rest := (announced_publication size.toNat_lt fits).mp ⟨total, covers⟩
    refine ⟨⟨fits, sane, rest ▸ writeVariableU32_le written⟩, ?_⟩
    rw [rest, Nat.add_sub_cancel_left]
  · rintro ⟨⟨fits, sane, short⟩, rfl⟩
    have sized : (UInt32.ofNat (3 + len topic + message.length % 2 ^ 32)).toNat =
        3 + len topic + message.length % 2 ^ 32 :=
      UInt32.toNat_ofNat_of_lt' (Nat.lt_of_le_of_lt short (by decide))
    obtain ⟨total, covers⟩ := (announced_publication (UInt32.toNat_lt _) fits).mpr sized
    obtain ⟨length, written⟩ := writeVariableU32_ok (sized.le.trans short)
    have parsed := (@parse_published message topic _ _ fits).mpr ⟨sane, covers, rfl⟩
    rw [sized, Nat.add_sub_cancel_left, ← sized] at parsed
    refine ⟨MqttPacket.binarySize_iff.mpr ⟨_, (publication_adds _).mpr ⟨trivial, total⟩,
      sized.le.trans short⟩, _, ⟨fits, _, length, total, written, rfl⟩,
      (MqttPacket.parseComplete_eq_ok written).mpr ⟨?_, parsed⟩⟩
    have kept := Nat.mod_le message.length (2 ^ 32)
    have width : (prefixed (asBytes topic)).length = 2 + len topic := length_prefixed _
    rw [sized, List.length_append, width, List.length_cons]
    omega

/-! ### The call -/

variable {ς : Type} [Target]

def CloudmqttClient.connect (self : CloudmqttClient ς) : Except Error Unit × CloudmqttClient ς :=
  let (result, coreClient) := self.coreClient.connect
  (result, { self with coreClient })

/-- The packet is made before the connection is looked at. -/
def CloudmqttClient.publish (self : CloudmqttClient ς) (message : List UInt8) (topic : String) :
    Option (Except BuildFault Unit × CloudmqttClient ς) :=
  match MqttPacket.new (.publish (publication message topic)) with
  | .error p => some (.error (.panic p), self)
  | .ok packet =>
    (self.coreClient.send (.publish packet)).map fun (result, coreClient) =>
      (result.mapError .error, { self with coreClient })

/-- For any message and topic, a call unwinds exactly when these do not make a packet, and
then nothing has changed. Otherwise it does what the connection does with one packet, on
the same topic, and with the message up to a multiple of 4 GiB. -/
theorem publish_spec (self : CloudmqttClient ς) (message : List UInt8) (topic : String) :
    (¬ Publishable message topic →
      ∃ p, self.publish message topic = some (.error (.panic p), self)) ∧
    (Publishable message topic → self.publish message topic =
      (self.coreClient.send (.publish (.publish (published
        (message.take (message.length % 2 ^ 32)) topic)))).map fun (result, coreClient) =>
          (result.mapError .error, { self with coreClient })) := by
  unfold CloudmqttClient.publish
  constructor
  · intro unpublishable
    cases made : MqttPacket.new (.publish (publication message topic)) with
    | error p => exact ⟨p, rfl⟩
    | ok packet => exact absurd (new_publication_iff.mp made).1 unpublishable
  · intro publishable
    rw [new_publication_iff.mpr ⟨publishable, rfl⟩]

end

/-! ### A subscription -/

def asked (topicFilters : List String) : MSubscribe where
  packetIdentifier := ⟨⟨1, NonZeroU16.one_ne_zero⟩⟩
  properties := .takeInner subscribeFields fun _ => none
  subscriptions := ⟨topicFilters.flatMap encoded⟩

theorem parse_asked {bytes left : List UInt8} {packet : MqttPacket}
    (run : MqttPacket.parsePacket .subscribe (0 :: 1 :: 0 :: bytes) = .ok (packet, left)) :
    packet = .subscribe { asked [] with subscriptions := ⟨bytes⟩ } := by
  have front : MSubscribe.parse (0 :: 1 :: 0 :: bytes) = (do
      let subscriptions ← ItemSlice.parse Subscription.parse
      pure { asked [] with subscriptions } : MParser MSubscribe) bytes := rfl
  obtain ⟨p, read, rfl⟩ := Parser.map_eq_ok.mp run
  obtain ⟨subscriptions, rest, parsed, last⟩ := Parser.bind_eq_ok.mp (front.symm.trans read)
  obtain ⟨start, -, -⟩ := (ItemSlice.parse_eq_ok Subscription.parse_shrinks).mp parsed
  obtain ⟨rfl, -⟩ := Prod.mk.inj (Except.ok.inj last)
  rw [← start]

theorem items_encoded {topicFilters : List String}
    (short : ∀ topicFilter ∈ topicFilters, len topicFilter ≤ 65535) {n : Nat}
    (inside : n ≤ (topicFilters.flatMap encoded).length) {items : List V5.Subscription} :
    Parser.Items Subscription.parse ((topicFilters.flatMap encoded).take n) items ↔
      ∃ front back, topicFilters = front ++ back ∧ (front.flatMap encoded).length = n ∧
        items = front.map subscriptionTo :=
  Parser.Items.take_iff Subscription.parse_local (fun _ _ => by simp [encoded])
    (fun f member => subscriptionTo_reads (short f member)) inside

section

variable [Build]

/-- The packet asks for the filters that the announced length covers. -/
theorem subscribePacket_asks {topicFilters : List String} {packet : MqttPacket}
    (made : subscribePacket topicFilters = .ok packet) : ∃ front back,
      topicFilters = front ++ back ∧ itemsLength front = itemsLength topicFilters % 2 ^ 32 ∧
      Parser.Items Subscription.parse (front.flatMap encoded) (front.map subscriptionTo) ∧
      packet = .subscribe (asked front) := by
  obtain ⟨buf, written, made⟩ := except_bind_eq_ok.mp made
  obtain ⟨short, rfl⟩ := writeSubscriptions_eq_ok.mp written
  split at made
  next => simp at made
  next subscriptions _ parsed =>
    obtain ⟨start, -, items, read, -⟩ :=
      (ItemSlice.parse_eq_ok Subscription.parse_shrinks).mp parsed
    obtain ⟨-, _, emits, complete⟩ := MqttPacket.new_eq_ok.mp made
    rw [← start] at read
    obtain ⟨size, length, total, announced, rfl⟩ := (subscribeTo_emits read).mp emits
    obtain ⟨-, left, run⟩ := (MqttPacket.parseComplete_eq_ok announced).mp complete
    have least := (parsePacket_subscribe_length run).trans (List.length_take_le _ _)
    have covered := (announced_request size.toNat_lt).mp ⟨total, least⟩
    have cut : (0 :: 1 :: 0 :: subscriptions.start).take size.toNat = 0 :: 1 :: 0 ::
        (topicFilters.flatMap encoded).take (itemsLength topicFilters % 2 ^ 32) := by
      rw [covered, start, length_flatMap_encoded, Nat.add_comm]
      rfl
    rw [cut] at run
    have inside := Nat.mod_le (itemsLength topicFilters) (2 ^ 32)
    obtain ⟨items, kept, -⟩ := parse_subscribeTo.mp ⟨packet, left, run⟩
    obtain ⟨front, back, split, width, rfl⟩ := (items_encoded short
      (inside.trans_eq (length_flatMap_encoded topicFilters).symm)).mp kept
    have same : (topicFilters.flatMap encoded).take (itemsLength topicFilters % 2 ^ 32) =
        front.flatMap encoded := by
      rw [← width, split, List.flatMap_append, List.take_left]
    rw [same] at kept run
    refine ⟨front, back, split, ?_, kept, parse_asked run⟩
    rw [← length_flatMap_encoded, width]

variable {ς : Type} [Target]

/-- A call that returns a subscription has registered every filter with the router, and
asks the broker for as many of them as the announced length covers: for all of them
exactly when they fill less than 4 GiB. -/
theorem build_asks {client built : CloudmqttClient ς} {topicFilters : List String} {sink : ς}
    {id : SubscriptionId}
    (returned : SubscriptionBuilder.build client topicFilters sink = some (.ok id, built)) :
    ∃ front back, topicFilters = front ++ back ∧
      itemsLength front = itemsLength topicFilters % 2 ^ 32 ∧
      client.coreClient.send (.subscribe (.subscribe (asked front))) =
        some (.ok (), built.coreClient) ∧
      Parser.Items Subscription.parse (asked front).subscriptions.start
        (front.map subscriptionTo) ∧
      (∀ topicFilter ∈ topicFilters, built.router.Lists id topicFilter) ∧
      (back = [] ↔ itemsLength topicFilters < 2 ^ 32) := by
  unfold SubscriptionBuilder.build at returned
  split at returned
  next => simp at returned
  next packet made =>
    obtain ⟨front, back, split, kept, items, rfl⟩ := subscribePacket_asks made
    split at returned
    next => simp at returned
    next => simp at returned
    next coreClient sent =>
      dsimp only at returned
      split at returned
      next => simp at returned
      next router ended =>
        obtain ⟨same, rfl⟩ := Prod.mk.inj (Option.some.inj returned)
        obtain rfl := Except.ok.inj same
        have listed := SubscriptionBuilder.registerAll_lists (congrArg Prod.fst ended)
        rw [ended] at listed
        refine ⟨front, back, split, kept, sent, items, listed, ?_⟩
        have sum : itemsLength topicFilters = itemsLength front + itemsLength back := by
          simp [split, itemsLength]
        constructor
        · rintro rfl
          rw [← List.append_nil front, ← split] at kept
          omega
        · intro fits
          cases back with
          | nil => rfl
          | cons topicFilter more =>
            have positive : 3 ≤ itemsLength (topicFilter :: more) := by
              simp [itemsLength]
              omega
            omega

end

section

attribute [local instance] development x86_64

open SubscriptionBuilder in
theorem build_asks_overlapping : ∃ id built,
    build connectedClient ["a", "a/+"] 10 = some (.ok id, built) ∧
    ∃ front back, ["a", "a/+"] = front ++ back ∧
      itemsLength front = itemsLength ["a", "a/+"] % 2 ^ 32 ∧
      connectedClient.coreClient.send (.subscribe (.subscribe (asked front))) =
        some (.ok (), built.coreClient) ∧
      Parser.Items Subscription.parse (asked front).subscriptions.start
        (front.map subscriptionTo) ∧
      (∀ topicFilter ∈ ["a", "a/+"], built.router.Lists id topicFilter) ∧
      (back = [] ↔ itemsLength ["a", "a/+"] < 2 ^ 32) :=
  ⟨_, _, rfl, build_asks rfl⟩

end

/-! ### Messages -/

def MqttPacket.message? : MqttPacket → Option (String × List UInt8)
  | .publish p => some (p.topicName, p.payload)
  | _ => none

def SendUsage.message? : SendUsage → Option (String × List UInt8)
  | publish packet => MqttPacket.message? packet
  | subscribe _ => none

theorem MqttPacket.message?_congr {p q : MqttPacket} (same : p.eq q = .ok true) :
    MqttPacket.message? p = MqttPacket.message? q := by
  cases p <;> cases q <;> simp only [V5.MqttPacket.eq, Except.ok.injEq, Bool.false_eq_true] at same
  case publish.publish p q =>
    obtain ⟨fields, rest⟩ := andAlso_eq_true.mp same
    obtain ⟨-, payload⟩ := andAlso_eq_true.mp rest
    have topic := (of_decide_eq_true (Except.ok.inj fields)).2.2.2.1
    have payload := of_decide_eq_true (Except.ok.inj payload)
    rw [MqttPacket.message?, MqttPacket.message?, topic, payload]
  all_goals rfl

theorem messages_congr {items packets : List MqttPacket}
    (same : List.Forall₂ (fun q packet => q.eq packet = .ok true) items packets) :
    items.filterMap MqttPacket.message? = packets.filterMap MqttPacket.message? := by
  induction same with
  | nil => rfl
  | cons first _ ih =>
    rw [List.filterMap_cons, List.filterMap_cons, ih, MqttPacket.message?_congr first]

theorem Sending.messages {usage : SendUsage} {packets : List MqttPacket}
    (sending : Sending usage packets) :
    packets.filterMap MqttPacket.message? = usage.message?.toList := by
  cases sending <;> rfl

theorem Written.messages {usages : List SendUsage} {packets : List MqttPacket}
    (written : Written usages packets) :
    packets.filterMap MqttPacket.message? = usages.filterMap SendUsage.message? := by
  induction written with
  | greeting => rfl
  | @next usages packets more usage _ sending ih =>
    have single : [usage].filterMap SendUsage.message? = usage.message?.toList := by
      cases found : usage.message? <;> simp [found]
    rw [List.filterMap_append, List.filterMap_append, ih, sending.messages, single]

theorem Cut.messages {usages : List SendUsage} {packets : List MqttPacket}
    (cut : Cut usages packets) :
    packets.filterMap MqttPacket.message? <+: usages.filterMap SendUsage.message? := by
  cases cut with
  | silent => exact List.prefix_rfl
  | incoming written => rw [written.messages]
  | unsent written =>
    rw [written.messages, List.filterMap_append]
    exact List.prefix_append _ _
  | @sending usages _ whole more usage written sending cut =>
    have all := (written.next sending).messages
    rw [← all, List.filterMap_append, List.filterMap_append]
    exact (List.prefix_append_right_inj _).mpr (cut.filterMap _)

namespace CoreClient

section

variable [Target] [FxHasher] {start client : CoreClient} {trace : ClientTrace} {channel : Nat}

theorem messages_front (initial : start.Initial) (run : ClientRuns start trace client) :
    (trace.flatMap (sentOn channel)).filterMap MqttPacket.message? <+:
      (trace.flatMap (accepted channel)).filterMap SendUsage.message? := by
  have wired := (transmits_of_runs initial run channel).wired
  obtain ⟨waiting, conserves⟩ := conserves_of_runs initial run channel
  rw [conserves.inOrder, List.filterMap_append]
  exact wired.cut.messages.trans (List.prefix_append _ _)

theorem messages_eq (initial : start.Initial) (run : ClientRuns start trace client) {fsm : Fsm}
    (running : client.connections channel = some ⟨.running fsm, []⟩) :
    (trace.flatMap (sentOn channel)).filterMap MqttPacket.message? =
      (trace.flatMap (accepted channel)).filterMap SendUsage.message? := by
  have wired := (transmits_of_runs initial run channel).wired
  obtain ⟨waiting, conserves⟩ := conserves_of_runs initial run channel
  obtain rfl : [] = waiting := conserves.queue _ running
  rw [running] at wired
  rw [conserves.inOrder, List.append_nil]
  exact Written.messages wired

end

/-- Over any run, and however far the bytes of a connection have come: the messages that a
peer has read are the first of those that were accepted, in order and unchanged. They are
all of them when the task runs, nothing waits in the channel and every byte is there. -/
theorem messages_of_runs [Build] [Target] [FxHasher] {start client : CoreClient}
    {trace : ClientTrace} (initial : start.Initial) (run : ClientRuns start trace client)
    (proper : ∀ entry ∈ trace, Proper entry) (channel : Nat) {bytes : List UInt8}
    (encoded : MqttPacketCodec.encodeAll (trace.flatMap (sentOn channel)) [] = (.ok (), bytes))
    {chunks : List (List UInt8)} (arrived : chunks.flatten <+: bytes) :
    (feed MqttPacketCodec.decode chunks).items.filterMap MqttPacket.message? <+:
        (trace.flatMap (accepted channel)).filterMap SendUsage.message? ∧
      (chunks.flatten = bytes →
        (∃ fsm, client.connections channel = some ⟨.running fsm, []⟩) →
        (feed MqttPacketCodec.decode chunks).items.filterMap MqttPacket.message? =
          (trace.flatMap (accepted channel)).filterMap SendUsage.message?) := by
  obtain ⟨frames, written, rfl⟩ := MqttPacketCodec.encodeAll_eq_ok encoded
  obtain ⟨read, pending, split, -, same, -, -, all⟩ := MqttPacketCodec.feed_writes
    (sendable_of_runs initial run proper channel) written arrived
  rw [messages_congr same]
  constructor
  · have front : read <+: trace.flatMap (sentOn channel) := split ▸ List.prefix_append _ _
    exact (front.filterMap _).trans (messages_front initial run)
  · rintro complete ⟨fsm, running⟩
    rw [← messages_eq initial run running, split, all complete, List.append_nil]

section

attribute [local instance] development x86_64 unhashed

theorem messages_of_runs_greeted : ∃ trace client bytes, ClientRuns .newAndConnect trace client ∧
    trace.map (·.input) = greetedSession ∧
    MqttPacketCodec.encodeAll (trace.flatMap (sentOn 0)) [] = (.ok (), bytes) ∧
    ((feed MqttPacketCodec.decode [bytes]).items.filterMap MqttPacket.message? <+:
        (trace.flatMap (accepted 0)).filterMap SendUsage.message? ∧
      ([bytes].flatten = bytes →
        (∃ fsm, client.connections 0 = some ⟨.running fsm, []⟩) →
        (feed MqttPacketCodec.decode [bytes]).items.filterMap MqttPacket.message? =
          (trace.flatMap (accepted 0)).filterMap SendUsage.message?)) := by
  obtain ⟨trace, client, run, inputs, proper⟩ := greeted_run
  obtain ⟨frames, written⟩ := written_of_runs run proper 0
  have encoded := MqttPacketCodec.encodeAll_of_writes
    (sendable_of_runs .newAndConnect run proper 0) written []
  exact ⟨trace, client, _, run, inputs, encoded,
    messages_of_runs .newAndConnect run proper 0 encoded (by simp)⟩

end

end CoreClient

end Client
