import Cloudmqtt.Base.Canonical
import Cloudmqtt.Base.Drain
import Cloudmqtt.V5.FixedHeader
import Cloudmqtt.V5.Sections

/-! SUBSCRIBE and UNSUBSCRIBE. Their payloads stay slices, parsed again when iterated over. -/

set_option autoImplicit false

namespace V5

open Base Rust

/-! ### Slices of items -/

/-- The bytes of items that were parsed to the end of a packet. -/
structure ItemSlice (α : Type) where
  start : List UInt8

namespace ItemSlice

variable {α : Type}

def parse (item : MParser α) : MParser (ItemSlice α) :=
  ItemSlice.mk <$> (Parser.repeatTillEof item .backtrack 1).recognize

def next (item : MParser α) : Next Panic (List UInt8) α
  | [] => .ok none
  | b :: bytes =>
    match item (b :: bytes) with
    | .ok (a, rest) => .ok (some (a, rest))
    | .error _ => .error (.expect "Already parsed subscriptions should be valid")

-- The iterator's `expect` ends the list with a panic, which the writers run into.
/-- Everything the iterator gives. Each item takes at least one byte. -/
def items (item : MParser α) (self : ItemSlice α) : Drained Panic α :=
  drain (next item) (self.start.length + 1) self.start

def binarySize (self : ItemSlice α) : Size := castSize self.start.length

def write (item : MParser α) (writeItem : α → WResult) (self : ItemSlice α) : WResult := do
  Emit.each writeItem (items item self).items
  match (items item self).failure with
  | none => pure ()
  | some p => Emit.fault (.panic p)

def eq [DecidableEq α] (item : MParser α) (self other : ItemSlice α) : Except Panic Bool :=
  (items item self).eq (items item other)

def Valid (item : MParser α) (self : ItemSlice α) : Prop :=
  ∃ input rest, parse item input = .ok (self, rest)

end ItemSlice

/-! ### SUBSCRIBE -/

def subscribeFields : List PropertyKind := [.subscriptionIdentifier, .userProperties]

inductive RetainHandling where
  | sendRetainedMessagesAlways
  | sendRetainedMessagesOnNewSubscribe
  | doNotSendRetainedMessages
  deriving DecidableEq, Repr

def RetainHandling.toU8 : RetainHandling → UInt8
  | .sendRetainedMessagesAlways => 0
  | .sendRetainedMessagesOnNewSubscribe => 1
  | .doNotSendRetainedMessages => 2

def RetainHandling.tryFrom : UInt8 → Option RetainHandling
  | 0 => some .sendRetainedMessagesAlways
  | 1 => some .sendRetainedMessagesOnNewSubscribe
  | 2 => some .doNotSendRetainedMessages
  | _ => none

structure SubscriptionOptions where
  qualityOfService : QualityOfService
  noLocal : Bool
  retainAsPublished : Bool
  retainHandling : RetainHandling
  deriving DecidableEq, Repr

namespace SubscriptionOptions

/-- From the top: two reserved bits, retain handling, two flags and the quality of service. -/
def tryFrom (byte : UInt8) : Option SubscriptionOptions := do
  let retainHandling ← RetainHandling.tryFrom (takeBits byte 2 2)
  let qualityOfService ← QualityOfService.tryFrom (takeBits byte 6 2)
  if takeBits byte 0 2 = 0 then
    some ⟨qualityOfService, takeBits byte 5 1 != 0, takeBits byte 4 1 != 0, retainHandling⟩
  else none

def parse : MParser SubscriptionOptions := Parser.tryMap u8 tryFrom .backtrack

def toU8 (self : SubscriptionOptions) : UInt8 :=
  self.qualityOfService.toU8 ||| (self.noLocal.toUInt8 <<< 2) |||
    (self.retainAsPublished.toUInt8 <<< 3) ||| (self.retainHandling.toU8 <<< 4)

def write (self : SubscriptionOptions) : WResult := writeByte self.toU8

end SubscriptionOptions

structure Subscription where
  topicFilter : String
  options : SubscriptionOptions
  deriving DecidableEq

namespace Subscription

def parse : MParser Subscription := do
  let topicFilter ← parseString
  let options ← SubscriptionOptions.parse
  pure ⟨topicFilter, options⟩

def write (self : Subscription) : WResult := do
  writeString self.topicFilter
  self.options.write

def Fits (self : Subscription) : Prop := len self.topicFilter ≤ 65535

def bytes (self : Subscription) : List UInt8 :=
  prefixed (asBytes self.topicFilter) ++ [self.options.toU8]

end Subscription

abbrev Subscriptions : Type := ItemSlice Subscription

structure MSubscribe where
  packetIdentifier : PacketIdentifier
  properties : Properties subscribeFields
  subscriptions : Subscriptions

namespace MSubscribe

def parse : MParser MSubscribe := do
  let packetIdentifier ← PacketIdentifier.parse
  let properties ← Properties.parse subscribeFields
  let subscriptions ← ItemSlice.parse Subscription.parse
  pure ⟨packetIdentifier, properties, subscriptions⟩

def binarySize [Build] (self : MSubscribe) : Size :=
  self.packetIdentifier.binarySize + self.properties.binarySize + self.subscriptions.binarySize

def write [Build] (self : MSubscribe) : WResult := do
  self.packetIdentifier.write
  self.properties.write
  self.subscriptions.write Subscription.parse Subscription.write

def eq (self other : MSubscribe) : Except Panic Bool :=
  andAlso (.ok (decide (self.packetIdentifier = other.packetIdentifier)))
    (andAlso (self.properties.eq other.properties)
      (self.subscriptions.eq Subscription.parse other.subscriptions))

end MSubscribe

/-! ### UNSUBSCRIBE -/

def unsubscribeFields : List PropertyKind := [.subscriptionIdentifier, .userProperties]

structure Unsubscription where
  topicFilter : String
  deriving DecidableEq

def Unsubscription.parse : MParser Unsubscription := Unsubscription.mk <$> parseString

def Unsubscription.write (self : Unsubscription) : WResult := writeString self.topicFilter

def Unsubscription.Fits (self : Unsubscription) : Prop := len self.topicFilter ≤ 65535

def Unsubscription.bytes (self : Unsubscription) : List UInt8 :=
  prefixed (asBytes self.topicFilter)

abbrev Unsubscriptions : Type := ItemSlice Unsubscription

structure MUnsubscribe where
  packetIdentifier : PacketIdentifier
  properties : Properties unsubscribeFields
  unsubscriptions : Unsubscriptions

namespace MUnsubscribe

def parse : MParser MUnsubscribe := do
  let packetIdentifier ← PacketIdentifier.parse
  let properties ← Properties.parse unsubscribeFields
  let unsubscriptions ← ItemSlice.parse Unsubscription.parse
  pure ⟨packetIdentifier, properties, unsubscriptions⟩

def binarySize [Build] (self : MUnsubscribe) : Size :=
  self.packetIdentifier.binarySize + self.properties.binarySize + self.unsubscriptions.binarySize

def write [Build] (self : MUnsubscribe) : WResult := do
  self.packetIdentifier.write
  self.properties.write
  self.unsubscriptions.write Unsubscription.parse Unsubscription.write

def eq (self other : MUnsubscribe) : Except Panic Bool :=
  andAlso (.ok (decide (self.packetIdentifier = other.packetIdentifier)))
    (andAlso (self.properties.eq other.properties)
      (self.unsubscriptions.eq Unsubscription.parse other.unsubscriptions))

end MUnsubscribe

/-! ### Laws -/

namespace ItemSlice

variable {α : Type} {item : MParser α} {writeItem : α → WResult}

theorem parse_eq_ok (shrinks : item.Shrinks) {input rest : List UInt8} {self : ItemSlice α} :
    parse item input = .ok (self, rest) ↔ self.start = input ∧ rest = [] ∧
      ∃ items, Parser.Items item input items ∧ 1 ≤ items.length := by
  obtain ⟨start⟩ := self
  simp only [parse, Parser.map_eq_ok, Parser.recognize_repeat_eq_ok shrinks, mk.injEq]
  constructor
  · rintro ⟨_, ⟨rfl, rfl, read⟩, rfl⟩
    exact ⟨rfl, rfl, read⟩
  · rintro ⟨rfl, rfl, read⟩
    exact ⟨_, ⟨rfl, rfl, read⟩, rfl⟩

theorem yields {input : List UInt8} {as : List α} (read : Parser.Items item input as) :
    Yields (next item) input as := by
  induction read with
  | nil => exact .done rfl
  | @cons input rest a as nonempty head _ ih =>
    cases input with
    | nil => exact absurd rfl nonempty
    | cons b bytes => exact .item (by simp [next, head]) ih

theorem items_eq (shrinks : item.Shrinks) {self : ItemSlice α} {as : List α}
    (read : Parser.Items item self.start as) : items item self = ⟨as, none⟩ :=
  (yields read).drain (Nat.lt_succ_of_le (read.length_le shrinks))

theorem next_eq_some {s later : List UInt8} {a : α} :
    next item s = .ok (some (a, later)) ↔ s ≠ [] ∧ item s = .ok (a, later) := by
  cases s with
  | nil => simp [next]
  | cons b bytes =>
    simp only [next, ne_eq, reduceCtorEq, not_false_iff, true_and]
    cases item (b :: bytes) <;> simp

theorem next_eq_none {s : List UInt8} : next item s = .ok none ↔ s = [] := by
  cases s with
  | nil => simp [next]
  | cons b bytes =>
    simp only [next, reduceCtorEq, iff_false]
    cases item (b :: bytes) <;> simp

theorem items_of_yields {input : List UInt8} {as : List α} (yields : Yields (next item) input as) :
    Parser.Items item input as := by
  induction yields with
  | done last =>
    obtain rfl := next_eq_none.mp last
    exact .nil
  | item head _ ih =>
    obtain ⟨nonempty, read⟩ := next_eq_some.mp head
    exact .cons nonempty read ih

theorem read_of_ended (shrinks : item.Shrinks) {self : ItemSlice α}
    (ended : (items item self).failure = none) :
    Parser.Items item self.start (items item self).items :=
  items_of_yields (yields_of_drain List.length
    (fun step => shrinks _ _ _ (next_eq_some.mp step).2) (Nat.lt_succ_self _) ended)

/-- Each value has one encoding: what is read is what would be written. -/
def Canonical (item : MParser α) (writeItem : α → WResult) : Prop :=
  ∀ ⦃input rest : List UInt8⦄ ⦃a : α⦄, item input = .ok (a, rest) →
    ∃ bytes, (writeItem a).Emits bytes () ∧ input = bytes ++ rest

/-- Items are read and written in one encoding, and it takes at least a byte. -/
structure OneEncoding (item : MParser α) (writeItem : α → WResult) (fits : α → Prop)
    (bytes : α → List UInt8) : Prop where
  parses : item.Canonical fits bytes
  writes : ∀ a written, (writeItem a).Emits written () ↔ fits a ∧ written = bytes a
  nonempty : ∀ a, fits a → bytes a ≠ []

theorem OneEncoding.shrinks {fits : α → Prop} {bytes : α → List UInt8}
    (encoding : OneEncoding item writeItem fits bytes) : item.Shrinks :=
  encoding.parses.shrinks encoding.nonempty

theorem OneEncoding.canonical {fits : α → Prop} {bytes : α → List UInt8}
    (encoding : OneEncoding item writeItem fits bytes) : Canonical item writeItem := by
  intro input rest a read
  obtain ⟨ok, rfl⟩ := (encoding.parses _ _ _).mp read
  exact ⟨bytes a, (encoding.writes a _).mpr ⟨ok, rfl⟩, rfl⟩

/-- Items in the format's own encoding are written as the slice they were read from. -/
theorem write_emits (shrinks : item.Shrinks) (canonical : Canonical item writeItem)
    {self : ItemSlice α} {as : List α} (read : Parser.Items item self.start as) :
    (write item writeItem self).Emits self.start () := by
  have all : (Emit.each writeItem as).Emits self.start () := by
    clear shrinks
    generalize self.start = input at read
    induction read with
    | nil => exact Emit.pure_emits.mpr ⟨rfl, rfl⟩
    | cons _ head _ ih =>
      obtain ⟨bytes, emits, rfl⟩ := canonical head
      exact Emit.seq_emits.mpr ⟨bytes, _, emits, ih, rfl⟩
  rw [write, items_eq shrinks read]
  exact Emit.seq_emits.mpr ⟨self.start, [], all, Emit.pure_emits.mpr ⟨rfl, rfl⟩, by simp⟩

theorem write_no_error (canonical : Canonical item writeItem)
    (self : ItemSlice α) (e : MqttWriteError) :
    (write item writeItem self).outcome = .error (.error e) ↔ False := by
  have each : ∀ a ∈ (items item self).items, (writeItem a).Ends (.error e) False := by
    intro a member
    obtain ⟨before, later, step⟩ := exists_next_of_mem member
    obtain ⟨bytes, emits, -⟩ := canonical (next_eq_some.mp step).2
    exact .of_emits emits id
  have all := (Emit.Ends.each each).congr (by simp : _ ↔ False)
  refine (all.seq_error_iff ?_).trans or_self_iff
  cases (items item self).failure <;> simp

theorem write_eq_start (shrinks : item.Shrinks) (canonical : Canonical item writeItem)
    {self : ItemSlice α} {bytes : List UInt8} (emits : (write item writeItem self).Emits bytes ()) :
    bytes = self.start := by
  have ended : (items item self).failure = none := by
    obtain ⟨_, _, -, last, -⟩ := Emit.seq_emits.mp emits
    cases failed : (items item self).failure with
    | none => rfl
    | some p =>
      rw [failed] at last
      exact absurd last Emit.fault_emits
  exact (emits.unique (write_emits shrinks canonical (read_of_ended shrinks ended))).1

theorem body [DecidableEq α] (shrinks : item.Shrinks) (canonical : Canonical item writeItem) :
    Body 0 (Valid item) (eq item) (parse item) binarySize (write item writeItem) where
  reads {self _} valid emits _ := by
    obtain ⟨input, rest, run⟩ := valid
    obtain ⟨rfl, rfl, as, read, least⟩ := (parse_eq_ok shrinks).mp run
    obtain ⟨rfl, -⟩ := emits.unique (write_emits shrinks canonical read)
    refine ⟨self, run, ?_⟩
    rw [eq, Drained.eq_true_iff, items_eq shrinks read]
    exact ⟨rfl, rfl⟩
  size _ emits := by
    rw [write_eq_start shrinks canonical emits]
    exact Size.announces_cast _
  rewrites {input rest self} run := by
    refine ⟨⟨input, rest, run⟩, self.start, ?_⟩
    obtain ⟨rfl, rfl, as, read, least⟩ := (parse_eq_ok shrinks).mp run
    exact ⟨write_emits shrinks canonical read, by simp⟩

/-- The size of a packet that ends with a slice; nothing else is required of the slice. -/
theorem packet_size [Build] (shrinks : item.Shrinks) (canonical : Canonical item writeItem)
    {identifier : PacketIdentifier} {fields : List PropertyKind} {properties : Properties fields}
    (valid : properties.Valid) {self : ItemSlice α} {bytes : List UInt8}
    (emits : (do identifier.write; properties.write; write item writeItem self).Emits bytes ()) :
    (identifier.binarySize + properties.binarySize + self.binarySize).Announces bytes.length := by
  obtain ⟨s, t, u, first, second, last, rfl⟩ := Emit.seq_seq_emits.mp emits
  obtain rfl := write_eq_start shrinks canonical last
  rw [← List.append_assoc, List.length_append, List.length_append]
  exact ((PacketIdentifier.exact.size first).add (Properties.size valid second)).add
    (Size.announces_cast _)

end ItemSlice

theorem SubscriptionOptions.tryFrom_eq_some {byte : UInt8} {self : SubscriptionOptions} :
    tryFrom byte = some self ↔ byte = self.toU8 := by
  apply tryFrom_eq_some_of_forall
  · decide +kernel
  · intro options
    obtain ⟨qos, noLocal, retainAsPublished, retainHandling⟩ := options
    cases qos <;> cases noLocal <;> cases retainAsPublished <;> cases retainHandling <;> rfl

theorem SubscriptionOptions.exact :
    Exact SubscriptionOptions.parse (fun _ => 1) SubscriptionOptions.write :=
  enum_exact fun _ _ => SubscriptionOptions.tryFrom_eq_some

theorem Subscription.parse_local : Subscription.parse.Local :=
  parseString_exact.isLocal.bind fun _ => SubscriptionOptions.exact.isLocal.bind fun _ => .pure _

theorem Subscription.parse_canonical :
    Subscription.parse.Canonical Subscription.Fits Subscription.bytes := by
  intro input rest self
  constructor
  · intro run
    obtain ⟨topicFilter, middle, options, read, optionsRead, rfl⟩ := Parser.pair_eq_ok.mp run
    obtain ⟨short, rfl⟩ := parseString_eq_ok.mp read
    obtain ⟨byte, byteRead, found⟩ := Parser.tryMap_eq_ok.mp optionsRead
    obtain rfl := u8_eq_ok.mp byteRead
    obtain rfl := SubscriptionOptions.tryFrom_eq_some.mp found
    refine ⟨short, ?_⟩
    rw [bytes, List.append_assoc, List.singleton_append]
  · rintro ⟨short, rfl⟩
    have options := SubscriptionOptions.exact.reads (a := self.options) (writeByte_emits.mpr rfl)
    rw [bytes, List.append_assoc]
    exact Parser.pair_eq_ok.mpr
      ⟨_, _, _, parseString_eq_ok.mpr ⟨short, rfl⟩, options rest, rfl⟩

theorem Subscription.write_emits {self : Subscription} {written : List UInt8} :
    self.write.Emits written () ↔ self.Fits ∧ written = self.bytes := by
  simp only [write, Emit.seq_emits, writeString_emits, SubscriptionOptions.write, writeByte_emits]
  constructor
  · rintro ⟨_, _, ⟨short, rfl⟩, rfl, rfl⟩
    exact ⟨short, rfl⟩
  · rintro ⟨short, rfl⟩
    exact ⟨_, _, ⟨short, rfl⟩, rfl, rfl⟩

theorem Subscription.oneEncoding :
    ItemSlice.OneEncoding Subscription.parse Subscription.write Subscription.Fits
      Subscription.bytes where
  parses := parse_canonical
  writes _ _ := write_emits
  nonempty _ _ := by simp [bytes]

theorem Subscription.parse_shrinks : Subscription.parse.Shrinks := oneEncoding.shrinks

theorem Subscription.canonical : ItemSlice.Canonical Subscription.parse Subscription.write :=
  oneEncoding.canonical

theorem Unsubscription.parse_canonical :
    Unsubscription.parse.Canonical Unsubscription.Fits Unsubscription.bytes := by
  intro input rest self
  constructor
  · intro run
    obtain ⟨topicFilter, read, rfl⟩ := Parser.map_eq_ok.mp run
    exact parseString_eq_ok.mp read
  · intro split
    exact Parser.map_eq_ok.mpr ⟨self.topicFilter, parseString_eq_ok.mpr split, rfl⟩

theorem Unsubscription.write_emits {self : Unsubscription} {written : List UInt8} :
    self.write.Emits written () ↔ self.Fits ∧ written = self.bytes :=
  writeString_emits

theorem Unsubscription.oneEncoding :
    ItemSlice.OneEncoding Unsubscription.parse Unsubscription.write Unsubscription.Fits
      Unsubscription.bytes where
  parses := parse_canonical
  writes _ _ := write_emits
  nonempty self _ := by
    apply List.ne_nil_of_length_pos
    rw [bytes, length_prefixed]
    omega

theorem Unsubscription.parse_shrinks : Unsubscription.parse.Shrinks := oneEncoding.shrinks

theorem Unsubscription.canonical :
    ItemSlice.Canonical Unsubscription.parse Unsubscription.write :=
  oneEncoding.canonical

variable [Build]

theorem MSubscribe.body :
    Body 0 (fun self : MSubscribe =>
        self.properties.Valid ∧ self.subscriptions.Valid Subscription.parse)
      MSubscribe.eq MSubscribe.parse MSubscribe.binarySize MSubscribe.write :=
  Body.after_two PacketIdentifier.exact (Properties.faithful (by decide))
    (ItemSlice.body Subscription.parse_shrinks Subscription.canonical) MSubscribe.mk
    MSubscribe.packetIdentifier MSubscribe.properties MSubscribe.subscriptions (fun _ _ _ => rfl)
    (fun _ _ _ => rfl) (fun _ _ _ => rfl)

theorem MSubscribe.size {self : MSubscribe} (valid : self.properties.Valid) {bytes : List UInt8}
    (emits : self.write.Emits bytes ()) : self.binarySize.Announces bytes.length :=
  ItemSlice.packet_size Subscription.parse_shrinks Subscription.canonical valid emits

theorem MUnsubscribe.body :
    Body 0 (fun self : MUnsubscribe =>
        self.properties.Valid ∧ self.unsubscriptions.Valid Unsubscription.parse)
      MUnsubscribe.eq MUnsubscribe.parse MUnsubscribe.binarySize MUnsubscribe.write :=
  Body.after_two PacketIdentifier.exact (Properties.faithful (by decide))
    (ItemSlice.body Unsubscription.parse_shrinks Unsubscription.canonical) MUnsubscribe.mk
    MUnsubscribe.packetIdentifier MUnsubscribe.properties MUnsubscribe.unsubscriptions
    (fun _ _ _ => rfl) (fun _ _ _ => rfl) (fun _ _ _ => rfl)

theorem MUnsubscribe.size {self : MUnsubscribe} (valid : self.properties.Valid)
    {bytes : List UInt8} (emits : self.write.Emits bytes ()) :
    self.binarySize.Announces bytes.length :=
  ItemSlice.packet_size Unsubscription.parse_shrinks Unsubscription.canonical valid emits

end V5
