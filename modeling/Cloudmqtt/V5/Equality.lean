import Cloudmqtt.V5.RoundTrip

/-! Packets compare equal exactly when they are written as the same bytes.

Equality does not look at the slices the packets borrow. User properties and
subscriptions are iterated over, and a failing iterator unwinds the comparison.
-/

set_option autoImplicit false

namespace V5

open Base Rust

/-- A comparison that can unwind, but not on valid values. -/
structure Equality {α : Type} (valid : α → Prop) (eq : α → α → Except Panic Bool) : Prop where
  decides : ∀ {a b : α}, valid a → valid b → ∃ same, eq a b = .ok same
  euclid : ∀ {a b c : α}, eq a b = .ok true → eq a c = .ok true → eq b c = .ok true

namespace Equality

variable {α β : Type} {valid other : α → Prop} {eq eq' : α → α → Except Panic Bool}

theorem mono (equality : Equality valid eq) (weaker : ∀ {a : α}, other a → valid a) :
    Equality other eq where
  decides first second := equality.decides (weaker first) (weaker second)
  euclid := equality.euclid

theorem decided {alike : α → α → Prop} [DecidableRel alike]
    (euclid : ∀ a b c, alike a b → alike a c → alike b c) :
    Equality (fun _ => True) fun a b => .ok (decide (alike a b)) where
  decides _ _ := ⟨_, rfl⟩
  euclid := by
    intro a b c first second
    simp only [Except.ok.injEq, decide_eq_true_eq] at first second ⊢
    exact euclid a b c first second

theorem exact [DecidableEq β] (view : α → β) :
    Equality (fun _ => True) fun a b : α => .ok (decide (view a = view b)) :=
  decided fun _ _ _ first second => first.symm.trans second

theorem on {valid : β → Prop} {eq : β → β → Except Panic Bool} (equality : Equality valid eq)
    (part : α → β) : Equality (fun a => valid (part a)) fun a b => eq (part a) (part b) where
  decides first second := equality.decides first second
  euclid first second := equality.euclid first second

theorem and (first : Equality valid eq) (second : Equality other eq') :
    Equality (fun a => valid a ∧ other a) fun a b => andAlso (eq a b) (eq' a b) where
  decides := by
    intro a b left right
    obtain ⟨same, run⟩ := first.decides left.1 right.1
    simp only [run]
    cases same with
    | true => exact second.decides left.2 right.2
    | false => exact ⟨false, rfl⟩
  euclid := by
    intro a b c left right
    have left := andAlso_eq_true.mp left
    have right := andAlso_eq_true.mp right
    exact andAlso_eq_true.mpr ⟨first.euclid left.1 right.1, second.euclid left.2 right.2⟩

theorem option (equality : Equality valid eq) :
    Equality (fun a => ∀ b, a = some b → valid b) (optionEq eq) where
  decides := by
    intro a b first second
    cases a with
    | none => cases b <;> exact ⟨_, rfl⟩
    | some a =>
      cases b with
      | none => exact ⟨_, rfl⟩
      | some b => exact equality.decides (first a rfl) (second b rfl)
  euclid := by
    intro a b c first second
    cases a with
    | none =>
      cases b with
      | some b => simp [optionEq] at first
      | none =>
        cases c with
        | some c => simp [optionEq] at second
        | none => rfl
    | some a =>
      cases b with
      | none => simp [optionEq] at first
      | some b =>
        cases c with
        | none => simp [optionEq] at second
        | some c => exact equality.euclid first second

theorem drained [DecidableEq β] (items : α → Drained Panic β) :
    Equality (fun a => (items a).failure = none) fun a b => (items a).eq (items b) where
  decides := by
    intro a b first second
    exact Drained.eq_of_ended first second
  euclid := by
    intro a b c first second
    obtain ⟨left, ended⟩ := Drained.eq_true_iff.mp first
    obtain ⟨right, -⟩ := Drained.eq_true_iff.mp second
    exact Drained.eq_true_iff.mpr ⟨left.symm.trans right, left ▸ ended⟩

end Equality

/-! ### User properties and sections -/

theorem UserProperties.equality : Equality UserProperties.Valid UserProperties.eq :=
  (Equality.drained UserProperties.pairs).mono UserProperties.valid_iff.mp

def Shape.Iterates : (shape : Shape) → shape.Value → Prop
  | userProperties, prop => prop.Valid
  | _, _ => True

theorem Shape.iterates_plain {shape : Shape} (plain : shape ≠ .userProperties)
    (value : shape.Value) : shape.Iterates value := by
  cases shape with
  | userProperties => exact absurd rfl plain
  | _ => trivial

theorem Shape.equality (shape : Shape) : Equality shape.Iterates shape.eq := by
  by_cases user : shape = .userProperties
  · subst user
    exact UserProperties.equality
  · constructor
    · intro a b _ _
      cases shape with
      | userProperties => exact absurd rfl user
      | _ => exact ⟨_, rfl⟩
    · intro a b c first second
      have left := (Shape.eq_plain user a b).mp first
      have right := (Shape.eq_plain user a c).mp second
      exact (Shape.eq_plain user b c).mpr (left.symm.trans right)

namespace Properties

variable {fields : List PropertyKind}

theorem slotEq_eq (kind : PropertyKind) : slotEq kind = optionEq kind.shape.eq := by
  funext a b
  cases a <;> cases b <;> rfl

theorem eqAmong_cons (first second : Slots) (kind : PropertyKind) (more : List PropertyKind) :
    eqAmong first second (kind :: more) =
      andAlso (slotEq kind (first kind) (second kind)) (eqAmong first second more) := by
  rw [eqAmong]
  cases slotEq kind (first kind) (second kind) with
  | error p => rfl
  | ok same => cases same <;> rfl

theorem eqAmong_equality (kinds : List PropertyKind) :
    Equality (fun slots => ∀ kind ∈ kinds, ∀ value, slots kind = some value →
      kind.shape.Iterates value) fun first second => eqAmong first second kinds := by
  induction kinds with
  | nil => exact ⟨fun _ _ => ⟨true, rfl⟩, fun _ _ => rfl⟩
  | cons kind more ih =>
    simp only [eqAmong_cons, slotEq_eq, List.forall_mem_cons]
    exact (kind.shape.equality.option.on fun slots : Slots => slots kind).and ih

theorem Valid.iterates {self : Properties fields} (valid : self.Valid) {kind : PropertyKind}
    {value : kind.Value} (held : self.slot kind = some value) : kind.shape.Iterates value := by
  by_cases user : kind = .userProperties
  · subst user
    exact valid value held
  · exact Shape.iterates_plain (mt PropertyKind.shape_eq_userProperties.mp user) value

theorem equality : Equality (Valid : Properties fields → Prop) eq :=
  ((eqAmong_equality fields).on slot).mono fun valid _ _ _ held => valid.iterates held

theorem slot_congr [Build] {first second : Properties fields} {kind : PropertyKind}
    (same : slotEq kind (first.slot kind) (second.slot kind) = .ok true) :
    first.slotSize kind = second.slotSize kind ∧ first.writeSlot kind = second.writeSlot kind := by
  simp only [slotSize, writeSlot]
  cases held : first.slot kind with
  | none =>
    cases held' : second.slot kind with
    | none => exact ⟨rfl, rfl⟩
    | some value => simp [held, held', slotEq] at same
  | some value =>
    cases held' : second.slot kind with
    | none => simp [held, held', slotEq] at same
    | some value' =>
      simp only [held, held', slotEq] at same
      by_cases user : kind = .userProperties
      · subst user
        have pairs : value.pairs = value'.pairs := (Drained.eq_true_iff.mp same).1
        have size : value.binarySize = value'.binarySize := by
          simp only [UserProperties.binarySize, pairs]
        have write : value.write = value'.write := by
          simp only [UserProperties.write, pairs]
        exact ⟨congrArg (_ + ·) size, by simp only [Shape.write, write]⟩
      · have plain := mt PropertyKind.shape_eq_userProperties.mp user
        rw [(Shape.eq_plain plain value value').mp same]
        exact ⟨rfl, rfl⟩

theorem write_congr [Build] {first second : Properties fields}
    (same : first.eq second = .ok true) : first.write = second.write := by
  have slots := eqAmong_eq_true.mp same
  have size : first.propSize = second.propSize := by
    apply List.foldl_ext
    intro total kind member
    rw [(slot_congr (slots kind member)).1]
  have each : Emit.each first.writeSlot fields = Emit.each second.writeSlot fields := by
    apply Emit.each_congr
    intro kind member
    exact (slot_congr (slots kind member)).2
  rw [write, write, size, each]

theorem eq_new_congr {first second : Properties fields} (same : first.eq second = .ok true) :
    first.eq (new fields) = second.eq (new fields) := by
  have slots := eqAmong_eq_true.mp same
  rw [eq_new, eq_new, Except.ok.injEq]
  apply Bool.eq_iff_iff.mpr
  rw [List.all_eq_true, List.all_eq_true]
  apply forall₂_congr
  intro kind member
  have slot := slots kind member
  cases held : first.slot kind <;> cases held' : second.slot kind <;>
    simp [held, held', slotEq] at slot ⊢

end Properties

/-! ### Packet types -/

def ItemSlice.Ended {α : Type} (item : MParser α) (self : ItemSlice α) : Prop :=
  (items item self).failure = none

theorem ItemSlice.Valid.ended {α : Type} {item : MParser α} (shrinks : item.Shrinks)
    {self : ItemSlice α} (valid : self.Valid item) : self.Ended item := by
  obtain ⟨input, rest, run⟩ := valid
  obtain ⟨rfl, -, as, read, -⟩ := (parse_eq_ok shrinks).mp run
  rw [Ended, items_eq shrinks read]

/-- Slices with the same items are the same bytes, as each item has one encoding. -/
theorem ItemSlice.start_congr {α : Type} [DecidableEq α] {item : MParser α}
    {writeItem : α → WResult} (shrinks : item.Shrinks) (canonical : Canonical item writeItem)
    {first second : ItemSlice α} (same : first.eq item second = .ok true) : first = second := by
  obtain ⟨items, ended⟩ := Drained.eq_true_iff.mp same
  have left := write_emits shrinks canonical (read_of_ended shrinks ended)
  have right := write_emits shrinks canonical (read_of_ended shrinks (items ▸ ended))
  rw [write, items] at left
  exact congrArg mk (left.unique right).1

theorem ItemSlice.equality {α : Type} [DecidableEq α] (item : MParser α) :
    Equality (Ended item) (eq item) :=
  .drained (items item)

variable {combined : CombinedCodes}

theorem MAuth.equality : Equality (fun self : MAuth => self.properties.Valid) MAuth.eq :=
  ((Equality.exact MAuth.reason).and (Properties.equality.on MAuth.properties)).mono
    fun valid => ⟨trivial, valid⟩

theorem MConnack.equality :
    Equality (fun self : MConnack => self.properties.Valid) MConnack.eq :=
  ((Equality.exact MConnack.sessionPresent).and ((Equality.exact MConnack.reasonCode).and
    (Properties.equality.on MConnack.properties))).mono fun valid => ⟨trivial, trivial, valid⟩

theorem MDisconnect.equality :
    Equality (fun self : MDisconnect => self.properties.Valid) MDisconnect.eq :=
  ((Equality.exact MDisconnect.reasonCode).and (Properties.equality.on MDisconnect.properties)).mono
    fun valid => ⟨trivial, valid⟩

theorem Acknowledge.equality :
    Equality (fun self : Acknowledge combined => self.properties.Valid) Acknowledge.eq :=
  ((Equality.exact Acknowledge.packetIdentifier).and ((Equality.exact Acknowledge.reason).and
    (Properties.equality.on Acknowledge.properties))).mono fun valid => ⟨trivial, trivial, valid⟩

theorem AcknowledgeAll.equality :
    Equality (fun self : AcknowledgeAll combined => self.properties.Valid) AcknowledgeAll.eq :=
  ((Equality.exact AcknowledgeAll.packetIdentifier).and
    ((Properties.equality.on AcknowledgeAll.properties).and
      (Equality.exact AcknowledgeAll.reasons))).mono fun valid => ⟨trivial, valid, trivial⟩

theorem Will.equality : Equality (fun self : Will => self.properties.Valid) Will.eq :=
  ((Properties.equality.on Will.properties).and (.decided fun _ _ _ first second => by
    simp_all)).mono fun valid => ⟨valid, trivial⟩

theorem MConnect.equality : Equality MConnect.Valid MConnect.eq :=
  (Equality.and (.decided fun _ _ _ first second => by simp_all)
    ((Will.equality.option.on MConnect.will).and ((Properties.equality.on MConnect.properties).and
      (Equality.exact MConnect.keepAlive)))).mono
    fun valid => ⟨trivial, valid.will, valid.properties, trivial⟩

theorem MPublish.equality : Equality MPublish.Valid MPublish.eq :=
  (Equality.and (.decided fun _ _ _ first second => by simp_all)
    ((Properties.equality.on MPublish.properties).and (Equality.exact MPublish.payload))).mono
    fun valid => ⟨trivial, valid.properties, trivial⟩

theorem MSubscribe.equality :
    Equality (fun self : MSubscribe => self.properties.Valid ∧
      self.subscriptions.Valid Subscription.parse) MSubscribe.eq :=
  ((Equality.exact MSubscribe.packetIdentifier).and
    ((Properties.equality.on MSubscribe.properties).and
      ((ItemSlice.equality Subscription.parse).on MSubscribe.subscriptions))).mono
    fun valid => ⟨trivial, valid.1, valid.2.ended Subscription.parse_shrinks⟩

theorem MUnsubscribe.equality :
    Equality (fun self : MUnsubscribe => self.properties.Valid ∧
      self.unsubscriptions.Valid Unsubscription.parse) MUnsubscribe.eq :=
  ((Equality.exact MUnsubscribe.packetIdentifier).and
    ((Properties.equality.on MUnsubscribe.properties).and
      ((ItemSlice.equality Unsubscription.parse).on MUnsubscribe.unsubscriptions))).mono
    fun valid => ⟨trivial, valid.1, valid.2.ended Unsubscription.parse_shrinks⟩

section

variable [Build]

theorem MAuth.write_congr {first second : MAuth} (same : first.eq second = .ok true) :
    first.write = second.write := by
  obtain ⟨reason, properties⟩ := andAlso_eq_true.mp same
  rw [write, write, of_decide_eq_true (Except.ok.inj reason), Properties.write_congr properties]

theorem MConnack.write_congr {first second : MConnack} (same : first.eq second = .ok true) :
    first.write = second.write := by
  obtain ⟨present, same⟩ := andAlso_eq_true.mp same
  obtain ⟨reason, properties⟩ := andAlso_eq_true.mp same
  rw [write, write, eq_of_beq (Except.ok.inj present), of_decide_eq_true (Except.ok.inj reason),
    Properties.write_congr properties]

-- A packet that compares equal to the default one is the default one.
theorem MDisconnect.write_congr {first second : MDisconnect} (same : first.eq second = .ok true) :
    first.write = second.write := by
  obtain ⟨reason, properties⟩ := andAlso_eq_true.mp same
  have reason : first.reasonCode = second.reasonCode := of_decide_eq_true (Except.ok.inj reason)
  have packet : first.isShortPacket = second.isShortPacket := by
    rw [isShortPacket, isShortPacket, reason, Properties.eq_new_congr properties]
  rw [write, write, packet, reason, Properties.write_congr properties]

theorem Acknowledge.write_congr {first second : Acknowledge combined}
    (same : first.eq second = .ok true) : first.write = second.write := by
  obtain ⟨identifier, same⟩ := andAlso_eq_true.mp same
  obtain ⟨reason, properties⟩ := andAlso_eq_true.mp same
  rw [write, write, of_decide_eq_true (Except.ok.inj identifier),
    of_decide_eq_true (Except.ok.inj reason), Properties.write_congr properties]

theorem AcknowledgeAll.write_congr {first second : AcknowledgeAll combined}
    (same : first.eq second = .ok true) : first.write = second.write := by
  obtain ⟨identifier, same⟩ := andAlso_eq_true.mp same
  obtain ⟨properties, reasons⟩ := andAlso_eq_true.mp same
  rw [write, write, of_decide_eq_true (Except.ok.inj identifier),
    of_decide_eq_true (Except.ok.inj reasons), Properties.write_congr properties]

theorem Will.write_congr {first second : Will} (same : first.eq second = .ok true) :
    first.write = second.write ∧ first.willQos = second.willQos ∧
      first.willRetain = second.willRetain := by
  obtain ⟨properties, rest⟩ := andAlso_eq_true.mp same
  obtain ⟨topic, payload, qos, retain⟩ := of_decide_eq_true (Except.ok.inj rest)
  constructor
  · rw [write, write, topic, payload, Properties.write_congr properties]
  · exact ⟨qos, retain⟩

theorem MConnect.write_congr {first second : MConnect} (same : first.eq second = .ok true) :
    first.write = second.write := by
  obtain ⟨parts, same⟩ := andAlso_eq_true.mp same
  obtain ⟨identifier, username, password, cleanStart⟩ := of_decide_eq_true (Except.ok.inj parts)
  obtain ⟨will, same⟩ := andAlso_eq_true.mp same
  obtain ⟨properties, keepAlive⟩ := andAlso_eq_true.mp same
  have keepAlive : first.keepAlive = second.keepAlive :=
    of_decide_eq_true (Except.ok.inj keepAlive)
  have wills : writeOption Will.write first.will = writeOption Will.write second.will ∧
      willFlags first.will = willFlags second.will := by
    cases held : first.will with
    | none =>
      cases held' : second.will with
      | none => exact ⟨rfl, rfl⟩
      | some other => simp [held, held', optionEq] at will
    | some w =>
      cases held' : second.will with
      | none => simp [held, held', optionEq] at will
      | some other =>
        rw [held, held'] at will
        obtain ⟨written, qos, retain⟩ := Will.write_congr will
        exact ⟨written, by rw [willFlags, willFlags, qos, retain]⟩
  have flags : first.flags = second.flags := by
    rw [MConnect.flags, MConnect.flags, wills.2, cleanStart, password, username]
  rw [write, write, flags, wills.1, identifier, username, password, keepAlive,
    Properties.write_congr properties]

theorem MPublish.write_congr {first second : MPublish} (same : first.eq second = .ok true) :
    first.write = second.write ∧ first.duplicate = second.duplicate ∧
      first.qualityOfService = second.qualityOfService ∧ first.retain = second.retain := by
  obtain ⟨parts, same⟩ := andAlso_eq_true.mp same
  obtain ⟨duplicate, qos, retain, topic, identifier⟩ := of_decide_eq_true (Except.ok.inj parts)
  obtain ⟨properties, payload⟩ := andAlso_eq_true.mp same
  constructor
  · rw [write, write, topic, identifier, of_decide_eq_true (Except.ok.inj payload),
      Properties.write_congr properties]
    simp only [qos]
  · exact ⟨duplicate, qos, retain⟩

theorem MSubscribe.write_congr {first second : MSubscribe} (same : first.eq second = .ok true) :
    first.write = second.write := by
  obtain ⟨identifier, same⟩ := andAlso_eq_true.mp same
  obtain ⟨properties, items⟩ := andAlso_eq_true.mp same
  have items : first.subscriptions = second.subscriptions :=
    ItemSlice.start_congr Subscription.parse_shrinks Subscription.canonical items
  rw [write, write, of_decide_eq_true (Except.ok.inj identifier), items,
    Properties.write_congr properties]

theorem MUnsubscribe.write_congr {first second : MUnsubscribe}
    (same : first.eq second = .ok true) : first.write = second.write := by
  obtain ⟨identifier, same⟩ := andAlso_eq_true.mp same
  obtain ⟨properties, items⟩ := andAlso_eq_true.mp same
  have items : first.unsubscriptions = second.unsubscriptions :=
    ItemSlice.start_congr Unsubscription.parse_shrinks Unsubscription.canonical items
  rw [write, write, of_decide_eq_true (Except.ok.inj identifier), items,
    Properties.write_congr properties]

end

namespace MqttPacket

theorem equality : Equality Valid eq where
  decides {p q} first second := by
    cases p <;> cases q
    case auth.auth => exact MAuth.equality.decides first second
    case connack.connack => exact MConnack.equality.decides first second
    case connect.connect => exact MConnect.equality.decides first second
    case disconnect.disconnect => exact MDisconnect.equality.decides first second
    case puback.puback => exact Acknowledge.equality.decides first second
    case pubcomp.pubcomp => exact Acknowledge.equality.decides first second
    case publish.publish => exact MPublish.equality.decides first second
    case pubrec.pubrec => exact Acknowledge.equality.decides first second
    case pubrel.pubrel => exact Acknowledge.equality.decides first second
    case suback.suback => exact AcknowledgeAll.equality.decides first second
    case subscribe.subscribe => exact MSubscribe.equality.decides first second
    case unsuback.unsuback => exact AcknowledgeAll.equality.decides first second
    case unsubscribe.unsubscribe => exact MUnsubscribe.equality.decides first second
    all_goals exact ⟨_, rfl⟩
  euclid {p q r} first second := by
    -- packets of different types are never equal
    cases p <;> cases q <;> simp only [eq, Except.ok.injEq, Bool.false_eq_true] at first <;>
      cases r <;> simp only [eq, Except.ok.injEq, Bool.false_eq_true] at second
    case auth.auth.auth => exact MAuth.equality.euclid first second
    case connack.connack.connack => exact MConnack.equality.euclid first second
    case connect.connect.connect => exact MConnect.equality.euclid first second
    case disconnect.disconnect.disconnect => exact MDisconnect.equality.euclid first second
    case puback.puback.puback => exact Acknowledge.equality.euclid first second
    case pubcomp.pubcomp.pubcomp => exact Acknowledge.equality.euclid first second
    case publish.publish.publish => exact MPublish.equality.euclid first second
    case pubrec.pubrec.pubrec => exact Acknowledge.equality.euclid first second
    case pubrel.pubrel.pubrel => exact Acknowledge.equality.euclid first second
    case suback.suback.suback => exact AcknowledgeAll.equality.euclid first second
    case subscribe.subscribe.subscribe => exact MSubscribe.equality.euclid first second
    case unsuback.unsuback.unsuback => exact AcknowledgeAll.equality.euclid first second
    case unsubscribe.unsubscribe.unsubscribe =>
      exact MUnsubscribe.equality.euclid first second
    all_goals rfl

variable [Build]

/-- Equal packets have the same fixed header and the same body. -/
theorem write_congr {p q : MqttPacket} (same : p.eq q = .ok true) :
    p.packetType = q.packetType ∧ p.writePacket = q.writePacket := by
  cases p <;> cases q <;> simp only [eq, Except.ok.injEq, Bool.false_eq_true] at same
  case auth.auth => exact ⟨rfl, MAuth.write_congr same⟩
  case connack.connack => exact ⟨rfl, MConnack.write_congr same⟩
  case connect.connect => exact ⟨rfl, MConnect.write_congr same⟩
  case disconnect.disconnect => exact ⟨rfl, MDisconnect.write_congr same⟩
  case puback.puback => exact ⟨rfl, Acknowledge.write_congr same⟩
  case pubcomp.pubcomp => exact ⟨rfl, Acknowledge.write_congr same⟩
  case publish.publish =>
    obtain ⟨written, duplicate, qos, retain⟩ := MPublish.write_congr same
    exact ⟨by rw [packetType, packetType, duplicate, qos, retain], written⟩
  case pubrec.pubrec => exact ⟨rfl, Acknowledge.write_congr same⟩
  case pubrel.pubrel => exact ⟨rfl, Acknowledge.write_congr same⟩
  case suback.suback => exact ⟨rfl, AcknowledgeAll.write_congr same⟩
  case subscribe.subscribe => exact ⟨rfl, MSubscribe.write_congr same⟩
  case unsuback.unsuback => exact ⟨rfl, AcknowledgeAll.write_congr same⟩
  case unsubscribe.unsubscribe => exact ⟨rfl, MUnsubscribe.write_congr same⟩
  all_goals exact ⟨rfl, rfl⟩

theorem bytes_congr {p q : MqttPacket} {bytes others : List UInt8} (iterable : p.Iterable)
    (iterable' : q.Iterable) (short : p.writePacket.emitted.length ≤ 268435455)
    (short' : q.writePacket.emitted.length ≤ 268435455) (written : p.write.Emits bytes ())
    (written' : q.write.Emits others ()) (same : p.eq q = .ok true) : bytes = others := by
  obtain ⟨length, body, lengthEmits, bodyEmits, rfl⟩ := (write_emits iterable short).mp written
  obtain ⟨length', body', lengthEmits', bodyEmits', rfl⟩ :=
    (write_emits iterable' short').mp written'
  obtain ⟨sameType, sameBody⟩ := write_congr same
  rw [sameBody] at bodyEmits
  obtain rfl := (bodyEmits.unique bodyEmits').1
  rw [sameType, (lengthEmits.unique lengthEmits').1]

/-- Comparing two packets that can be sent comes to an answer, and the answer is whether
they are the same bytes on the wire. -/
theorem eq_iff_bytes {p q : MqttPacket} {bytes others : List UInt8} (valid : p.Valid)
    (valid' : q.Valid) (short : p.writePacket.emitted.length ≤ 268435455)
    (short' : q.writePacket.emitted.length ≤ 268435455) (written : p.write.Emits bytes ())
    (written' : q.write.Emits others ()) : p.eq q = .ok (decide (bytes = others)) := by
  obtain ⟨same, run⟩ := equality.decides valid valid'
  rw [run, Except.ok.injEq]
  apply Bool.eq_iff_iff.mpr
  rw [decide_eq_true_eq]
  constructor
  · rintro rfl
    exact bytes_congr valid.iterable valid'.iterable short short' written written' run
  · -- one parse of the common bytes gives a packet equal to both
    intro sameBytes
    obtain ⟨length, body, lengthEmits, bodyEmits, rfl⟩ :=
      (write_emits valid.iterable short).mp written
    obtain ⟨length', body', lengthEmits', bodyEmits', rfl⟩ :=
      (write_emits valid'.iterable short').mp written'
    obtain rfl := (Emit.emits_iff.mp bodyEmits).1
    obtain rfl := (Emit.emits_iff.mp bodyEmits').1
    obtain ⟨r, read, toFirst⟩ := parse_frame valid short lengthEmits bodyEmits []
    obtain ⟨r', read', toSecond⟩ := parse_frame valid' short' lengthEmits' bodyEmits' []
    rw [sameBytes, read', Except.ok.injEq, Prod.mk.injEq] at read
    obtain rfl := read.1
    exact Except.ok.inj (run.symm.trans (equality.euclid toFirst toSecond))

def pubackWith (slice : List UInt8) : MqttPacket :=
  .puback ⟨⟨⟨1, by decide⟩⟩, ⟨.success, success_mem_puback⟩,
    .takeInner _ (Function.update (fun _ => none) .userProperties (some ⟨slice⟩))⟩

omit [Build] in
theorem eq_iff_bytes_puback :
    (pubackWith [0, 1, 107, 0, 1, 118]).eq (pubackWith [0, 1, 107, 0, 1, 118, 31, 0, 0]) =
      .ok (decide ([64, 11, 0, 1, 0, 7, 38, 0, 1, 107, 0, 1, 118] =
        [(64 : UInt8), 11, 0, 1, 0, 7, 38, 0, 1, 107, 0, 1, 118])) := by
  apply @eq_iff_bytes development
  · rintro _ ⟨⟩
    exact UserProperties.valid_iff.mpr (by decide)
  · rintro _ ⟨⟩
    exact UserProperties.valid_iff.mpr (by decide)
  · decide
  · decide
  · rfl
  · rfl

end MqttPacket

end V5
