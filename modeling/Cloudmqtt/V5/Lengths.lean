import Cloudmqtt.V5.Packet
import Cloudmqtt.V5.Sums

/-! What packets are made of, as lengths: the sizes that `u32` makes of them, and
which of them the writers refuse.

An element is a field of known width, data behind a length of two bytes, or a
variable-length integer; a section is counted by a length of its own.
-/

set_option autoImplicit false

namespace V5

open Base Rust

inductive Element where
  | fixed (width : Nat)
  | prefixed (length : Nat)
  | varint (value : UInt32)

namespace Element

def length : Element → Nat
  | fixed width => width
  | prefixed length => 2 + length
  | varint value => variableWidth value.toNat

def Sizable : Element → Prop
  | varint value => value.toNat ≤ 268435455
  | _ => True

def Writable : Element → Prop
  | prefixed length => length ≤ 65535
  | _ => True

@[simp] theorem sizable_fixed (width : Nat) : (fixed width).Sizable := trivial

@[simp] theorem sizable_prefixed (length : Nat) : (prefixed length).Sizable := trivial

@[simp] theorem writable_fixed (width : Nat) : (fixed width).Writable := trivial

@[simp] theorem writable_varint (value : UInt32) : (varint value).Writable := trivial

end Element

inductive Part where
  | element (e : Element)
  | counted (es : List Element)

namespace Part

def elements : Part → List Element
  | element e => [e]
  | counted es => es

def length : Part → Nat
  | element e => e.length
  | counted es => variableWidth (es.map Element.length).sum + (es.map Element.length).sum

/-- What is added up in `u32`: the length of a section is itself such a sum. -/
def summands [Build] : Part → List Nat
  | element e => [e.length]
  | counted es => variableWidth (announced (es.map Element.length)) :: es.map Element.length

def Sizable [Build] : Part → Prop
  | element e => e.Sizable
  | counted es => (∀ e ∈ es, e.Sizable) ∧ announced (es.map Element.length) ≤ 268435455

def Writable (self : Part) : Prop := ∀ e ∈ self.elements, e.Writable

@[simp] theorem writable_element (e : Element) : (element e).Writable ↔ e.Writable :=
  List.forall_mem_singleton

end Part

/-! ### Properties -/

def UserProperty.elements (self : UserProperty) : List Element :=
  [.prefixed (len self.key), .prefixed (len self.value)]

/-- The identifier of the first one belongs to the section. -/
def UserProperties.elements (self : UserProperties) : List Element :=
  match self.pairs.items with
  | [] => []
  | first :: more => first.elements ++ more.flatMap fun up => .fixed 1 :: up.elements

def Shape.elements : (shape : Shape) → shape.Value → List Element
  | u8, _ => [.fixed 1]
  | u16, _ => [.fixed 2]
  | nonZeroU16, _ => [.fixed 2]
  | u32, _ => [.fixed 4]
  | variableU32, v => [.varint v]
  | bool, _ => [.fixed 1]
  | maximumQualityOfService, _ => [.fixed 1]
  | string, v => [.prefixed (len v)]
  | binaryData, v => [.prefixed v.length]
  | userProperties, v => v.elements

def Shape.Proper : (shape : Shape) → shape.Value → Prop
  | userProperties, v => v.Valid
  | _, _ => True

namespace Properties

variable {fields : List PropertyKind}

def slotElements (self : Properties fields) (kind : PropertyKind) : List Element :=
  match self.slot kind with
  | some v => .fixed 1 :: kind.shape.elements v
  | none => []

def elements (self : Properties fields) : List Element := fields.flatMap self.slotElements

def part (self : Properties fields) : Part := .counted self.elements

end Properties

/-! ### Bodies -/

/-- The parts of the body, in the order they are written. -/
def MqttPacket.layout : MqttPacket → List Part
  | auth p => [.element (.fixed 1), p.properties.part]
  | connack p => [.element (.fixed 1), .element (.fixed 1), p.properties.part]
  | connect p =>
    [.element (.prefixed (len "MQTT")), .element (.fixed 1), .element (.fixed 1),
      .element (.fixed 2), p.properties.part, .element (.prefixed (len p.clientIdentifier))] ++
    p.will.toList.flatMap (fun will => [will.properties.part, .element (.prefixed (len will.topic)),
      .element (.prefixed will.payload.length)]) ++
    p.username.toList.flatMap (fun username => [.element (.prefixed (len username))]) ++
    p.password.toList.flatMap fun password => [.element (.prefixed password.length)]
  | disconnect p =>
    match p.isShortPacket with
    | .ok true => []
    | _ => [.element (.fixed 1), p.properties.part]
  | pingreq _ | pingresp _ => []
  | puback p => [.element (.fixed 2), .element (.fixed 1), p.properties.part]
  | pubcomp p => [.element (.fixed 2), .element (.fixed 1), p.properties.part]
  | publish p =>
    [.element (.prefixed (len p.topicName))] ++
    p.packetIdentifier.toList.flatMap (fun _ => [.element (.fixed 2)]) ++
    [p.properties.part, .element (.fixed p.payload.length)]
  | pubrec p => [.element (.fixed 2), .element (.fixed 1), p.properties.part]
  | pubrel p => [.element (.fixed 2), .element (.fixed 1), p.properties.part]
  | suback p => [.element (.fixed 2), p.properties.part, .element (.fixed p.reasons.length)]
  | subscribe p =>
    [.element (.fixed 2), p.properties.part, .element (.fixed p.subscriptions.start.length)]
  | unsuback p => [.element (.fixed 2), p.properties.part, .element (.fixed p.reasons.length)]
  | unsubscribe p =>
    [.element (.fixed 2), p.properties.part, .element (.fixed p.unsubscriptions.start.length)]

/-- A PUBLISH has an identifier that its quality of service forbids. -/
def MqttPacket.Stray : MqttPacket → Prop
  | publish p => p.qualityOfService = .atMostOnce ∧ p.packetIdentifier.isSome
  | _ => False

def Refused (parts : List Part) : Prop := ∃ part ∈ parts, ¬ part.Writable

namespace MqttPacket

/-- The length of the body, nothing cast and nothing wrapped. -/
def bodyLength (self : MqttPacket) : Nat := (self.layout.map Part.length).sum

/-- A body, a section or a value in it is larger than a variable-length integer can be. -/
def Oversized (self : MqttPacket) : Prop :=
  self.bodyLength > 268435455 ∨
    (∃ es, .counted es ∈ self.layout ∧ (es.map Element.length).sum > 268435455) ∨
    ∃ part ∈ self.layout, ∃ e ∈ part.elements, ¬ e.Sizable

/-- The sizes that are computed stay in range, whatever the lengths are. -/
def SizesFit [Build] (self : MqttPacket) : Prop :=
  self.Iterable ∧ (∀ part ∈ self.layout, part.Sizable) ∧
    announced (self.layout.flatMap Part.summands) ≤ 268435455

/-- The writer stops at data too long for its length, or at the identifier. -/
def Unwritable (self : MqttPacket) : Prop := Refused self.layout ∨ self.Stray

end MqttPacket

/-! ### Laws of properties -/

variable [Build]

omit [Build] in
theorem Shape.proper_of_ne {shape : Shape} (plain : shape ≠ .userProperties) (v : shape.Value) :
    shape.Proper v := by
  cases shape with
  | userProperties => exact absurd rfl plain
  | _ => trivial

theorem PropertyKind.identifier_adds (kind : PropertyKind) :
    (variableU32BinarySize kind.identifier).Adds True [1] := by
  have small := kind.identifier_small
  have one : variableWidth kind.identifier.toNat = 1 := if_pos small
  have adds := Size.Adds.variableU32 kind.identifier
  rw [one] at adds
  exact adds.congr (iff_true_intro (by omega))

theorem UserProperty.size_adds (self : UserProperty) :
    self.binarySize.Adds True (self.elements.map Element.length) :=
  ((Size.Adds.cast _).add (Size.Adds.cast _)).congr (and_self_iff)

namespace UserProperties

theorem entry_adds (up : UserProperty) (idx : Nat) :
    (up.binarySize + if idx = 0 then 0 else variableU32BinarySize identifier).Adds True
      ((if idx = 0 then [] else [1]) ++ up.elements.map Element.length) := by
  by_cases first : idx = 0
  · simp only [first, if_true]
    exact (up.size_adds.add Size.Adds.zero).congr (and_self_iff) |>.perm (by simp)
  · simp only [first, if_false]
    exact ((up.size_adds.add (PropertyKind.identifier_adds .userProperties)).congr
      (and_self_iff)).perm List.perm_append_comm

omit [Build] in
theorem flatMap_later {ups : List UserProperty} {idx : Nat} (later : idx ≠ 0) :
    ((ups.zipIdx idx).flatMap fun entry =>
        (if entry.2 = 0 then [] else [1]) ++ entry.1.elements.map Element.length) =
      (ups.flatMap fun up => .fixed 1 :: up.elements).map Element.length := by
  induction ups generalizing idx with
  | nil => rfl
  | cons up more ih =>
    rw [List.zipIdx_cons, List.flatMap_cons, ih (Nat.succ_ne_zero idx), if_neg later,
      List.flatMap_cons, List.map_append]
    rfl

omit [Build] in
theorem forall_elements {self : UserProperties} {P : Element → Prop} (identifier : P (.fixed 1))
    (each : ∀ up ∈ self.pairs.items, ∀ e ∈ up.elements, P e) : ∀ e ∈ self.elements, P e := by
  unfold elements
  cases listed : self.pairs.items with
  | nil => exact fun _ member => absurd member List.not_mem_nil
  | cons first more =>
    rw [listed] at each
    intro e member
    rcases List.mem_append.mp member with member | member
    · exact each first List.mem_cons_self e member
    · obtain ⟨up, later, member⟩ := List.mem_flatMap.mp member
      rcases List.mem_cons.mp member with rfl | member
      · exact identifier
      · exact each up (List.mem_cons_of_mem first later) e member

omit [Build] in
theorem elements_sizable (self : UserProperties) : ∀ e ∈ self.elements, e.Sizable :=
  forall_elements trivial fun up _ => by simp [UserProperty.elements]

omit [Build] in
theorem elements_length (self : UserProperties) :
    (self.pairs.items.zipIdx.flatMap fun entry =>
        (if entry.2 = 0 then [] else [1]) ++ entry.1.elements.map Element.length) =
      self.elements.map Element.length := by
  unfold elements
  cases self.pairs.items with
  | nil => rfl
  | cons first more =>
    rw [List.zipIdx_cons, List.flatMap_cons, flatMap_later (Nat.succ_ne_zero 0), if_pos rfl,
      List.nil_append, List.map_append]

theorem size_adds (self : UserProperties) :
    self.binarySize.Adds (self.Valid ∧ ∀ e ∈ self.elements, e.Sizable)
      (self.elements.map Element.length) := by
  have sum := Size.Adds.foldl (fun entry (_ : entry ∈ self.pairs.items.zipIdx) =>
    entry_adds entry.1 entry.2) Size.Adds.zero
  rw [List.nil_append, elements_length] at sum
  rw [valid_iff]
  unfold binarySize
  simp only [List.foldl_map]
  cases self.pairs.failure with
  | none =>
    exact sum.congr ⟨fun _ => ⟨rfl, self.elements_sizable⟩, fun _ => ⟨trivial, fun _ _ => trivial⟩⟩
  | some p =>
    refine fun n => iff_of_false (fun ended => ?_) fun both => nomatch both.1.1
    obtain ⟨_, -, same⟩ := Size.bind_eq_ok.mp ended
    cases same

omit [Build] in
theorem Valid.elements_writable {self : UserProperties} (valid : self.Valid) :
    ∀ e ∈ self.elements, e.Writable := by
  obtain ⟨ups, lists⟩ := valid
  have fits := lists.fits
  refine forall_elements trivial fun up member => ?_
  rw [lists.pairs_eq] at member
  obtain ⟨key, value⟩ := fits up member
  simpa [UserProperty.elements, Element.Writable] using ⟨key, value⟩

omit [Build] in
theorem Valid.write_ends {self : UserProperties} (valid : self.Valid) :
    self.write.Ends (.error .invariant) (∃ e ∈ self.elements, ¬ e.Writable) := by
  have writable : ¬ ∃ e ∈ self.elements, ¬ e.Writable := by
    simpa using valid.elements_writable
  obtain ⟨ups, lists⟩ := valid
  obtain ⟨first, more, rfl⟩ : ∃ first more, ups = first :: more := by
    obtain ⟨first, -, items, -, -, rfl⟩ := lists
    exact ⟨first, _, rfl⟩
  exact .of_emits (lists.write_emits.mpr (by rw [List.flatMap_cons]; rfl)) writable

end UserProperties

theorem Shape.size_adds (shape : Shape) (v : shape.Value) :
    (shape.binarySize v).Adds (shape.Proper v ∧ ∀ e ∈ shape.elements v, e.Sizable)
      ((shape.elements v).map Element.length) := by
  cases shape with
  | userProperties => exact UserProperties.size_adds v
  | variableU32 =>
    exact (Size.Adds.variableU32 v).congr (by simp [Proper, elements, Element.Sizable])
  | u8 | bool | maximumQualityOfService =>
    exact (Size.Adds.literal 1).congr (by simp [Proper, elements])
  | u16 | nonZeroU16 => exact (Size.Adds.literal 2).congr (by simp [Proper, elements])
  | u32 => exact (Size.Adds.literal 4).congr (by simp [Proper, elements])
  | string | binaryData => exact (Size.Adds.cast _).congr (by simp [Proper, elements])

omit [Build] in
theorem Shape.write_ends {shape : Shape} {v : shape.Value} (proper : shape.Proper v)
    (sizable : ∀ e ∈ shape.elements v, e.Sizable) :
    (shape.write v).Ends (.error .invariant) (∃ e ∈ shape.elements v, ¬ e.Writable) := by
  cases shape with
  | userProperties => exact proper.write_ends
  | variableU32 =>
    have short : v.toNat ≤ 268435455 := sizable (.varint v) List.mem_cons_self
    obtain ⟨bytes, emits⟩ := writeVariableU32_ok short
    exact .of_emits emits (by simp [elements])
  | u8 | bool | maximumQualityOfService =>
    exact .of_emits (writeByte_emits.mpr rfl) (by simp [elements])
  | u16 | nonZeroU16 => exact .of_emits (writeU16_emits.mpr rfl) (by simp [elements])
  | u32 => exact .of_emits (writeU32_emits.mpr rfl) (by simp [elements])
  | string => exact (writeString_ends v).congr (by simp [elements, Element.Writable])
  | binaryData => exact (writeBinaryData_ends v).congr (by simp [elements, Element.Writable])

namespace Properties

variable {fields : List PropertyKind}

def SlotProper (self : Properties fields) (kind : PropertyKind) : Prop :=
  ∀ v, self.slot kind = some v → kind.shape.Proper v

omit [Build] in
theorem valid_iff_slots {self : Properties fields} :
    self.Valid ↔ ∀ kind ∈ fields, self.SlotProper kind := by
  constructor
  · intro valid kind _ v held
    by_cases user : kind = .userProperties
    · subst user
      exact valid v held
    · exact Shape.proper_of_ne (mt PropertyKind.shape_eq_userProperties.mp user) v
  · intro proper prop held
    by_cases member : .userProperties ∈ fields
    · exact proper _ member prop held
    · rw [self.absent _ member] at held
      cases held

theorem slot_adds (self : Properties fields) (kind : PropertyKind) :
    (self.slotSize kind).Adds
      (self.SlotProper kind ∧ ∀ e ∈ self.slotElements kind, e.Sizable)
      ((self.slotElements kind).map Element.length) := by
  unfold slotSize slotElements SlotProper
  cases self.slot kind with
  | none => exact Size.Adds.zero.congr (by simp)
  | some v =>
    exact (kind.identifier_adds.add (kind.shape.size_adds v)).congr (by simp)

theorem propSize_adds (self : Properties fields) :
    self.propSize.Adds (self.Valid ∧ ∀ e ∈ self.elements, e.Sizable)
      (self.elements.map Element.length) := by
  have sum := Size.Adds.foldl (fun kind (_ : kind ∈ fields) => self.slot_adds kind) Size.Adds.zero
  rw [List.nil_append, ← List.map_flatMap] at sum
  refine sum.congr ?_
  rw [valid_iff_slots, true_and, forall₂_and, elements]
  refine and_congr_right fun _ => ⟨fun each e member => ?_, fun each kind member e held => ?_⟩
  · obtain ⟨kind, member, held⟩ := List.mem_flatMap.mp member
    exact each kind member e held
  · exact each e (List.mem_flatMap.mpr ⟨kind, member, held⟩)

theorem size_adds (self : Properties fields) :
    self.binarySize.Adds (self.Valid ∧ self.part.Sizable) self.part.summands :=
  self.propSize_adds.counted.congr and_assoc

omit [Build] in
theorem writeSlot_ends {self : Properties fields} {kind : PropertyKind}
    (proper : self.SlotProper kind) (sizable : ∀ e ∈ self.slotElements kind, e.Sizable) :
    (self.writeSlot kind).Ends (.error .invariant)
      (∃ e ∈ self.slotElements kind, ¬ e.Writable) := by
  unfold SlotProper at proper
  unfold slotElements at sizable ⊢
  unfold writeSlot
  cases held : self.slot kind with
  | none => exact .of_emits (Emit.pure_emits.mpr ⟨rfl, rfl⟩) (by simp)
  | some v =>
    rw [held] at proper sizable
    have identifier : (writeVariableU32 kind.identifier).Ends (.error .invariant) False :=
      .of_emits (PropertyKind.identifier_emits.mpr rfl) id
    have value := Shape.write_ends (proper v rfl) (List.forall_mem_cons.mp sizable).2
    exact (identifier.seq value).congr (by simp)

theorem write_ends {self : Properties fields} (valid : self.Valid) (sizable : self.part.Sizable) :
    self.write.Ends (.error .invariant) (¬ self.part.Writable) := by
  obtain ⟨sizable, short⟩ := sizable
  have total : (UInt32.ofNat (announced (self.elements.map Element.length))).toNat =
      announced (self.elements.map Element.length) :=
    UInt32.toNat_ofNat_of_lt' (by rw [UInt32.size]; omega)
  have size := (self.propSize_adds _).mpr ⟨⟨valid, sizable⟩, total⟩
  obtain ⟨field, fieldEmits⟩ := writeVariableU32_ok (total.le.trans short)
  have slots := Emit.Ends.each fun kind member => writeSlot_ends
    (valid_iff_slots.mp valid kind member)
    fun e held => sizable e (List.mem_flatMap.mpr ⟨kind, member, held⟩)
  rw [write, size]
  refine ((Emit.Ends.of_emits fieldEmits id).seq slots).congr ?_
  simp only [false_or, Part.Writable, part, Part.elements, elements, List.mem_flatMap, not_forall,
    exists_prop]
  constructor
  · rintro ⟨kind, member, e, held, long⟩
    exact ⟨e, ⟨kind, member, held⟩, long⟩
  · rintro ⟨e, ⟨kind, member, held⟩, long⟩
    exact ⟨kind, member, e, held, long⟩

end Properties

/-! ### Laws of bodies -/

omit [Build] in
theorem refused_append {parts others : List Part} :
    Refused (parts ++ others) ↔ Refused parts ∨ Refused others := by
  simp [Refused, or_and_right, exists_or]

-- One structure for the size function and the writer of a piece, so that the bodies
-- below are put together once for both.
/-- These are the parts of what is sized and written, `proper` aside. -/
structure Laid (parts : List Part) (proper : Prop) (size : Size) (write : WResult) : Prop where
  adds : size.Adds (proper ∧ ∀ part ∈ parts, part.Sizable) (parts.flatMap Part.summands)
  ends : proper → (∀ part ∈ parts, part.Sizable) → write.Ends (.error .invariant) (Refused parts)

namespace Laid

variable {parts others : List Part} {proper also : Prop} {size more : Size} {write rest : WResult}

theorem seq (first : Laid parts proper size write) (second : Laid others also more rest) :
    Laid (parts ++ others) (proper ∧ also) (size + more) (write >>= fun _ => rest) where
  adds := by
    rw [List.flatMap_append]
    refine (first.adds.add second.adds).congr ?_
    rw [List.forall_mem_append, and_and_and_comm]
  ends proper sizable := by
    rw [List.forall_mem_append] at sizable
    exact ((first.ends proper.1 sizable.1).seq (second.ends proper.2 sizable.2)).congr
      refused_append.symm

theorem congr (laid : Laid parts proper size write) (same : proper ↔ also) :
    Laid parts also size write := propext same ▸ laid

theorem nothing : Laid [] True 0 (pure ()) where
  adds := Size.Adds.zero.congr (by simp)
  ends _ _ := .of_emits (Emit.pure_emits.mpr ⟨rfl, rfl⟩) (by simp [Refused])

theorem fixed {n : Nat} {bytes : List UInt8} (adds : size.Adds True [n])
    (emits : write.Emits bytes ()) : Laid [.element (.fixed n)] True size write where
  adds := adds.congr (by simp [Part.Sizable])
  ends _ _ := .of_emits emits (by simp [Refused])

theorem string (s : String) :
    Laid [.element (.prefixed (len s))] True (stringBinarySize s) (writeString s) where
  adds := (Size.Adds.cast _).congr (by simp [Part.Sizable])
  ends _ _ := (writeString_ends s).congr (by simp [Refused, Element.Writable])

theorem data (slice : List UInt8) :
    Laid [.element (.prefixed slice.length)] True (binaryDataBinarySize slice)
      (writeBinaryData slice) where
  adds := (Size.Adds.cast _).congr (by simp [Part.Sizable])
  ends _ _ := (writeBinaryData_ends slice).congr (by simp [Refused, Element.Writable])

theorem properties {fields : List PropertyKind} (self : Properties fields) :
    Laid [self.part] self.Valid self.binarySize self.write where
  adds := by simpa using self.size_adds
  ends valid sizable :=
    (Properties.write_ends valid (List.forall_mem_singleton.mp sizable)).congr (by simp [Refused])

theorem option {α : Type} {parts : α → List Part} {proper : α → Prop} {size : α → Size}
    {write : α → WResult} (each : ∀ a, Laid (parts a) (proper a) (size a) (write a))
    (held : Option α) :
    Laid (held.toList.flatMap parts) (∀ a, held = some a → proper a) (optionSize size held)
      (writeOption write held) := by
  cases held with
  | none => exact nothing.congr (by simp)
  | some a => simpa [optionSize, writeOption] using each a

theorem byte (b : UInt8) : Laid [.element (.fixed 1)] True 1 (writeByte b) :=
  fixed (Size.Adds.literal 1) (writeByte_emits.mpr rfl)

theorem identifier (self : PacketIdentifier) :
    Laid [.element (.fixed 2)] True self.binarySize self.write :=
  fixed (Size.Adds.literal 2) (writeU16_emits.mpr rfl)

theorem auth (self : MAuth) :
    Laid (MqttPacket.auth self).layout self.properties.Valid self.binarySize self.write :=
  ((byte _).seq (properties self.properties)).congr (by simp)

theorem connack (self : MConnack) :
    Laid (MqttPacket.connack self).layout self.properties.Valid self.binarySize self.write := by
  have all := ((byte (MConnack.flags self.sessionPresent)).seq (byte self.reasonCode.toU8)).seq
    (properties self.properties)
  rw [Emit.seq_assoc] at all
  exact all.congr (by simp)

theorem will (self : Will) :
    Laid [self.properties.part, .element (.prefixed (len self.topic)),
      .element (.prefixed self.payload.length)] self.properties.Valid self.binarySize
      self.write := by
  have all := ((properties self.properties).seq (string self.topic)).seq (data self.payload)
  rw [Emit.seq_assoc] at all
  exact all.congr (by simp)

theorem connect (self : MConnect) :
    Laid (MqttPacket.connect self).layout self.Valid self.binarySize self.write := by
  have name : Laid [.element (.prefixed (len "MQTT"))] True 6 (writeString "MQTT") :=
    ⟨(Size.Adds.literal 6).congr (by simp [Part.Sizable]), (string "MQTT").ends⟩
  have keepAlive : Laid [.element (.fixed 2)] True 2 (writeU16 self.keepAlive) :=
    fixed (Size.Adds.literal 2) (writeU16_emits.mpr rfl)
  have all := (((((((name.seq (byte 5)).seq (byte self.flags)).seq keepAlive).seq
    (properties self.properties)).seq (string self.clientIdentifier)).seq
    (option will self.will)).seq (option string self.username)).seq (option data self.password)
  simp only [Emit.seq_assoc] at all
  refine all.congr ?_
  simp only [true_and, and_true, implies_true]
  exact ⟨fun valid => ⟨valid.1, valid.2⟩, fun valid => ⟨valid.1, valid.2⟩⟩

theorem disconnect (self : MDisconnect) :
    Laid (MqttPacket.disconnect self).layout self.properties.Valid self.binarySize self.write := by
  obtain ⟨isShort, packet⟩ := self.isShortPacket_ok
  simp only [MqttPacket.layout, MDisconnect.binarySize, MDisconnect.write, packet]
  cases isShort with
  | true =>
    obtain rfl := MDisconnect.isShortPacket_true.mp packet
    exact nothing.congr (iff_of_true trivial (Properties.new_valid _))
  | false => exact ((byte _).seq (properties self.properties)).congr (by simp)

theorem acknowledge {combined : CombinedCodes} (self : Acknowledge combined) :
    Laid [.element (.fixed 2), .element (.fixed 1), self.properties.part] self.properties.Valid
      self.binarySize self.write := by
  have all := ((identifier self.packetIdentifier).seq (byte self.reason.toU8)).seq
    (properties self.properties)
  rw [Emit.seq_assoc] at all
  exact all.congr (by simp)

theorem acknowledgeAll {combined : CombinedCodes} (self : AcknowledgeAll combined) :
    Laid [.element (.fixed 2), self.properties.part, .element (.fixed self.reasons.length)]
      self.properties.Valid self.binarySize self.write := by
  have reasons : Laid [.element (.fixed self.reasons.length)] True (castSize self.reasons.length)
      (AcknowledgeAll.writeReasons self.reasons) :=
    fixed (Size.Adds.cast _) (writeSlice_emits.mpr rfl)
  have all := ((identifier self.packetIdentifier).seq (properties self.properties)).seq reasons
  rw [Emit.seq_assoc] at all
  have valid : (True ∧ self.properties.Valid) ∧ True ↔ self.properties.Valid := by simp
  refine ⟨?_, (all.congr valid).ends⟩
  -- the sizes are added in another order than the parts are written
  have sum := ((Size.Adds.literal 2).add (Size.Adds.cast self.reasons.length)).add
    self.properties.size_adds
  refine (sum.congr (by simp [Part.Sizable])).perm ?_
  rw [List.flatMap_cons, List.flatMap_cons, List.flatMap_singleton, List.append_assoc]
  exact List.perm_append_comm.append_left [2]

theorem unchecked (self : MPublish) :
    Laid (MqttPacket.publish self).layout self.properties.Valid self.binarySize (do
      writeString self.topicName
      writeOption PacketIdentifier.write self.packetIdentifier
      self.properties.write
      writeSlice self.payload) := by
  have payload : Laid [.element (.fixed self.payload.length)] True
      (castSize self.payload.length) (writeSlice self.payload) :=
    fixed (Size.Adds.cast _) (writeSlice_emits.mpr rfl)
  have all := (((string self.topicName).seq (option identifier self.packetIdentifier)).seq
    (properties self.properties)).seq payload
  simp only [Emit.seq_assoc] at all
  have layout : (MqttPacket.publish self).layout = [.element (.prefixed (len self.topicName))] ++
      (self.packetIdentifier.toList.flatMap fun _ => [.element (.fixed 2)]) ++
      [self.properties.part] ++ [.element (.fixed self.payload.length)] := by
    simp [MqttPacket.layout]
  rw [layout]
  exact all.congr (by simp)

end Laid

namespace MqttPacket

theorem publish_error_iff {p : MPublish} (valid : p.properties.Valid)
    (sizable : ∀ part ∈ (publish p).layout, part.Sizable) :
    p.write.outcome = .error (.error .invariant) ↔
      Refused (publish p).layout ∨ (publish p).Stray := by
  by_cases stray : p.qualityOfService = .atMostOnce ∧ p.packetIdentifier.isSome
  · refine iff_of_true ?_ (.inr stray)
    rw [MPublish.write, if_pos stray]
    exact ((writeString_ends p.topicName).seq_error_iff (iff_true_intro rfl)).mpr (.inr trivial)
  · rw [MPublish.write, if_neg stray, ((Laid.unchecked p).ends valid sizable).error_iff]
    exact (or_iff_left stray).symm

/-- The size of a body and how its writer ends, by the parts of the body. -/
structure Measured (packet : MqttPacket) : Prop where
  adds : packet.packetSize.Adds (packet.Iterable ∧ ∀ part ∈ packet.layout, part.Sizable)
    (packet.layout.flatMap Part.summands)
  error_iff : packet.Iterable → (∀ part ∈ packet.layout, part.Sizable) →
    (packet.writePacket.outcome = .error (.error .invariant) ↔
      Refused packet.layout ∨ packet.Stray)

theorem Measured.of_laid {self : MqttPacket} {proper : Prop}
    (laid : Laid self.layout proper self.packetSize self.writePacket)
    (same : proper ↔ self.Iterable) (usual : ¬ self.Stray) : self.Measured where
  adds := laid.adds.congr (by rw [same])
  error_iff iterable sizable :=
    (laid.ends (same.mpr iterable) sizable).error_iff.trans (or_iff_left usual).symm

-- Not `Laid`: the items are written one by one from the parsed slice, while their
-- size is that of the slice, which need not come from a parser.
/-- A packet that ends with items, which are counted as a slice and written one by one. -/
theorem Measured.of_items {self : MqttPacket} {α : Type} {fields : List PropertyKind}
    {identifier : PacketIdentifier} {properties : Properties fields} {slice : ItemSlice α}
    {writeSlice : WResult}
    (layout : self.layout =
      [.element (.fixed 2), properties.part, .element (.fixed slice.start.length)])
    (size : self.packetSize = identifier.binarySize + properties.binarySize + slice.binarySize)
    (write : self.writePacket = do identifier.write; properties.write; writeSlice)
    (same : properties.Valid ↔ self.Iterable) (usual : ¬ self.Stray)
    (slices : writeSlice.outcome = .error (.error .invariant) ↔ False) : self.Measured := by
  have front := (Laid.identifier identifier).seq (Laid.properties properties)
  have last : slice.binarySize.Adds True [slice.start.length] := Size.Adds.cast _
  have parts : self.layout = ([.element (.fixed 2)] ++ [properties.part]) ++
    [.element (.fixed slice.start.length)] := layout
  constructor
  · rw [size, parts, List.flatMap_append, ← same]
    refine (front.adds.add last).congr ?_
    rw [List.forall_mem_append, true_and, and_true]
    simp [Part.Sizable]
  · intro iterable sizable
    rw [parts, List.forall_mem_append] at sizable
    have ends := front.ends ⟨trivial, same.mpr iterable⟩ sizable.1
    rw [write, ← Emit.seq_assoc, ends.seq_error_iff slices, parts, refused_append]
    simp [Refused, usual]

theorem measured (self : MqttPacket) : self.Measured := by
  cases self with
  | auth p => exact .of_laid (Laid.auth p) (by simp [Iterable, sections]) id
  | connack p => exact .of_laid (Laid.connack p) (by simp [Iterable, sections]) id
  | connect p => exact .of_laid (Laid.connect p) iterable_connect.symm id
  | disconnect p => exact .of_laid (Laid.disconnect p) iterable_disconnect.symm id
  | pingreq p => exact .of_laid Laid.nothing (by simp [Iterable, sections]) id
  | pingresp p => exact .of_laid Laid.nothing (by simp [Iterable, sections]) id
  | puback p => exact .of_laid (Laid.acknowledge p) (by simp [Iterable, sections]) id
  | pubcomp p => exact .of_laid (Laid.acknowledge p) (by simp [Iterable, sections]) id
  | publish p =>
    have same : (publish p).Iterable ↔ p.properties.Valid := by simp [Iterable, sections]
    exact ⟨(Laid.unchecked p).adds.congr (by rw [same]),
      fun iterable sizable => publish_error_iff (same.mp iterable) sizable⟩
  | pubrec p => exact .of_laid (Laid.acknowledge p) (by simp [Iterable, sections]) id
  | pubrel p => exact .of_laid (Laid.acknowledge p) (by simp [Iterable, sections]) id
  | suback p => exact .of_laid (Laid.acknowledgeAll p) (by simp [Iterable, sections]) id
  | subscribe p =>
    exact .of_items rfl rfl rfl (by simp [Iterable, sections]) id
      (ItemSlice.write_no_error Subscription.canonical p.subscriptions _)
  | unsuback p => exact .of_laid (Laid.acknowledgeAll p) (by simp [Iterable, sections]) id
  | unsubscribe p =>
    exact .of_items rfl rfl rfl (by simp [Iterable, sections]) id
      (ItemSlice.write_no_error Unsubscription.canonical p.unsubscriptions _)

theorem packetSize_iff {self : MqttPacket} :
    (∃ size, self.packetSize = .ok size ∧ size.toNat ≤ 268435455) ↔ self.SizesFit := by
  constructor
  · rintro ⟨size, sized, short⟩
    obtain ⟨⟨iterable, sizable⟩, sum⟩ := (self.measured.adds size).mp sized
    exact ⟨iterable, sizable, sum.symm.le.trans short⟩
  · rintro ⟨iterable, sizable, short⟩
    have sized := UInt32.toNat_ofNat_of_lt' (Nat.lt_of_le_of_lt short (by decide))
    exact ⟨_, (self.measured.adds _).mpr ⟨⟨iterable, sizable⟩, sized⟩, sized.le.trans short⟩

/-- Once the body has a size, the size of its length field decides. -/
theorem binarySize_iff {self : MqttPacket} :
    (∃ size, self.binarySize = .ok size) ↔
      ∃ size, self.packetSize = .ok size ∧ size.toNat ≤ 268435455 := by
  have adds (a : UInt32) := ((Size.Adds.literal 1).add (.variableU32 a)).add (.value a)
  constructor
  · rintro ⟨size, sized⟩
    obtain ⟨a, body, total⟩ := Size.bind_eq_ok.mp sized
    exact ⟨a, body, ((adds a size).mp total).1.1.2⟩
  · rintro ⟨a, body, short⟩
    have narrow : variableWidth a.toNat ≤ 4 := by
      unfold variableWidth
      split_ifs <;> decide
    have lengths : announced ([1] ++ [variableWidth a.toNat] ++ [a.toNat]) =
        1 + variableWidth a.toNat + a.toNat := by
      rw [announced_eq_sum] <;> simp <;> omega
    have total : (UInt32.ofNat (1 + variableWidth a.toNat + a.toNat)).toNat =
        1 + variableWidth a.toNat + a.toNat :=
      UInt32.toNat_ofNat_of_lt' (by rw [UInt32.size]; omega)
    exact ⟨_, Size.bind_eq_ok.mpr
      ⟨a, body, (adds a _).mpr ⟨⟨⟨trivial, short⟩, trivial⟩, total.trans lengths.symm⟩⟩⟩

/-- With sizes that fit, only the fields of the body can make the writer stop. -/
theorem write_error_iff {self : MqttPacket} (fit : self.SizesFit) :
    self.write.outcome = .error (.error .invariant) ↔ self.Unwritable := by
  obtain ⟨size, sized, short⟩ := packetSize_iff.mpr fit
  obtain ⟨field, fieldEmits⟩ := writeVariableU32_ok short
  have header : (MFixedHeader.write ⟨self.packetType⟩).Ends (.error .invariant) False :=
    .of_emits (writeByte_emits.mpr rfl) id
  have length : (writeSized self.packetSize writeVariableU32).Ends (.error .invariant) False :=
    .of_emits (writeSized_emits.mpr ⟨size, sized, fieldEmits⟩) id
  have body := self.measured.error_iff fit.1 fit.2.1
  rw [write, header.seq_error_iff (length.seq_error_iff body), false_or, false_or]
  rfl

omit [Build] in
theorem Part.length_le_bodyLength {self : MqttPacket} {part : Part} (member : part ∈ self.layout) :
    part.length ≤ self.bodyLength :=
  List.le_sum_of_mem (List.mem_map_of_mem member)

theorem sum_summands {parts : List Part} (small : (parts.map Part.length).sum < 2 ^ 32) :
    (parts.flatMap Part.summands).sum = (parts.map Part.length).sum := by
  induction parts with
  | nil => rfl
  | cons part more ih =>
    rw [List.map_cons, List.sum_cons] at small ⊢
    rw [List.flatMap_cons, List.sum_append, ih (by omega)]
    congr 1
    cases part with
    | element e => simp [Part.summands, Part.length]
    | counted es =>
      have inner : (es.map Element.length).sum < 2 ^ 32 := by
        simp only [Part.length] at small
        omega
      rw [Part.summands, announced_eq_sum inner, List.sum_cons, Part.length]

theorem announced_layout {self : MqttPacket} (small : self.bodyLength < 2 ^ 32) :
    announced (self.layout.flatMap Part.summands) = self.bodyLength := by
  have same := sum_summands small
  rw [announced_eq_sum (same ▸ small), same]
  rfl

theorem bodyLength_eq {self : MqttPacket} (iterable : self.Iterable) {bytes : List UInt8}
    (emits : self.writePacket.Emits bytes ()) (short : bytes.length ≤ 268435455)
    (small : self.bodyLength < 2 ^ 32) : self.bodyLength = bytes.length := by
  have sized := packetSize_announces iterable emits short
  obtain ⟨-, total⟩ := (self.measured.adds _).mp sized
  rw [announced_layout small, UInt32.toNat_ofNat_of_lt' (by rw [UInt32.size]; omega)] at total
  exact total.symm

-- Above 2^32 the two differ: a sum may wrap to one that fits.
/-- There, sizes fit exactly when the packet is not oversized. -/
theorem sizesFit_iff {self : MqttPacket} (small : self.bodyLength < 2 ^ 32) :
    self.SizesFit ↔ self.Iterable ∧ ¬ self.Oversized := by
  have total := announced_layout small
  have inner {es : List Element} (member : .counted es ∈ self.layout) :
      announced (es.map Element.length) = (es.map Element.length).sum := by
    have le := Part.length_le_bodyLength member
    simp only [Part.length] at le
    exact announced_eq_sum (by omega)
  unfold SizesFit Oversized
  rw [total]
  refine and_congr_right fun _ => ?_
  constructor
  · rintro ⟨sizable, short⟩ (long | ⟨es, member, long⟩ | ⟨part, member, e, held, large⟩)
    · omega
    · have bound := (sizable _ member).2
      rw [inner member] at bound
      omega
    · cases part with
      | element => exact large (List.mem_singleton.mp held ▸ sizable _ member)
      | counted => exact large ((sizable _ member).1 e held)
  · intro fits
    push Not at fits
    obtain ⟨short, sections, elements⟩ := fits
    refine ⟨fun part member => ?_, short⟩
    cases part with
    | element e => exact elements _ member e (List.mem_singleton_self e)
    | counted es =>
      exact ⟨elements _ member, (inner member).le.trans (sections es member)⟩

end MqttPacket

end V5
