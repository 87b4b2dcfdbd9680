import Cloudmqtt.Base.Drain
import Cloudmqtt.V5.Strings

/-! Components of variable headers: packet identifiers, properties and user properties.

A `UserProperties` value is a slice of the section it was found in. It begins
with a string pair and runs on to the end of the section; its iterator parses
the later properties again and gives the user properties among them.
-/

set_option autoImplicit false

namespace V5

open Base Rust

structure PacketIdentifier where
  value : NonZeroU16
  deriving DecidableEq

namespace PacketIdentifier

def parse : MParser PacketIdentifier := PacketIdentifier.mk <$> parseU16Nonzero

def binarySize (_ : PacketIdentifier) : Size := 2

def write (self : PacketIdentifier) : WResult := writeU16 self.value.get

end PacketIdentifier

structure UserProperty where
  key : String
  value : String
  deriving DecidableEq

namespace UserProperty

def parse : MParser UserProperty := (fun (k, v) => ⟨k, v⟩) <$> parseStringPair

def binarySize [Build] (self : UserProperty) : Size := stringPairBinarySize self.key self.value

def write (self : UserProperty) : WResult := do
  writeString self.key
  writeString self.value

end UserProperty

structure UserProperties where
  slice : List UInt8

-- What follows the first pair is not looked at here: it is parsed by the section
-- this slice was found in, and again by the iterator.
/-- The input is kept whole as the slice, but only one string pair is consumed. -/
def UserProperties.parse : MParser UserProperties := fun input =>
  match UserProperty.parse.recognize input with
  | .ok (_, rest) => .ok (⟨input⟩, rest)
  | .error e => .error e

/-! ### The property table -/

-- One table for the types that `define_properties!` makes of the properties: each
-- has its identifier, the shape of its value and whether it may come twice.
/-- What a property's value is and which functions read and write it. -/
inductive Shape where
  | u8
  | u16
  | nonZeroU16
  | u32
  | variableU32
  | bool
  | maximumQualityOfService
  | string
  | binaryData
  | userProperties
  deriving DecidableEq

@[reducible] def Shape.Value : Shape → Type
  | u8 => UInt8
  | u16 => UInt16
  | nonZeroU16 => NonZeroU16
  | u32 => UInt32
  | variableU32 => UInt32
  | bool => Bool
  | maximumQualityOfService => MaximumQualityOfService
  | string => String
  | binaryData => List UInt8
  | userProperties => UserProperties

def Shape.parse : (shape : Shape) → MParser shape.Value
  | u8 => V5.u8
  | u16 => parseU16
  | nonZeroU16 => parseU16Nonzero
  | u32 => parseU32
  | variableU32 => parseVariableU32
  | bool => parseBool
  | maximumQualityOfService => parseMaximumQualityOfService
  | string => parseString
  | binaryData => parseBinaryData
  | userProperties => UserProperties.parse

inductive PropertyKind where
  | payloadFormatIndicator
  | messageExpiryInterval
  | contentType
  | responseTopic
  | correlationData
  | subscriptionIdentifier
  | sessionExpiryInterval
  | assignedClientIdentifier
  | serverKeepAlive
  | authenticationMethod
  | authenticationData
  | requestProblemInformation
  | willDelayInterval
  | requestResponseInformation
  | responseInformation
  | serverReference
  | reasonString
  | receiveMaximum
  | topicAliasMaximum
  | topicAlias
  | maximumQoS
  | retainAvailable
  | maximumPacketSize
  | wildcardSubscriptionAvailable
  | subscriptionIdentifiersAvailable
  | sharedSubscriptionAvailable
  | userProperties
  deriving DecidableEq

namespace PropertyKind

def identifier : PropertyKind → UInt32
  | payloadFormatIndicator => 0x01
  | messageExpiryInterval => 0x02
  | contentType => 0x03
  | responseTopic => 0x08
  | correlationData => 0x09
  | subscriptionIdentifier => 0x0B
  | sessionExpiryInterval => 0x11
  | assignedClientIdentifier => 0x12
  | serverKeepAlive => 0x13
  | authenticationMethod => 0x15
  | authenticationData => 0x16
  | requestProblemInformation => 0x17
  | willDelayInterval => 0x18
  | requestResponseInformation => 0x19
  | responseInformation => 0x1A
  | serverReference => 0x1C
  | reasonString => 0x1F
  | receiveMaximum => 0x21
  | topicAliasMaximum => 0x22
  | topicAlias => 0x23
  | maximumQoS => 0x24
  | retainAvailable => 0x25
  | userProperties => 0x26
  | maximumPacketSize => 0x27
  | wildcardSubscriptionAvailable => 0x28
  | subscriptionIdentifiersAvailable => 0x29
  | sharedSubscriptionAvailable => 0x2A

def allowRepeating (kind : PropertyKind) : Bool := kind = userProperties

@[reducible] def shape : PropertyKind → Shape
  | payloadFormatIndicator | requestProblemInformation | requestResponseInformation
  | wildcardSubscriptionAvailable | subscriptionIdentifiersAvailable
  | sharedSubscriptionAvailable => .u8
  | messageExpiryInterval | sessionExpiryInterval | willDelayInterval | maximumPacketSize => .u32
  | contentType | responseTopic | assignedClientIdentifier | authenticationMethod
  | responseInformation | serverReference | reasonString => .string
  | correlationData | authenticationData => .binaryData
  | subscriptionIdentifier => .variableU32
  | serverKeepAlive | topicAliasMaximum => .u16
  | receiveMaximum | topicAlias => .nonZeroU16
  | maximumQoS => .maximumQualityOfService
  | retainAvailable => .bool
  | userProperties => .userProperties

abbrev Value (kind : PropertyKind) : Type := kind.shape.Value

/-- The order of the dispatch in `Property::parse`. -/
def all : List PropertyKind :=
  [payloadFormatIndicator, messageExpiryInterval, contentType, responseTopic, correlationData,
    subscriptionIdentifier, sessionExpiryInterval, assignedClientIdentifier, serverKeepAlive,
    authenticationMethod, authenticationData, requestProblemInformation, willDelayInterval,
    requestResponseInformation, responseInformation, serverReference, reasonString, receiveMaximum,
    topicAliasMaximum, topicAlias, maximumQoS, retainAvailable, maximumPacketSize,
    wildcardSubscriptionAvailable, subscriptionIdentifiersAvailable, sharedSubscriptionAvailable,
    userProperties]

theorem mem_all (kind : PropertyKind) : kind ∈ all := by
  cases kind <;> decide

theorem identifier_injective {first second : PropertyKind}
    (same : first.identifier = second.identifier) : first = second := by
  have distinct : ∀ a ∈ all, ∀ b ∈ all, a.identifier = b.identifier → a = b := by decide
  exact distinct _ (mem_all first) _ (mem_all second) same

theorem identifier_small (kind : PropertyKind) : kind.identifier.toNat ≤ 127 := by
  cases kind <;> decide

theorem shape_eq_userProperties {kind : PropertyKind} :
    kind.shape = .userProperties ↔ kind = userProperties := by
  cases kind <;> decide

end PropertyKind

structure Property where
  kind : PropertyKind
  value : kind.Value

namespace Property

/-- A property identifier, dispatched to the first of the kinds that has it. -/
def parseAmong (kinds : List PropertyKind) : MParser Property := do
  let id ← parseVariableU32
  match kinds.find? fun kind => kind.identifier = id with
  | some kind => Property.mk kind <$> kind.shape.parse
  | none => Parser.fail .backtrack

def parse : MParser Property := parseAmong PropertyKind.all

def userProperties : Property → Option UserProperties
  | ⟨.userProperties, prop⟩ => some prop
  | _ => none

end Property

/-! ### Iterating over user properties -/

structure UserPropertyIterator where
  current : List UInt8
  firstProp : Bool

namespace UserPropertyIterator

/-- The loop that skips to the next user property. The bound counts properties. -/
def seek : Nat → List UInt8 → Except Panic (Option (UserProperty × List UInt8))
  | _, [] => .ok none
  | 0, _ :: _ => .ok none
  | bound + 1, b :: bytes =>
    match Property.parse (b :: bytes) with
    | .error _ => .error (.expect "This has already been parsed, and should be valid.")
    | .ok (property, rest) =>
      match property.userProperties with
      | some prop =>
        match UserProperty.parse prop.slice with
        | .ok (up, _) => .ok (some (up, rest))
        | .error _ => .error (.expect "This has already been parsed and should be valid")
      | none => seek bound rest

def next : Next Panic UserPropertyIterator UserProperty := fun self =>
  if self.firstProp then
    match UserProperty.parse self.current with
    | .ok (up, rest) => .ok (some (up, ⟨rest, false⟩))
    | .error _ => .error (.expect
        "This has already been parsed and the first item should be a UserProperty")
  else (seek self.current.length self.current).map
    (Option.map fun (up, rest) => (up, ⟨rest, false⟩))

end UserPropertyIterator

namespace UserProperties

def iter (self : UserProperties) : UserPropertyIterator := ⟨self.slice, true⟩

/-- Everything the iterator gives. Each item takes at least one byte. -/
def pairs (self : UserProperties) : Drained Panic UserProperty :=
  drain UserPropertyIterator.next (self.slice.length + 1) self.iter

def eq (self other : UserProperties) : Except Panic Bool := self.pairs.eq other.pairs

def identifier : UInt32 := PropertyKind.userProperties.identifier

def binarySize [Build] (self : UserProperties) : Size :=
  let sizes := self.pairs.items.zipIdx.map fun (up, idx) =>
    up.binarySize + if idx = 0 then 0 else variableU32BinarySize identifier
  let total := sizes.foldl (· + ·) 0
  match self.pairs.failure with
  | none => total
  | some p => total.bind fun _ => Size.panic p

def write (self : UserProperties) : WResult :=
  match self.pairs with
  | ⟨[], some p⟩ => Emit.fault (.panic p)
  | ⟨[], none⟩ =>
    Emit.fault (.panic (.expect "There is always at least one UserProperty available"))
  | ⟨first :: more, failure⟩ => do
    first.write
    Emit.each (fun up => do
      writeVariableU32 identifier
      up.write) more
    match failure with
    | none => pure ()
    | some p => Emit.fault (.panic p)

end UserProperties

namespace Shape

def binarySize [Build] : (shape : Shape) → shape.Value → Size
  | u8, _ => 1
  | u16, _ => 2
  | nonZeroU16, _ => 2
  | u32, _ => 4
  | variableU32, v => variableU32BinarySize v
  | bool, _ => 1
  | maximumQualityOfService, _ => 1
  | string, v => stringBinarySize v
  | binaryData, v => binaryDataBinarySize v
  | userProperties, v => v.binarySize

def write : (shape : Shape) → shape.Value → WResult
  | u8, v => writeByte v
  | u16, v => writeU16 v
  | nonZeroU16, v => writeU16Nonzero v
  | u32, v => writeU32 v
  | variableU32, v => writeVariableU32 v
  | bool, v => writeBool v
  | maximumQualityOfService, v => writeMaximumQualityOfService v
  | string, v => writeString v
  | binaryData, v => writeBinaryData v
  | userProperties, v => v.write

def eq : (shape : Shape) → shape.Value → shape.Value → Except Panic Bool
  | u8, a, b => .ok (a == b)
  | u16, a, b => .ok (a == b)
  | nonZeroU16, a, b => .ok (decide (a = b))
  | u32, a, b => .ok (a == b)
  | variableU32, a, b => .ok (a == b)
  | bool, a, b => .ok (a == b)
  | maximumQualityOfService, a, b => .ok (decide (a = b))
  | string, a, b => .ok (a == b)
  | binaryData, a, b => .ok (a == b)
  | userProperties, a, b => a.eq b

end Shape

/-! ### Laws of single properties -/

theorem PacketIdentifier.exact :
    Exact PacketIdentifier.parse PacketIdentifier.binarySize PacketIdentifier.write where
  isLocal := parseU16Nonzero_exact.isLocal.map _
  shrinks := parseU16Nonzero_exact.shrinks.map _
  reads emits := (parseU16Nonzero_exact.reads emits).map _
  size emits := parseU16Nonzero_exact.size emits
  rewrites run := by
    obtain ⟨u, read, rfl⟩ := Parser.map_eq_ok.mp run
    exact parseU16Nonzero_exact.rewrites read

def UserProperty.bytes (up : UserProperty) : List UInt8 :=
  prefixed (asBytes up.key) ++ prefixed (asBytes up.value)

def UserProperty.Fits (up : UserProperty) : Prop := len up.key ≤ 65535 ∧ len up.value ≤ 65535

theorem UserProperty.parse_eq_ok {input rest : List UInt8} {up : UserProperty} :
    UserProperty.parse input = .ok (up, rest) ↔ up.Fits ∧ input = up.bytes ++ rest := by
  obtain ⟨key, value⟩ := up
  simp only [UserProperty.parse, parseStringPair, Parser.map_eq_ok, Parser.bind_eq_ok,
    Parser.pure_apply, parseString_eq_ok, Except.ok.injEq, Prod.mk.injEq, UserProperty.mk.injEq]
  constructor
  · rintro ⟨_, ⟨k, middle, ⟨shortK, rfl⟩, v, _, ⟨shortV, rfl⟩, rfl, rfl⟩, rfl, rfl⟩
    exact ⟨⟨shortK, shortV⟩, (List.append_assoc _ _ _).symm⟩
  · rintro ⟨⟨shortK, shortV⟩, rfl⟩
    exact ⟨(key, value), ⟨key, _, ⟨shortK, List.append_assoc _ _ _⟩, value, _, ⟨shortV, rfl⟩,
      rfl, rfl⟩, rfl, rfl⟩

theorem UserProperty.write_emits {up : UserProperty} {bytes : List UInt8} {u : Unit} :
    up.write.Emits bytes u ↔ up.Fits ∧ bytes = up.bytes := by
  simp only [UserProperty.write, Emit.seq_emits, writeString_emits]
  constructor
  · rintro ⟨_, _, ⟨shortK, rfl⟩, ⟨shortV, rfl⟩, rfl⟩
    exact ⟨⟨shortK, shortV⟩, rfl⟩
  · rintro ⟨⟨shortK, shortV⟩, rfl⟩
    exact ⟨_, _, ⟨shortK, rfl⟩, ⟨shortV, rfl⟩, rfl⟩

theorem UserProperty.parse_shrinks : UserProperty.parse.Shrinks :=
  (parseString_exact.shrinks.bind fun _ =>
    (parseString_exact.isLocal.bind fun _ => .pure _).suffixes).map _

theorem UserProperty.exact [Build] :
    Exact UserProperty.parse UserProperty.binarySize UserProperty.write := by
  refine .of_canonical UserProperty.parse_shrinks ?_ ?_ ?_
  · intro up bytes emits rest
    obtain ⟨fits, rfl⟩ := UserProperty.write_emits.mp emits
    exact UserProperty.parse_eq_ok.mpr ⟨fits, rfl⟩
  · intro up bytes emits
    obtain ⟨⟨shortK, shortV⟩, rfl⟩ := UserProperty.write_emits.mp emits
    rw [UserProperty.bytes, List.length_append]
    exact (parseString_exact.size (writeString_emits.mpr ⟨shortK, rfl⟩)).add
      (parseString_exact.size (writeString_emits.mpr ⟨shortV, rfl⟩))
  · intro input rest up run
    obtain ⟨fits, rfl⟩ := UserProperty.parse_eq_ok.mp run
    exact ⟨_, UserProperty.write_emits.mpr ⟨fits, rfl⟩, rfl⟩

theorem UserProperties.parse_eq_ok {input rest : List UInt8} {prop : UserProperties} :
    UserProperties.parse input = .ok (prop, rest) ↔
      prop.slice = input ∧ ∃ up, UserProperty.parse input = .ok (up, rest) := by
  obtain ⟨slice⟩ := prop
  simp only [UserProperties.parse, Parser.recognize]
  cases UserProperty.parse input with
  | error e => simp
  | ok pair =>
    obtain ⟨up, left⟩ := pair
    simp [eq_comm]

theorem UserProperties.parse_shrinks : UserProperties.parse.Shrinks := by
  intro input prop rest run
  obtain ⟨-, up, read⟩ := UserProperties.parse_eq_ok.mp run
  exact UserProperty.parse_shrinks _ _ _ read

theorem Shape.exact [Build] {shape : Shape} (plain : shape ≠ .userProperties) :
    Exact shape.parse shape.binarySize shape.write := by
  cases shape with
  | u8 => exact u8_exact
  | u16 => exact parseU16_exact
  | nonZeroU16 => exact parseU16Nonzero_exact
  | u32 => exact parseU32_exact
  | variableU32 => exact parseVariableU32_exact
  | bool => exact parseBool_exact
  | maximumQualityOfService => exact parseMaximumQualityOfService_exact
  | string => exact parseString_exact
  | binaryData => exact parseBinaryData_exact
  | userProperties => exact absurd rfl plain

theorem Shape.parse_local (shape : Shape) (plain : shape ≠ .userProperties) :
    shape.parse.Local := by
  have : Build := development
  exact (Shape.exact plain).isLocal

theorem Shape.parse_shrinks (shape : Shape) : shape.parse.Shrinks := by
  cases shape with
  | u8 => exact u8_shrinks
  | u16 => exact parseU16_exact.shrinks
  | nonZeroU16 => exact parseU16Nonzero_exact.shrinks
  | u32 => exact parseU32_exact.shrinks
  | variableU32 => exact parseVariableU32_shrinks
  | bool => exact parseBool_exact.shrinks
  | maximumQualityOfService => exact parseMaximumQualityOfService_exact.shrinks
  | string => exact parseString_exact.shrinks
  | binaryData => exact parseBinaryData_shrinks
  | userProperties => exact UserProperties.parse_shrinks

theorem Shape.eq_plain {shape : Shape} (plain : shape ≠ .userProperties) (a b : shape.Value) :
    shape.eq a b = .ok true ↔ a = b := by
  cases shape with
  | userProperties => exact absurd rfl plain
  | _ => simp [Shape.eq]

def PropertyKind.code (kind : PropertyKind) : UInt8 := kind.identifier.toUInt8

theorem PropertyKind.identifier_emits {kind : PropertyKind} {bytes : List UInt8} {u : Unit} :
    (writeVariableU32 kind.identifier).Emits bytes u ↔ bytes = [kind.code] := by
  have small : kind.identifier ≤ 127 := UInt32.le_iff_toNat_le.mpr kind.identifier_small
  rw [writeVariableU32, if_pos small]
  exact writeByte_emits

theorem PropertyKind.code_reads (kind : PropertyKind) :
    parseVariableU32.Reads [kind.code] kind.identifier :=
  parseVariableU32_exact.reads (identifier_emits.mpr rfl)

theorem PropertyKind.identifier_size (kind : PropertyKind) :
    (variableU32BinarySize kind.identifier).Announces 1 :=
  parseVariableU32_exact.size (identifier_emits.mpr rfl)

/-- Which bytes are a property identifier, and which kind they name. -/
theorem Property.parseAmong_eq_ok {kinds : List PropertyKind} {input rest : List UInt8}
    {property : Property} :
    Property.parseAmong kinds input = .ok (property, rest) ↔ property.kind ∈ kinds ∧
      ∃ middle, parseVariableU32 input = .ok (property.kind.identifier, middle) ∧
        property.kind.shape.parse middle = .ok (property.value, rest) := by
  obtain ⟨kind, value⟩ := property
  simp only [Property.parseAmong, Parser.bind_eq_ok]
  constructor
  · rintro ⟨id, middle, read, run⟩
    cases named : kinds.find? fun kind => kind.identifier = id with
    | none => simp [named, Parser.fail] at run
    | some found =>
      simp only [named] at run
      obtain ⟨v, valueRead, same⟩ := Parser.map_eq_ok.mp run
      obtain ⟨rfl, same⟩ := Property.mk.inj same
      obtain rfl := eq_of_heq same
      have sameId := List.find?_some named
      simp only [decide_eq_true_eq] at sameId
      exact ⟨List.mem_of_find?_eq_some named, middle, sameId ▸ read, valueRead⟩
  · rintro ⟨member, middle, read, valueRead⟩
    refine ⟨kind.identifier, middle, read, ?_⟩
    have named : (kinds.find? fun k => k.identifier = kind.identifier) = some kind := by
      cases found : kinds.find? fun k => k.identifier = kind.identifier with
      | none => simpa using List.find?_eq_none.mp found kind member
      | some k =>
        have sameId := List.find?_some found
        simp only [decide_eq_true_eq] at sameId
        rw [PropertyKind.identifier_injective sameId]
    simp only [named]
    exact Parser.map_eq_ok.mpr ⟨value, valueRead, rfl⟩

theorem Property.parseAmong_shrinks (kinds : List PropertyKind) :
    (Property.parseAmong kinds).Shrinks := by
  intro input property rest run
  obtain ⟨-, middle, read, valueRead⟩ := Property.parseAmong_eq_ok.mp run
  exact Nat.lt_trans (property.kind.shape.parse_shrinks _ _ _ valueRead)
    (parseVariableU32_shrinks _ _ _ read)

theorem Property.parse_of_parseAmong {kinds : List PropertyKind} {input rest : List UInt8}
    {property : Property} (run : Property.parseAmong kinds input = .ok (property, rest)) :
    Property.parse input = .ok (property, rest) :=
  Property.parseAmong_eq_ok.mpr
    ⟨PropertyKind.mem_all _, (Property.parseAmong_eq_ok.mp run).2⟩

end V5
