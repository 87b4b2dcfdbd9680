import Cloudmqtt.V5.FixedHeader
import Cloudmqtt.V5.Sections

/-! CONNECT. Its flags say which parts of the payload are there. -/

set_option autoImplicit false

namespace V5

open Base Rust

def connectFields : List PropertyKind :=
  [.sessionExpiryInterval, .receiveMaximum, .maximumPacketSize, .topicAliasMaximum,
    .requestResponseInformation, .requestProblemInformation, .userProperties,
    .authenticationMethod, .authenticationData]

def connectWillFields : List PropertyKind :=
  [.willDelayInterval, .payloadFormatIndicator, .messageExpiryInterval, .contentType,
    .responseTopic, .correlationData, .userProperties]

inductive ProtocolLevel where
  | v3
  | v5
  deriving DecidableEq, Repr

namespace ProtocolLevel

def tryFrom : UInt8 → Option ProtocolLevel
  | 3 => some .v3
  | 5 => some .v5
  | _ => none

def parse : MParser ProtocolLevel := Parser.tryMap u8 tryFrom .backtrack

def write : ProtocolLevel → WResult
  | .v3 => writeByte 3
  | .v5 => writeByte 5

end ProtocolLevel

structure ConnectFlags where
  userName : Bool
  password : Bool
  willRetain : Bool
  willQos : QualityOfService
  will : Bool
  cleanStart : Bool
  deriving DecidableEq, Repr

-- The bits are read in the order of the tuple parser, the quality of service of an
-- absent will included: the value 3 is refused even when the will flag is clear.
def ConnectFlags.tryFrom (byte : UInt8) : Option ConnectFlags := do
  let willQos ← QualityOfService.tryFrom (takeBits byte 3 2)
  if takeBits byte 7 1 = 0 then
    some ⟨takeBits byte 0 1 != 0, takeBits byte 1 1 != 0, takeBits byte 2 1 != 0, willQos,
      takeBits byte 5 1 != 0, takeBits byte 6 1 != 0⟩
  else none

structure Will where
  properties : Properties connectWillFields
  topic : String
  payload : List UInt8
  willQos : QualityOfService
  willRetain : Bool

namespace Will

def parse (willQos : QualityOfService) (willRetain : Bool) : MParser Will := do
  let properties ← Properties.parse connectWillFields
  let topic ← parseString
  let payload ← parseBinaryData
  pure ⟨properties, topic, payload, willQos, willRetain⟩

def binarySize [Build] (self : Will) : Size :=
  self.properties.binarySize + stringBinarySize self.topic + binaryDataBinarySize self.payload

def write [Build] (self : Will) : WResult := do
  self.properties.write
  writeString self.topic
  writeBinaryData self.payload

def eq (self other : Will) : Except Panic Bool :=
  andAlso (self.properties.eq other.properties)
    (.ok (decide (self.topic = other.topic ∧ self.payload = other.payload ∧
      self.willQos = other.willQos ∧ self.willRetain = other.willRetain)))

end Will

structure MConnect where
  clientIdentifier : String
  username : Option String
  password : Option (List UInt8)
  cleanStart : Bool
  will : Option Will
  properties : Properties connectFields
  keepAlive : UInt16

namespace MConnect

def parse : MParser MConnect := do
  let _ ← Parser.verify parseString (· == "MQTT") .backtrack
  let _ ← Parser.verify ProtocolLevel.parse (· == .v5) .backtrack
  let flags ← Parser.tryMap u8 ConnectFlags.tryFrom .backtrack
  let keepAlive ← parseU16
  let properties ← Properties.parse connectFields
  let clientIdentifier ← parseString
  let will ← optional flags.will (Will.parse flags.willQos flags.willRetain)
  let username ← optional flags.userName parseString
  let password ← optional flags.password parseBinaryData
  pure ⟨clientIdentifier, username, password, flags.cleanStart, will, properties, keepAlive⟩

def binarySize [Build] (self : MConnect) : Size :=
  6 + 1 + 1 + 2 + self.properties.binarySize + stringBinarySize self.clientIdentifier +
    optionSize Will.binarySize self.will + optionSize stringBinarySize self.username +
    optionSize binaryDataBinarySize self.password

def willFlags : Option Will → UInt8
  | some will =>
    ((1 : UInt8) <<< 2) ||| (will.willQos.toU8 <<< 3) ||| (will.willRetain.toUInt8 <<< 5)
  | none => 0

def flags (self : MConnect) : UInt8 :=
  (0 : UInt8) ||| (self.cleanStart.toUInt8 <<< 1) ||| willFlags self.will |||
    (self.password.isSome.toUInt8 <<< 6) ||| (self.username.isSome.toUInt8 <<< 7)

def write [Build] (self : MConnect) : WResult := do
  writeString "MQTT"
  ProtocolLevel.v5.write
  writeByte self.flags
  writeU16 self.keepAlive
  self.properties.write
  writeString self.clientIdentifier
  writeOption Will.write self.will
  writeOption writeString self.username
  writeOption writeBinaryData self.password

def writeHeader (self : MConnect) : WResult := do
  writeString "MQTT"
  ProtocolLevel.v5.write
  writeByte self.flags
  writeU16 self.keepAlive

def eq (self other : MConnect) : Except Panic Bool :=
  andAlso (.ok (decide (self.clientIdentifier = other.clientIdentifier ∧
      self.username = other.username ∧ self.password = other.password ∧
      self.cleanStart = other.cleanStart)))
    (andAlso (optionEq Will.eq self.will other.will)
      (andAlso (self.properties.eq other.properties)
        (.ok (decide (self.keepAlive = other.keepAlive)))))

structure Valid (p : MConnect) : Prop where
  properties : p.properties.Valid
  will : ∀ will, p.will = some will → will.properties.Valid

end MConnect

/-! ### Laws -/

theorem MConnect.tryFrom_flags (self : MConnect) :
    ∃ flags, ConnectFlags.tryFrom self.flags = some flags ∧
      flags.cleanStart = self.cleanStart ∧ self.will.isSome = flags.will ∧
      self.username.isSome = flags.userName ∧ self.password.isSome = flags.password ∧
      ∀ will, self.will = some will → will.willQos = flags.willQos ∧
        will.willRetain = flags.willRetain := by
  obtain ⟨_, username, password, cleanStart, will, _, _⟩ := self
  simp only [MConnect.flags]
  generalize username.isSome = hasUsername
  generalize password.isSome = hasPassword
  cases will with
  | none =>
    refine ⟨⟨hasUsername, hasPassword, false, .atMostOnce, false, cleanStart⟩, ?_, rfl, rfl, rfl,
      rfl, by simp⟩
    cases hasUsername <;> cases hasPassword <;> cases cleanStart <;> rfl
  | some will =>
    obtain ⟨properties, topic, payload, qos, retain⟩ := will
    refine ⟨⟨hasUsername, hasPassword, retain, qos, true, cleanStart⟩, ?_, rfl, rfl, rfl, rfl, ?_⟩
    · simp only [willFlags]
      cases hasUsername <;> cases hasPassword <;> cases cleanStart <;> cases qos <;>
        cases retain <;> rfl
    · rintro _ ⟨⟩
      exact ⟨rfl, rfl⟩

theorem protocolName_emits {bytes : List UInt8} {u : Unit} :
    (writeString "MQTT").Emits bytes u ↔ bytes = prefixed (asBytes "MQTT") := by
  have short : len "MQTT" ≤ 65535 := by decide
  rw [writeString_emits]
  exact and_iff_right short

theorem protocolName_length : (prefixed (asBytes "MQTT")).length = 6 := by
  rw [length_prefixed, length_asBytes]
  rfl

theorem ProtocolLevel.tryFrom_v5 {byte : UInt8} (found : tryFrom byte = some .v5) : byte = 5 := by
  unfold tryFrom at found
  split at found
  · cases found
  · rfl
  · cases found

theorem connectFields_nodup : connectFields.Nodup := by decide

theorem connectWillFields_nodup : connectWillFields.Nodup := by decide

theorem Will.faithful [Build] (qos : QualityOfService) (retain : Bool) :
    Faithful (fun self : Will => (self.willQos = qos ∧ self.willRetain = retain) ∧
      self.properties.Valid) Will.eq (Will.parse qos retain) Will.binarySize Will.write where
  isLocal := (Properties.parse_local _).bind fun _ => parseString_exact.isLocal.bind fun _ =>
    parseBinaryData_exact.isLocal.bind fun _ => .pure _
  reads {self _} valid emits short := by
    obtain ⟨⟨rfl, rfl⟩, valid⟩ := valid
    obtain ⟨s, t, u, first, second, third, rfl⟩ := Emit.seq_seq_emits.mp emits
    simp only [List.length_append] at short
    obtain ⟨properties, reads, same⟩ :=
      Properties.reads connectWillFields_nodup valid first (by omega)
    refine ⟨{ self with properties }, ?_, andAlso_eq_true.mpr ⟨same, by simp⟩⟩
    have all : (Will.parse self.willQos self.willRetain).Reads (s ++ (t ++ (u ++ [])))
        { self with properties } :=
      reads.bind ((parseString_exact.reads second).bind ((parseBinaryData_exact.reads third).bind
        (.pure _)))
    rwa [List.append_nil] at all
  size {self _} valid emits := by
    obtain ⟨s, t, u, first, second, third, rfl⟩ := Emit.seq_seq_emits.mp emits
    rw [← List.append_assoc, List.length_append, List.length_append]
    exact ((Properties.size valid.2 first).add (parseString_exact.size second)).add
      (parseBinaryData_exact.size third)
  rewrites {input rest self} run := by
    obtain ⟨properties, _, topic, _, payload, read, topicRead, payloadRead, rfl⟩ :=
      Parser.triple_eq_ok.mp run
    obtain ⟨valid, s, first, fewerS⟩ := Properties.rewrites connectWillFields_nodup read
    obtain ⟨t, second, fewerT⟩ := parseString_exact.rewrites topicRead
    obtain ⟨u, third, fewerU⟩ := parseBinaryData_exact.rewrites payloadRead
    refine ⟨⟨⟨rfl, rfl⟩, valid⟩, s ++ (t ++ u),
      Emit.seq_seq_emits.mpr ⟨s, t, u, first, second, third, rfl⟩, ?_⟩
    simp only [List.length_append]
    omega

namespace MConnect

theorem header_length (flags : UInt8) (keepAlive : UInt16) (rest : List UInt8) :
    (prefixed (asBytes "MQTT") ++ ([5] ++ ([flags] ++ (u16Bytes keepAlive ++
      rest)))).length = 6 + 1 + 1 + 2 + rest.length := by
  have word : (u16Bytes keepAlive).length = 2 := rfl
  simp only [List.length_append, protocolName_length, List.length_singleton, word]
  omega

theorem header_flags (flags : UInt8) (rest : List UInt8) :
    (prefixed (asBytes "MQTT") ++ ([5] ++ ([flags] ++ rest)))[7]? = some flags := by
  have front : (prefixed (asBytes "MQTT") ++ [5]).length = 7 := by
    rw [List.length_append, protocolName_length, List.length_singleton]
  rw [← List.append_assoc, List.getElem?_append_right (by omega), front]
  rfl

def parseBehind (flags : ConnectFlags) : MParser MConnect := do
  let keepAlive ← parseU16
  let properties ← Properties.parse connectFields
  let clientIdentifier ← parseString
  let will ← optional flags.will (Will.parse flags.willQos flags.willRetain)
  let username ← optional flags.userName parseString
  let password ← optional flags.password parseBinaryData
  pure ⟨clientIdentifier, username, password, flags.cleanStart, will, properties, keepAlive⟩

theorem parse_eq_ok {input rest : List UInt8} {self : MConnect}
    (run : parse input = .ok (self, rest)) : ∃ flagsByte flags tail,
      ConnectFlags.tryFrom flagsByte = some flags ∧
      input = prefixed (asBytes "MQTT") ++ ([5] ++ ([flagsByte] ++ tail)) ∧
      parseBehind flags tail = .ok (self, rest) := by
  obtain ⟨_, _, nameRead, run⟩ := Parser.bind_eq_ok.mp run
  obtain ⟨_, _, levelRead, run⟩ := Parser.bind_eq_ok.mp run
  obtain ⟨flags, tail, flagsRead, behind⟩ := Parser.bind_eq_ok.mp run
  obtain ⟨nameRead, isName⟩ := Parser.verify_eq_ok.mp nameRead
  obtain rfl := eq_of_beq isName
  obtain ⟨-, rfl⟩ := parseString_eq_ok.mp nameRead
  obtain ⟨levelRead, isV5⟩ := Parser.verify_eq_ok.mp levelRead
  obtain ⟨level, levelByteRead, found⟩ := Parser.tryMap_eq_ok.mp levelRead
  obtain rfl := u8_eq_ok.mp levelByteRead
  obtain rfl := eq_of_beq isV5
  obtain rfl := ProtocolLevel.tryFrom_v5 found
  obtain ⟨flagsByte, flagsByteRead, foundFlags⟩ := Parser.tryMap_eq_ok.mp flagsRead
  obtain rfl := u8_eq_ok.mp flagsByteRead
  exact ⟨flagsByte, flags, tail, foundFlags, rfl, behind⟩

/-- Where the parts of a CONNECT behind its flags are read, as the flags say. -/
structure Parts (flags : ConnectFlags) (input rest : List UInt8) (c : MConnect)
    (tail : List UInt8) : Prop where
  split : input = u16Bytes c.keepAlive ++ tail
  cleanStart : c.cleanStart = flags.cleanStart
  payload : ∃ t, Properties.parse connectFields tail = .ok (c.properties, t) ∧
    ∃ u, parseString t = .ok (c.clientIdentifier, u) ∧
      ∃ v, optional flags.will (Will.parse flags.willQos flags.willRetain) u =
          .ok (c.will, v) ∧
        ∃ w, optional flags.userName parseString v = .ok (c.username, w) ∧
          optional flags.password parseBinaryData w = .ok (c.password, rest)

theorem parseBehind_eq_ok {flags : ConnectFlags} {input rest : List UInt8} {self : MConnect}
    (run : parseBehind flags input = .ok (self, rest)) :
    ∃ tail, Parts flags input rest self tail := by
  obtain ⟨keepAlive, tail, wordRead, run⟩ := Parser.bind_eq_ok.mp run
  obtain ⟨properties, t, read, run⟩ := Parser.bind_eq_ok.mp run
  obtain ⟨client, u, clientRead, run⟩ := Parser.bind_eq_ok.mp run
  obtain ⟨will, v, willRead, run⟩ := Parser.bind_eq_ok.mp run
  obtain ⟨username, w, usernameRead, run⟩ := Parser.bind_eq_ok.mp run
  obtain ⟨password, _, passwordRead, run⟩ := Parser.bind_eq_ok.mp run
  obtain ⟨rfl, rfl⟩ := Prod.mk.inj (Except.ok.inj run)
  obtain rfl := parseU16_eq_ok.mp wordRead
  exact ⟨tail, rfl, rfl, t, read, u, clientRead, v, willRead, w, usernameRead, passwordRead⟩

variable [Build]

theorem write_emits {self : MConnect} {bytes : List UInt8} :
    self.write.Emits bytes () ↔ ∃ properties client will username password,
      self.properties.write.Emits properties () ∧
      (writeString self.clientIdentifier).Emits client () ∧
      (writeOption Will.write self.will).Emits will () ∧
      (writeOption writeString self.username).Emits username () ∧
      (writeOption writeBinaryData self.password).Emits password () ∧
      bytes = prefixed (asBytes "MQTT") ++ ([5] ++ ([self.flags] ++ (u16Bytes self.keepAlive ++
        (properties ++ (client ++ (will ++ (username ++ password))))))) := by
  simp only [write, Emit.seq_emits, protocolName_emits, ProtocolLevel.write, writeByte_emits,
    writeU16_emits]
  constructor
  · rintro ⟨_, _, rfl, ⟨_, _, rfl, ⟨_, _, rfl, ⟨_, _, rfl, ⟨p, _, hp, ⟨c, _, hc, ⟨w, _, hw,
      ⟨n, s, hn, hs, rfl⟩, rfl⟩, rfl⟩, rfl⟩, rfl⟩, rfl⟩, rfl⟩, rfl⟩
    exact ⟨p, c, w, n, s, hp, hc, hw, hn, hs, rfl⟩
  · rintro ⟨p, c, w, n, s, hp, hc, hw, hn, hs, rfl⟩
    exact ⟨_, _, rfl, ⟨_, _, rfl, ⟨_, _, rfl, ⟨_, _, rfl, ⟨p, _, hp, ⟨c, _, hc, ⟨w, _, hw,
      ⟨n, s, hn, hs, rfl⟩, rfl⟩, rfl⟩, rfl⟩, rfl⟩, rfl⟩, rfl⟩, rfl⟩

theorem reads {self : MConnect} (valid : self.Valid) {bytes : List UInt8}
    (emits : self.write.Emits bytes ()) (short : bytes.length ≤ 268435455) :
    ∃ p, parse.Reads bytes p ∧ p.eq self = .ok true := by
  obtain ⟨p, c, w, n, s, hp, hc, hw, hn, hs, rfl⟩ := write_emits.mp emits
  rw [header_length] at short
  simp only [List.length_append] at short
  obtain ⟨flags, found, clean, hasWill, hasName, hasPassword, willFlags⟩ := self.tryFrom_flags
  obtain ⟨properties, readsP, sameP⟩ :=
    Properties.reads connectFields_nodup valid.properties hp (by omega)
  obtain ⟨will, readsW, sameW⟩ := ((Will.faithful flags.willQos flags.willRetain).option
    flags.will).reads ⟨hasWill, fun b held => ⟨willFlags b held, valid.will b held⟩⟩ hw (by omega)
  obtain ⟨username, readsN, sameN⟩ := (parseString_exact.faithful.option flags.userName).reads
    ⟨hasName, fun _ _ => trivial⟩ hn (by omega)
  obtain ⟨password, readsS, sameS⟩ := (parseBinaryData_exact.faithful.option flags.password).reads
    ⟨hasPassword, fun _ _ => trivial⟩ hs (by omega)
  refine ⟨⟨self.clientIdentifier, username, password, flags.cleanStart, will, properties,
    self.keepAlive⟩, ?_, ?_⟩
  · have name : (Parser.verify parseString (· == "MQTT") ErrMode.backtrack).Reads
        (prefixed (asBytes "MQTT")) "MQTT" :=
      (parseString_exact.reads (protocolName_emits.mpr rfl)).verify rfl
    have level : (Parser.verify ProtocolLevel.parse (· == .v5) ErrMode.backtrack).Reads [5] .v5 :=
      Parser.Reads.verify (show ProtocolLevel.parse.Reads [5] .v5 from (u8_reads 5).tryMap rfl) rfl
    have all : parse.Reads (prefixed (asBytes "MQTT") ++ ([5] ++ ([self.flags] ++
        (u16Bytes self.keepAlive ++ (p ++ (c ++ (w ++ (n ++ (s ++ [])))))))))
        ⟨self.clientIdentifier, username, password, flags.cleanStart, will, properties,
          self.keepAlive⟩ :=
      name.bind (level.bind (((u8_reads _).tryMap found).bind
        ((parseU16_exact.reads (writeU16_emits.mpr rfl)).bind (readsP.bind
          ((parseString_exact.reads hc).bind (readsW.bind (readsN.bind (readsS.bind
            (.pure _)))))))))
    rwa [List.append_nil] at all
  · have sameName := optionEq_exact.mp sameN
    have samePassword := optionEq_exact.mp sameS
    exact andAlso_eq_true.mpr ⟨by simp [sameName, samePassword, clean],
      andAlso_eq_true.mpr ⟨sameW, andAlso_eq_true.mpr ⟨sameP, by simp⟩⟩⟩

theorem size {self : MConnect} (valid : self.Valid) {bytes : List UInt8}
    (emits : self.write.Emits bytes ()) : self.binarySize.Announces bytes.length := by
  obtain ⟨p, c, w, n, s, hp, hc, hw, hn, hs, rfl⟩ := write_emits.mp emits
  have fixed : (6 + 1 + 1 + 2 : Size).Announces 10 :=
    (((Size.announces_literal 6).add (Size.announces_literal 1)).add
      (Size.announces_literal 1)).add (Size.announces_literal 2)
  have willSize : (optionSize Will.binarySize self.will).Announces w.length := by
    cases held : self.will with
    | none =>
      rw [held] at hw
      obtain ⟨rfl, -⟩ := Emit.pure_emits.mp hw
      exact Size.announces_literal 0
    | some will =>
      rw [held] at hw
      exact (Will.faithful _ _).size ⟨⟨rfl, rfl⟩, valid.will will held⟩ hw
  have sum := ((((fixed.add (Properties.size valid.properties hp)).add
    (parseString_exact.size hc)).add willSize).add (optionSize_announces parseString_exact hn)).add
      (optionSize_announces parseBinaryData_exact hs)
  refine sum.congr ?_
  rw [header_length]
  simp only [List.length_append]
  omega

theorem rewrites {input rest : List UInt8} {self : MConnect}
    (run : parse input = .ok (self, rest)) :
    self.Valid ∧
      ∃ bytes, self.write.Emits bytes () ∧ bytes.length + rest.length ≤ input.length := by
  obtain ⟨_, flags, _, -, rfl, behind⟩ := parse_eq_ok run
  obtain ⟨_, parts⟩ := parseBehind_eq_ok behind
  obtain ⟨_, read, _, clientRead, _, willRead, _, usernameRead, passwordRead⟩ := parts.payload
  obtain ⟨valid, p, hp, fewerP⟩ := Properties.rewrites connectFields_nodup read
  obtain ⟨c, hc, fewerC⟩ := parseString_exact.rewrites clientRead
  obtain ⟨⟨-, willValid⟩, w, hw, fewerW⟩ := ((Will.faithful _ _).option _).rewrites willRead
  obtain ⟨-, n, hn, fewerN⟩ := (parseString_exact.faithful.option _).rewrites usernameRead
  obtain ⟨-, s, hs, fewerS⟩ := (parseBinaryData_exact.faithful.option _).rewrites passwordRead
  refine ⟨⟨valid, fun b held => (willValid b held).2⟩, _,
    write_emits.mpr ⟨p, c, w, n, s, hp, hc, hw, hn, hs, rfl⟩, ?_⟩
  rw [parts.split, header_length, header_length]
  simp only [List.length_append]
  omega

theorem body : Body 0 Valid eq parse binarySize write where
  reads valid emits short := by
    obtain ⟨p, reads, same⟩ := reads valid emits short
    exact ⟨p, reads.whole, same⟩
  size valid emits := size valid emits
  rewrites run := by
    obtain ⟨valid, bytes, emits, fewer⟩ := rewrites run
    exact ⟨valid, bytes, emits, by omega⟩

end MConnect

end V5
