import Cloudmqtt.V3.Lengths

/-! The body of a CONNECT, written and read back. -/

set_option autoImplicit false

namespace V3

open Base Rust

open V5 (Digits)

theorem reads_ensure {α : Type} {holds : Bool} {p : MParser α} {bytes : List UInt8} {a : α}
    (ok : holds = true) (next : p.Reads bytes a) : (ensure holds >>= fun _ => p).Reads bytes a := by
  intro rest
  apply Parser.bind_eq_ok.mpr
  exact ⟨(), bytes ++ rest, ensure_eq_ok.mpr ⟨ok, rfl⟩, next rest⟩

theorem u8_reads (b : UInt8) : u8.Reads [b] b := fun _ => rfl

theorem beU16_reads (u : UInt16) : beU16.Reads (toBeBytes u) u := fun _ => beU16_eq_ok.mpr rfl

theorem mpayload_reads {data : List UInt8} (short : data.length ≤ 65535) :
    mpayload.Reads (prefixed data) data :=
  fun _ => lengthTake_eq_ok.mpr ⟨short, rfl⟩

theorem whenFlag_reads {α : Type} {option : Option α} {p : MParser α} {bytes : α → List UInt8}
    {read : α → α} (reads : ∀ a ∈ option, p.Reads (bytes a) (read a)) :
    (whenFlag option.isSome p).Reads (present option bytes) (option.map read) := by
  cases option with
  | none => exact Parser.Reads.pure none
  | some a => exact (reads a rfl).map some

/-! ### The flags -/

theorem connectFlags_boolsToU8 (b0 b1 b2 b3 b4 b5 b6 b7 : Bool) :
    connectFlags (boolsToU8 b0 b1 b2 b3 b4 b5 b6 b7) =
      ⟨b0.toUInt8, b1.toUInt8, b2.toUInt8, (b3.toUInt8 <<< 1) ||| b4.toUInt8, b5.toUInt8,
        b6.toUInt8, b7.toUInt8⟩ := by
  cases b0 <;> cases b1 <;> cases b2 <;> cases b3 <;> cases b4 <;> cases b5 <;> cases b6 <;>
    cases b7 <;> rfl

theorem toUInt8_beq_one (b : Bool) : (b.toUInt8 == 1) = b := by
  cases b <;> rfl

theorem toUInt8_bne_zero (b : Bool) : (b.toUInt8 != 0) = b := by
  cases b <;> rfl

/-- The quality of service that the two bits written for a will mean. -/
def MQualityOfService.asRead : MQualityOfService → MQualityOfService
  | exactlyOnce => exactlyOnce
  | _ => atLeastOnce

def MLastWill.asRead (self : MLastWill) : MLastWill := { self with qos := self.qos.asRead }

theorem asRead_eq_self {qos : MQualityOfService} : qos.asRead = qos ↔ qos ≠ .atMostOnce := by
  cases qos <;> decide

theorem mqualityOfService_bits (qos : MQualityOfService) :
    mqualityOfService (((decide (qos = .exactlyOnce)).toUInt8 <<< 1) |||
      (decide (qos ≠ .exactlyOnce)).toUInt8) = some qos.asRead := by
  cases qos <;> rfl

/-! ### The body -/

structure MLastWill.Readable (will : MLastWill) : Prop where
  topic : will.topic.Readable
  payload : will.payload.length ≤ 65535

/-- A CONNECT of this protocol, with fields that fit their lengths. -/
structure MConnect.Readable (c : MConnect) : Prop where
  named : c.protocolName.value = "MQTT"
  level : c.protocolLevel = 4
  clientId : c.clientId.Readable
  will : ∀ will ∈ c.will, will.Readable
  username : ∀ username ∈ c.username, username.Readable
  password : ∀ password ∈ c.password, password.length ≤ 65535

theorem mlastwill_reads {will : MLastWill} (readable : will.Readable) {flags : ConnectFlags}
    (qos : mqualityOfService flags.willQos = some will.qos.asRead)
    (retain : (flags.willRetain != 0) = will.retain) :
    (mlastwill flags).Reads will.bytes will.asRead := by
  apply Parser.Reads.bind (mstring_canonical.reads readable.topic)
  rw [← List.append_nil (prefixed will.payload)]
  apply Parser.Reads.bind (mpayload_reads readable.payload)
  intro rest
  apply Parser.bind_eq_ok.mpr
  refine ⟨_, rest, orRefuse_eq_ok.mpr ⟨qos, rfl⟩, ?_⟩
  rw [retain]
  rfl

/-- The flags are read back, those of the will's quality of service as two of them. -/
theorem MConnect.connectFlags_connectFlags (c : MConnect) :
    V3.connectFlags c.connectFlags =
      ⟨c.username.isSome.toUInt8, c.password.isSome.toUInt8,
        ((c.will.map (·.retain)).getD false).toUInt8,
        (((c.will.map (decide <| ·.qos = .exactlyOnce)).getD false).toUInt8 <<< 1) |||
          ((c.will.map (decide <| ·.qos ≠ .exactlyOnce)).getD false).toUInt8,
        c.will.isSome.toUInt8, c.cleanSession.toUInt8, false.toUInt8⟩ :=
  connectFlags_boolsToU8 _ _ _ _ _ _ _ _

theorem MConnect.will_reads {c : MConnect} (readable : c.Readable) :
    ∀ will ∈ c.will, (mlastwill (V3.connectFlags c.connectFlags)).Reads will.bytes will.asRead := by
  intro will member
  apply mlastwill_reads (readable.will will member)
  · rw [c.connectFlags_connectFlags, Option.mem_def.mp member]
    exact mqualityOfService_bits will.qos
  · rw [c.connectFlags_connectFlags, Option.mem_def.mp member]
    exact toUInt8_bne_zero will.retain

theorem readable_of_named {mstr : MString} (named : mstr.value = "MQTT") : mstr.Readable := by
  obtain ⟨value⟩ := mstr
  obtain rfl : value = "MQTT" := named
  exact ⟨by decide, by simp [controlCharacters]⟩

/-- A written body is read to its end, as the same CONNECT but for its will's
quality of service. -/
theorem mconnect_reads {c : MConnect} (readable : c.Readable) :
    mconnect.Reads c.bodyBytes { c with will := c.will.map MLastWill.asRead } := by
  have will := c.will_reads readable
  have username : (whenFlag c.username.isSome mstring).Reads (present c.username MString.bytes)
      (c.username.map id) :=
    whenFlag_reads fun _ member => mstring_canonical.reads (readable.username _ member)
  have password : (whenFlag c.password.isSome mpayload).Reads (present c.password prefixed)
      (c.password.map id) :=
    whenFlag_reads fun _ member => mpayload_reads (readable.password _ member)
  rw [Option.map_id] at username password
  rw [c.connectFlags_connectFlags] at will
  apply Parser.Reads.bind (mstring_canonical.reads (readable_of_named readable.named))
  apply reads_ensure (beq_iff_eq.mpr readable.named)
  apply Parser.Reads.bind (u8_reads c.protocolLevel)
  apply reads_ensure (beq_iff_eq.mpr readable.level)
  apply Parser.Reads.bind ((u8_reads c.connectFlags).map connectFlags)
  rw [c.connectFlags_connectFlags]
  simp only [toUInt8_beq_one]
  apply reads_ensure rfl
  apply reads_ensure
  · cases c.will <;> rfl
  apply Parser.Reads.bind (beU16_reads c.keepAlive)
  apply Parser.Reads.bind (mstring_canonical.reads readable.clientId)
  apply Parser.Reads.bind (whenFlag_reads will)
  apply Parser.Reads.bind username
  exact password.map _

theorem getD_le {α : Type} {option : Option α} {width : α → Nat} {limit : Nat}
    (each : ∀ a ∈ option, width a ≤ limit) : (option.map width).getD 0 ≤ limit := by
  cases option with
  | none => exact Nat.zero_le limit
  | some a => exact each a rfl

theorem MString.Readable.getLen_le {mstr : MString} (readable : mstr.Readable) :
    mstr.getLen ≤ 65537 :=
  Nat.add_le_add_left readable.short 2

theorem MConnect.Readable.remainingLength_le {c : MConnect} (readable : c.Readable) :
    c.remainingLength ≤ 268435455 := by
  have clientId := readable.clientId.getLen_le
  have will : (c.will.map MLastWill.getLen).getD 0 ≤ 131074 := by
    apply getD_le
    intro will member
    have topic := (readable.will will member).topic.getLen_le
    have payload := (readable.will will member).payload
    rw [MLastWill.getLen]
    omega
  have username : (c.username.map MString.getLen).getD 0 ≤ 65537 :=
    getD_le fun username member => (readable.username username member).getLen_le
  have password : (c.password.map (2 + ·.length)).getD 0 ≤ 65537 :=
    getD_le fun password member => Nat.add_le_add_left (readable.password password member) 2
  rw [remainingLength]
  omega

theorem MConnect.asRead_eq_self {c : MConnect} :
    { c with will := c.will.map MLastWill.asRead } = c ↔
      ∀ will ∈ c.will, will.qos ≠ .atMostOnce := by
  obtain ⟨name, level, clean, will, username, password, keepAlive, clientId⟩ := c
  cases will with
  | none => simp
  | some will =>
    obtain ⟨topic, payload, qos, retain⟩ := will
    simp [MLastWill.asRead, V3.asRead_eq_self]

theorem MConnect.writeTo_emits {c : MConnect} (readable : c.Readable) :
    ∃ length, Digits length c.bodyBytes.length ∧
      (MPacket.connect c).writeTo.Emits (0b0001_0000 :: (length ++ c.bodyBytes)) () := by
  have written := writeRemainingLength_ok readable.remainingLength_le
  refine ⟨(writeRemainingLength c.remainingLength).emitted, ?_, ?_⟩
  · rw [c.length_bodyBytes readable.named]
    exact writeRemainingLength_emits written
  · apply Emit.Emits.seq (writeAll_emits.mpr rfl)
    exact written.seq c.writeBody_emits

-- A will is written with the bit of "exactly once" or with that of the other two.
/-- The body of a written CONNECT is read back exactly when its will, if it has
one, is not to be delivered at most once. -/
theorem connect_roundtrip_iff [Build] [Target] {c : MConnect} (readable : c.Readable)
    {header : MPacketHeader} (kind : header.kind = .connect) :
    ∃ length body, Digits length body.length ∧
      (MPacket.connect c).writeTo.Emits (0b0001_0000 :: (length ++ body)) () ∧
      (mpacketdata header body = .ok (.connect c, []) ↔
        ∀ will ∈ c.will, will.qos ≠ .atMostOnce) := by
  obtain ⟨length, digits, emits⟩ := c.writeTo_emits readable
  refine ⟨length, c.bodyBytes, digits, emits, ?_⟩
  have read : mpacketdata header c.bodyBytes =
      .ok (.connect { c with will := c.will.map MLastWill.asRead }, []) := by
    rw [mpacketdata, kind]
    exact ((mconnect_reads readable).map MPacket.connect).whole
  rw [read, ← c.asRead_eq_self]
  constructor
  · intro same
    exact MPacket.connect.inj (Prod.mk.inj (Except.ok.inj same)).1
  · intro same
    rw [same]

section

attribute [local instance] development x86_64

def willed (qos : MQualityOfService) : MConnect where
  protocolName := ⟨"MQTT"⟩
  protocolLevel := 4
  cleanSession := true
  will := some ⟨⟨"a"⟩, [7], qos, false⟩
  username := none
  password := none
  keepAlive := 60
  clientId := ⟨"a"⟩

theorem readable_a : MString.Readable ⟨"a"⟩ := ⟨by decide, by simp [controlCharacters]⟩

theorem willed_readable (qos : MQualityOfService) : (willed qos).Readable where
  named := rfl
  level := rfl
  clientId := readable_a
  will will member := by
    obtain rfl := Option.some.inj member
    exact ⟨readable_a, Nat.le_of_ble_eq_true rfl⟩
  username _ member := nomatch member
  password _ member := nomatch member

theorem connect_roundtrip_exactlyOnce : ∃ length body, Digits length body.length ∧
    (MPacket.connect (willed .exactlyOnce)).writeTo.Emits (0b0001_0000 :: (length ++ body)) () ∧
    (mpacketdata ⟨.connect, 19⟩ body = .ok (.connect (willed .exactlyOnce), []) ↔
      ∀ will ∈ (willed .exactlyOnce).will, will.qos ≠ .atMostOnce) :=
  connect_roundtrip_iff (willed_readable .exactlyOnce) rfl

/-- A will to be delivered at most once is read back as one to be delivered at
least once. -/
theorem connect_roundtrip_atMostOnce :
    (MPacket.connect (willed .atMostOnce)).writeTo.Emits
        (0b0001_0000 :: ([19] ++ (willed .atMostOnce).bodyBytes)) () ∧
      mpacketdata ⟨.connect, 19⟩ (willed .atMostOnce).bodyBytes =
        .ok (.connect (willed .atLeastOnce), []) ∧
      willed .atLeastOnce ≠ willed .atMostOnce := by
  refine ⟨rfl, ?_, by decide⟩
  exact ((mconnect_reads (willed_readable .atMostOnce)).map MPacket.connect).whole

end

end V3
