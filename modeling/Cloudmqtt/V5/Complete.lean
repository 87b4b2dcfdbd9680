import Cloudmqtt.V5.RoundTrip

/-! Which bytes of an accepted packet its parser accounts for.

`bodyWidth` adds up what the length prefixes inside a body announce. Seven kinds
of packets are read to the end of their body; for the other eight the parser
stops where the announced parts end.
-/

set_option autoImplicit false

namespace V5

open Base Rust

def fieldWidth (bytes : List UInt8) : Nat := (bytes.takeWhile continues).length + 1

def fieldValue (bytes : List UInt8) : Nat := digitsValue (bytes.take (fieldWidth bytes))

def sectionWidth (bytes : List UInt8) : Nat := fieldWidth bytes + fieldValue bytes

def connectParts (flags : UInt8) : List (List UInt8 → Nat) :=
  [fun _ => 2, sectionWidth, dataWidth,
    widthIf (takeBits flags 5 1 != 0) (Parser.measure [sectionWidth, dataWidth, dataWidth]),
    widthIf (takeBits flags 0 1 != 0) dataWidth, widthIf (takeBits flags 1 1 != 0) dataWidth]

/-- The length of a body as its own length prefixes announce it. Packets that
are read to the end of their body announce all of it. -/
def bodyWidth (t : PacketType) (body : List UInt8) : Nat :=
  match t with
  | .connect => 8 + Parser.measure (connectParts (body.getD 7 0)) (body.drop 8)
  | .connack => Parser.measure [fun _ => 2, sectionWidth] body
  | .puback | .pubrec | .pubrel | .pubcomp =>
    if body.length ≤ 3 then body.length else Parser.measure [fun _ => 3, sectionWidth] body
  | .disconnect =>
    if body.length ≤ 1 then body.length else Parser.measure [fun _ => 1, sectionWidth] body
  | .auth => Parser.measure [fun _ => 1, sectionWidth] body
  | .publish _ _ _ | .suback | .unsuback | .subscribe | .unsubscribe | .pingreq | .pingresp =>
    body.length

/-! ### Widths of the parts -/

theorem fieldWidth_append {bytes : List UInt8} (shape : VariableBytes bytes) (rest : List UInt8) :
    fieldWidth (bytes ++ rest) = bytes.length := by
  obtain ⟨front, last, rfl, -, go, stop⟩ := shape
  rw [fieldWidth, List.append_assoc, List.takeWhile_append_of_pos go]
  simp [stop]

theorem fieldValue_append {bytes : List UInt8} (shape : VariableBytes bytes) (rest : List UInt8) :
    fieldValue (bytes ++ rest) = digitsValue bytes := by
  rw [fieldValue, fieldWidth_append shape, List.take_left]

theorem u8_spans : u8.Spans fun _ => 1 :=
  .of_append fun _ b _ run => ⟨[b], u8_eq_ok.mp run, rfl⟩

theorem parseU16_spans : parseU16.Spans fun _ => 2 :=
  .of_append fun _ u _ run => ⟨u16Bytes u, parseU16_eq_ok.mp run, rfl⟩

theorem packetIdentifier_spans : PacketIdentifier.parse.Spans fun _ => 2 :=
  (parseU16_spans.tryMap _ _).map _

theorem reasonCode_spans (combined : CombinedCodes) :
    (CombinedReasonCode.parse combined).Spans fun _ => 1 :=
  u8_spans.tryMap _ _

theorem properties_spans (fields : List PropertyKind) :
    (Properties.parse fields).Spans sectionWidth := by
  refine .of_append fun input p rest run => ?_
  obtain ⟨u, body, items, final, read, length, -⟩ := Properties.parse_eq_ok.mp run
  obtain ⟨bytes, shape, rfl, rfl⟩ := parseVariableU32With_eq_ok.mp read
  refine ⟨bytes ++ body, (List.append_assoc _ _ _).symm, ?_⟩
  rw [toNat_variableU32Value shape.length.2] at length
  rw [List.append_assoc, sectionWidth, fieldWidth_append shape, fieldValue_append shape, length,
    List.length_append]

theorem parseBinaryData_spans : parseBinaryData.Spans dataWidth := by
  refine .of_append fun input data rest run => ?_
  obtain ⟨short, rfl⟩ := parseBinaryData_eq_ok.mp run
  refine ⟨prefixed data, rfl, ?_⟩
  rw [length_prefixed]
  exact dataWidth_append short rest

theorem parseString_spans : parseString.Spans dataWidth := parseBinaryData_spans.tryMap _ _

theorem optional_spans {α : Type} {parse : MParser α} {width : List UInt8 → Nat}
    (spans : parse.Spans width) (flag : Bool) :
    (optional flag parse).Spans (widthIf flag width) := by
  cases flag with
  | true => exact spans.map _
  | false => exact Parser.Spans.pure none

theorem will_spans (qos : QualityOfService) (retain : Bool) :
    (Will.parse qos retain).Spans (Parser.measure [sectionWidth, dataWidth, dataWidth]) :=
  (properties_spans _).bind fun _ => parseString_spans.bind fun _ =>
    parseBinaryData_spans.bind fun _ => .pure _

/-! ### Widths of the bodies -/

theorem connectFlags_spans {flagsByte : UInt8} {flags : ConnectFlags}
    (found : ConnectFlags.tryFrom flagsByte = some flags) :
    (MConnect.parseBehind flags).Spans (Parser.measure (connectParts flagsByte)) := by
  have present : (takeBits flagsByte 5 1 != 0) = flags.will ∧
      (takeBits flagsByte 0 1 != 0) = flags.userName ∧
      (takeBits flagsByte 1 1 != 0) = flags.password := by
    simp only [ConnectFlags.tryFrom, Option.bind_eq_bind, Option.bind_eq_some_iff,
      Option.ite_none_right_eq_some, Option.some.injEq] at found
    obtain ⟨_, -, -, rfl⟩ := found
    exact ⟨rfl, rfl, rfl⟩
  rw [connectParts, present.1, present.2.1, present.2.2]
  exact parseU16_spans.bind fun _ => (properties_spans _).bind fun _ =>
    parseString_spans.bind fun _ => (optional_spans (will_spans _ _) _).bind fun _ =>
      (optional_spans parseString_spans _).bind fun _ =>
        (optional_spans parseBinaryData_spans _).bind fun _ => .pure _

theorem connect_width {body left : List UInt8} {packet : MConnect}
    (parsed : MConnect.parse body = .ok (packet, left)) :
    bodyWidth .connect body + left.length = body.length := by
  obtain ⟨flagsByte, flags, tail, found, rfl, behind⟩ := MConnect.parse_eq_ok parsed
  obtain ⟨fits, rfl⟩ := connectFlags_spans found _ _ _ behind
  have rest : (prefixed (asBytes "MQTT") ++ ([5] ++ ([flagsByte] ++ tail))).drop 8 = tail := rfl
  rw [bodyWidth, List.getD_eq_getElem?_getD, MConnect.header_flags, rest, List.length_drop,
    Option.getD_some]
  simp only [List.length_append, protocolName_length, List.length_singleton]
  omega

theorem shortForms_width {combined : CombinedCodes} {fields : List PropertyKind}
    {default reason : CombinedReasonCode combined} {input middle rest : List UInt8}
    {properties : Properties fields}
    (first : unlessEmpty default (CombinedReasonCode.parse combined) input = .ok (reason, middle))
    (second : unlessEmpty (.new fields) (Properties.parse fields) middle = .ok (properties, rest)) :
    (if input.length ≤ 1 then input.length
      else Parser.measure [fun _ => 1, sectionWidth] input) + rest.length = input.length := by
  rcases unlessEmpty_eq_ok.mp first with ⟨rfl, -, rfl⟩ | ⟨-, reasonRead⟩
  · rcases unlessEmpty_eq_ok.mp second with ⟨-, -, rfl⟩ | ⟨more, -⟩
    · rfl
    · exact absurd rfl more
  · obtain ⟨fits, rfl⟩ := reasonCode_spans _ _ _ _ reasonRead
    rcases unlessEmpty_eq_ok.mp second with ⟨none, -, rfl⟩ | ⟨more, read⟩
    · rw [List.drop_eq_nil_iff] at none
      rw [if_pos none]
      rfl
    · obtain ⟨fitsMore, rfl⟩ := properties_spans _ _ _ _ read
      rw [ne_eq, List.drop_eq_nil_iff] at more
      rw [if_neg more]
      simp only [Parser.measure, List.length_drop] at fitsMore ⊢
      omega

theorem acknowledge_width {combined : CombinedCodes} {success : CombinedReasonCode combined}
    {body left : List UInt8} {packet : Acknowledge combined}
    (run : Acknowledge.parse success body = .ok (packet, left)) :
    (if body.length ≤ 3 then body.length else Parser.measure [fun _ => 3, sectionWidth] body) +
      left.length = body.length := by
  obtain ⟨id, middle, reason, _, properties, idRead, reasonRead, read, rfl⟩ :=
    Parser.triple_eq_ok.mp run
  obtain ⟨fits, rfl⟩ := packetIdentifier_spans _ _ _ idRead
  have width := shortForms_width reasonRead read
  simp only [Parser.measure, List.length_drop, List.drop_drop, Nat.reduceAdd] at fits width ⊢
  split_ifs at width ⊢ <;> omega

theorem disconnect_width {body left : List UInt8} {packet : MDisconnect}
    (run : MDisconnect.parse body = .ok (packet, left)) :
    bodyWidth .disconnect body + left.length = body.length := by
  obtain ⟨reason, _, properties, reasonRead, read, rfl⟩ := Parser.pair_eq_ok.mp run
  exact shortForms_width reasonRead read

theorem auth_width {body left : List UInt8} {packet : MAuth}
    (run : MAuth.parse body = .ok (packet, left)) :
    bodyWidth .auth body + left.length = body.length := by
  obtain ⟨fits, rfl⟩ := ((reasonCode_spans _).bind fun _ => (properties_spans _).bind fun _ =>
    .pure _) _ _ _ run
  rw [bodyWidth, List.length_drop]
  simp only [Parser.measure] at fits ⊢
  omega

theorem connack_width {body left : List UInt8} {packet : MConnack}
    (run : MConnack.parse body = .ok (packet, left)) :
    bodyWidth .connack body + left.length = body.length := by
  obtain ⟨fits, rfl⟩ := ((u8_spans.tryMap _ _).bind fun _ => (reasonCode_spans _).bind fun _ =>
    (properties_spans _).bind fun _ => .pure _) _ _ _ run
  rw [bodyWidth, List.length_drop]
  simp only [Parser.measure, List.drop_drop, Nat.reduceAdd] at fits ⊢
  omega

theorem acknowledgeAll_left {combined : CombinedCodes} {body left : List UInt8}
    {packet : AcknowledgeAll combined}
    (run : AcknowledgeAll.parse combined body = .ok (packet, left)) :
    left = [] := by
  obtain ⟨id, _, properties, _, reasons, -, -, reasonsRead, -⟩ := Parser.triple_eq_ok.mp run
  exact (AcknowledgeAll.parseReasons_eq_ok.mp reasonsRead).2

theorem subscribe_left {body left : List UInt8} {packet : MSubscribe}
    (run : MSubscribe.parse body = .ok (packet, left)) : left = [] := by
  obtain ⟨id, _, properties, _, subscriptions, -, -, sliceRead, -⟩ := Parser.triple_eq_ok.mp run
  exact ((ItemSlice.parse_eq_ok Subscription.parse_shrinks).mp sliceRead).2.1

theorem unsubscribe_left {body left : List UInt8} {packet : MUnsubscribe}
    (run : MUnsubscribe.parse body = .ok (packet, left)) : left = [] := by
  obtain ⟨id, _, properties, _, unsubscriptions, -, -, sliceRead, -⟩ := Parser.triple_eq_ok.mp run
  exact ((ItemSlice.parse_eq_ok Unsubscription.parse_shrinks).mp sliceRead).2.1

theorem eof_left {input left : List UInt8} {u : Unit}
    (run : (Parser.eof ErrMode.backtrack : MParser Unit) input = .ok (u, left)) : left = [] := by
  cases input with
  | nil => exact (Prod.mk.inj (Except.ok.inj run)).2.symm
  | cons b bytes => simp [Parser.eof] at run

namespace MqttPacket

/-- What a body leaves unread lies behind its announced width. -/
theorem body_width {t : PacketType} {body left : List UInt8} {p : MqttPacket}
    (run : parsePacket t body = .ok (p, left)) : bodyWidth t body + left.length = body.length := by
  cases t with
  | connect =>
    obtain ⟨packet, run, -⟩ := Parser.map_eq_ok.mp run
    exact connect_width run
  | connack =>
    obtain ⟨packet, run, -⟩ := Parser.map_eq_ok.mp run
    exact connack_width run
  | publish dup qos retain =>
    obtain ⟨packet, run, -⟩ := Parser.map_eq_ok.mp run
    obtain ⟨-, -, -, -, -, rfl, -⟩ := MPublish.parse_eq_ok.mp run
    rfl
  | puback | pubrec | pubrel | pubcomp =>
    obtain ⟨packet, run, -⟩ := Parser.map_eq_ok.mp run
    exact acknowledge_width run
  | subscribe =>
    obtain ⟨packet, run, -⟩ := Parser.map_eq_ok.mp run
    rw [subscribe_left run]
    rfl
  | unsubscribe =>
    obtain ⟨packet, run, -⟩ := Parser.map_eq_ok.mp run
    rw [unsubscribe_left run]
    rfl
  | suback | unsuback =>
    obtain ⟨packet, run, -⟩ := Parser.map_eq_ok.mp run
    rw [acknowledgeAll_left run]
    rfl
  | pingreq | pingresp =>
    obtain ⟨packet, run, -⟩ := Parser.map_eq_ok.mp run
    obtain ⟨u, run, -⟩ := Parser.map_eq_ok.mp run
    rw [eof_left run]
    rfl
  | disconnect =>
    obtain ⟨packet, run, -⟩ := Parser.map_eq_ok.mp run
    exact disconnect_width run
  | auth =>
    obtain ⟨packet, run, -⟩ := Parser.map_eq_ok.mp run
    exact auth_width run

/-- The bytes are one frame, and the parser of the body consumed all of its bytes. -/
def Accounted (bytes : List UInt8) (p : MqttPacket) : Prop :=
  ∃ t length body, bytes = MFixedHeader.toU8 ⟨t⟩ :: (length ++ body) ∧ VariableBytes length ∧
    digitsValue length = body.length ∧ parsePacket t body = .ok (p, [])

theorem accounted_cons {header : UInt8} {tail : List UInt8} {p : MqttPacket} :
    Accounted (header :: tail) p ↔ ∃ t, header = MFixedHeader.toU8 ⟨t⟩ ∧
      VariableBytes (tail.take (fieldWidth tail)) ∧
      (tail.drop (fieldWidth tail)).length = fieldValue tail ∧
      parsePacket t (tail.drop (fieldWidth tail)) = .ok (p, []) := by
  constructor
  · rintro ⟨t, length, body, same, shape, value, run⟩
    obtain ⟨rfl, rfl⟩ := List.cons.inj same
    simp only [fieldWidth_append shape, fieldValue_append shape, List.take_left, List.drop_left]
    exact ⟨t, rfl, shape, value.symm, run⟩
  · rintro ⟨t, rfl, shape, value, run⟩
    exact ⟨t, _, _, by rw [List.take_append_drop], shape, value.symm, run⟩

/-- The frame ends with the bytes, and the body ends with its announced parts. -/
def NothingLeft : List UInt8 → Prop
  | [] => False
  | header :: tail =>
    let body := tail.drop (fieldWidth tail)
    body.length = fieldValue tail ∧
      ∀ t, MFixedHeader.tryFrom header = some ⟨t⟩ → bodyWidth t body = body.length

/-- An accepted packet is accounted for exactly when nothing is left behind its announced parts. -/
theorem parseComplete_accounted {bytes : List UInt8} {p : MqttPacket}
    (parsed : parseComplete bytes = .ok p) : Accounted bytes p ↔ NothingLeft bytes := by
  obtain ⟨rest, parsed⟩ : ∃ rest, parse bytes = .ok (p, rest) := by
    cases run : parse bytes with
    | error e => simp [parseComplete, run, Except.map] at parsed
    | ok pair =>
      simp only [parseComplete, run, Except.map, Except.ok.injEq] at parsed
      exact ⟨pair.2, by rw [← parsed]⟩
  obtain ⟨t, tail, u, body, left, rfl, read, length, run⟩ := parse_eq_ok.mp parsed
  obtain ⟨field, shape, rfl, rfl⟩ := parseVariableU32With_eq_ok.mp read
  rw [toNat_variableU32Value shape.length.2] at length
  have header := MFixedHeader.tryFrom_toU8 ⟨t⟩
  have width := body_width run
  simp only [accounted_cons, NothingLeft, fieldWidth_append shape, fieldValue_append shape,
    List.drop_left, List.take_left, length, List.length_append]
  constructor
  · rintro ⟨t', same, -, ends, run'⟩
    obtain ⟨⟩ := Option.some.inj (header.symm.trans (same ▸ MFixedHeader.tryFrom_toU8 ⟨t'⟩))
    obtain rfl := List.length_eq_zero_iff.mp (show rest.length = 0 by omega)
    rw [List.append_nil] at run'
    obtain ⟨-, rfl⟩ := Prod.mk.inj (Except.ok.inj (run.symm.trans run'))
    refine ⟨rfl, fun t' found => ?_⟩
    obtain ⟨⟩ := Option.some.inj (header.symm.trans found)
    simpa using width
  · rintro ⟨ends, announced⟩
    obtain rfl := List.length_eq_zero_iff.mp (show rest.length = 0 by omega)
    have all := announced t header
    rw [List.append_nil] at all
    obtain rfl := List.length_eq_zero_iff.mp (show left.length = 0 by simp at all; omega)
    exact ⟨t, rfl, shape, rfl, by rw [List.append_nil]; exact run⟩

theorem parseComplete_accounted_puback :
    Accounted [0x40, 0x02, 0x00, 0x01] (.puback ⟨⟨⟨1, by decide⟩⟩, ⟨.success, by decide⟩, .new _⟩) ↔
      NothingLeft [0x40, 0x02, 0x00, 0x01] :=
  parseComplete_accounted rfl

/-- A CONNACK is accepted with a byte behind its properties. -/
theorem connack_trailing_byte :
    ∃ p, parseComplete [0x20, 0x04, 0x00, 0x00, 0x00, 0xFF] = .ok p ∧
      ¬ Accounted [0x20, 0x04, 0x00, 0x00, 0x00, 0xFF] p := by
  refine ⟨_, rfl, ?_⟩
  rw [accounted_cons]
  rintro ⟨t, header, -, -, run⟩
  obtain ⟨⟩ := Option.some.inj
    ((MFixedHeader.tryFrom_eq_some.mpr header).symm.trans (MFixedHeader.tryFrom_toU8 ⟨.connack⟩))
  obtain ⟨q, left⟩ : ∃ q, parsePacket .connack [0x00, 0x00, 0x00, 0xFF] = .ok (q, [0xFF]) :=
    ⟨_, rfl⟩
  exact absurd (left.symm.trans run) (by simp)

end MqttPacket

end V5
