import Cloudmqtt.V3.Packet
import Mathlib.Data.Set.List

/-! Which bytes of an accepted packet its parser accounts for.

The bytes that the header announces are handed to the parser of their kind, and
what that leaves of them is dropped. `Filled` says, of the bytes alone, when
there is nothing to drop.
-/

set_option autoImplicit false

namespace V3

open Base Rust

open V5 (takeBits dataWidth widthIf)

/-- The parts of a CONNECT behind its keep alive, by its flags. -/
def connectParts (flags : UInt8) : List (List UInt8 → Nat) :=
  [dataWidth, widthIf (takeBits flags 5 1 == 1) (Parser.measure [dataWidth, dataWidth]),
    widthIf (takeBits flags 0 1 == 1) dataWidth, widthIf (takeBits flags 1 1 == 1) dataWidth]

/-- The length of a CONNECT as its own flags and length prefixes announce it. -/
def connectWidth (body : List UInt8) : Nat :=
  10 + Parser.measure (connectParts (body.getD 7 0)) (body.drop 10)

def plainText (data : List UInt8) : Bool :=
  (fromUtf8 data).any fun text => !text.toList.any controlCharacters

def topicEntry (entry : List UInt8) : Bool :=
  entry.length == dataWidth entry && plainText (entry.drop 2)

def requestEntry (entry : List UInt8) : Bool :=
  topicEntry entry.dropLast && entry.getLast?.any (· ≤ 2)

/-- The entries of a list, cut by their length prefixes. -/
def entries (width : List UInt8 → Nat) (body : List UInt8) : List (List UInt8) :=
  Parser.pieces width body.length body

/-- The body holds nothing but a packet of its kind. -/
def Filled (kind : MPacketKind) (body : List UInt8) : Prop :=
  match kind with
  | .connect => body.length = connectWidth body
  | .publish _ _ _ => True
  | .connack | .puback | .pubrec | .pubrel | .pubcomp | .unsuback => body.length = 2
  | .pingreq | .pingresp | .disconnect => body.length = 0
  | .suback => ∀ b ∈ body.drop 2, b ∈ [0x00, 0x01, 0x02, 0x80]
  | .subscribe => ∀ entry ∈ entries (fun bytes => dataWidth bytes + 1) (body.drop 2),
      requestEntry entry = true
  | .unsubscribe => ∀ entry ∈ entries dataWidth (body.drop 2), topicEntry entry = true

def Lists (packet : MPacket) (body : List UInt8) : Prop :=
  match packet with
  | .subscribe packet => ∃ requests : List MSubscriptionRequest,
      (∀ request ∈ requests, request.topic.Readable) ∧
        body = toBeBytes packet.id.value ++ requests.flatMap MSubscriptionRequest.bytes ∧
        packet.subscriptions.count = requests.length
  | .unsubscribe packet => ∃ requests : List MUnsubscriptionRequest,
      (∀ request ∈ requests, request.topic.Readable) ∧
        body = toBeBytes packet.id.value ++ requests.flatMap (·.topic.bytes) ∧
        packet.unsubscriptions.count = requests.length
  | .suback packet => body = toBeBytes packet.id.value ++ packet.subscriptionAcks.bytes
  | _ => True

/-- The body is read to its end, and all of its entries are listed. -/
def Consumed [Build] [Target] (header : MPacketHeader) (body : List UInt8) (packet : MPacket) :
    Prop :=
  mpacketdata header body = .ok (packet, []) ∧ Lists packet body

/-! ### Widths of the parts -/

theorem beU16_spans : beU16.Spans fun _ => 2 :=
  .of_append fun _ u _ run => ⟨toBeBytes u, beU16_eq_ok.mp run, rfl⟩

theorem mpacketidentifier_spans : mpacketidentifier.Spans fun _ => 2 := beU16_spans.map _

theorem mpayload_spans : mpayload.Spans dataWidth := by
  apply Parser.Spans.of_append
  intro input data rest run
  obtain ⟨short, rfl⟩ := lengthTake_eq_ok.mp run
  refine ⟨prefixed data, rfl, ?_⟩
  rw [length_prefixed]
  exact V5.dataWidth_append short rest

theorem mapRes_spans {α β : Type} {p : MParser α} {width : List UInt8 → Nat} (spans : p.Spans width)
    (convert : α → Option β) : (mapRes p convert).Spans width := by
  intro input b rest run
  obtain ⟨a, read, -⟩ := mapRes_eq_ok.mp run
  exact spans _ _ _ read

theorem mstring_spans : mstring.Spans dataWidth := mapRes_spans (mapRes_spans mpayload_spans _) _

theorem whenFlag_spans {α : Type} {p : MParser α} {width : List UInt8 → Nat} (spans : p.Spans width)
    (flag : Bool) : (whenFlag flag p).Spans (widthIf flag width) := by
  cases flag with
  | true => exact spans.map some
  | false => exact Parser.Spans.pure none

theorem mlastwill_spans (flags : ConnectFlags) :
    (mlastwill flags).Spans (Parser.measure [dataWidth, dataWidth]) := by
  apply mstring_spans.bind
  intro topic
  apply mpayload_spans.bind
  intro payload input will rest run
  obtain ⟨qos, middle, found, same⟩ := Parser.bind_eq_ok.mp run
  obtain ⟨-, rfl⟩ := orRefuse_eq_ok.mp found
  exact Parser.Spans.pure _ _ _ _ same

/-! ### What the parsers leave -/

def mconnectPayload (protocolName : MString) (protocolLevel : UInt8) (flags : ConnectFlags)
    (keepAlive : UInt16) : MParser MConnect := do
  let clientId ← mstring
  let will ← whenFlag (flags.will == 1) (mlastwill flags)
  let username ← whenFlag (flags.userName == 1) mstring
  let password ← whenFlag (flags.password == 1) mpayload
  pure {
    protocolName, protocolLevel, will, username, password, keepAlive, clientId
    cleanSession := flags.cleanSession == 1 }

theorem mconnect_eq_ok {input rest : List UInt8} {packet : MConnect}
    (run : mconnect input = .ok (packet, rest)) : ∃ level byte keepAlive tail,
      input = MString.bytes ⟨"MQTT"⟩ ++ level :: byte :: (V5.u16Bytes keepAlive ++ tail) ∧
      mconnectPayload ⟨"MQTT"⟩ level (connectFlags byte) keepAlive tail = .ok (packet, rest) := by
  obtain ⟨name, _, nameRead, run⟩ := Parser.bind_eq_ok.mp run
  obtain ⟨_, _, named, run⟩ := Parser.bind_eq_ok.mp run
  obtain ⟨level, _, levelRead, run⟩ := Parser.bind_eq_ok.mp run
  obtain ⟨_, _, leveled, run⟩ := Parser.bind_eq_ok.mp run
  obtain ⟨flags, _, flagsRead, run⟩ := Parser.bind_eq_ok.mp run
  obtain ⟨_, _, reserved, run⟩ := Parser.bind_eq_ok.mp run
  obtain ⟨_, _, consistent, run⟩ := Parser.bind_eq_ok.mp run
  obtain ⟨keepAlive, tail, keepAliveRead, payload⟩ := Parser.bind_eq_ok.mp run
  obtain ⟨isName, rfl⟩ := ensure_eq_ok.mp named
  obtain ⟨-, rfl⟩ := ensure_eq_ok.mp leveled
  obtain ⟨-, rfl⟩ := ensure_eq_ok.mp reserved
  obtain ⟨-, rfl⟩ := ensure_eq_ok.mp consistent
  obtain rfl := beU16_eq_ok.mp keepAliveRead
  obtain ⟨byte, rfl, rfl⟩ := bits_eq_ok.mp flagsRead
  obtain rfl := u8_eq_ok.mp levelRead
  obtain ⟨-, rfl⟩ := (mstring_canonical _ _ _).mp nameRead
  obtain ⟨value⟩ := name
  obtain rfl : value = "MQTT" := eq_of_beq isName
  exact ⟨level, byte, keepAlive, tail, rfl, payload⟩

theorem mconnectPayload_spans (name : MString) (level byte : UInt8) (keepAlive : UInt16) :
    (mconnectPayload name level (connectFlags byte) keepAlive).Spans
      (Parser.measure (connectParts byte)) :=
  mstring_spans.bind fun _ => (whenFlag_spans (mlastwill_spans _) _).bind fun _ =>
    (whenFlag_spans mstring_spans _).bind fun _ => (whenFlag_spans mpayload_spans _).bind fun _ =>
      .pure _

theorem mconnect_spans : mconnect.Spans connectWidth := by
  intro input packet rest run
  obtain ⟨level, byte, keepAlive, tail, rfl, payload⟩ := mconnect_eq_ok run
  obtain ⟨fits, behind⟩ := mconnectPayload_spans _ _ _ _ _ _ _ payload
  have width : connectWidth (MString.bytes ⟨"MQTT"⟩ ++ level :: byte :: (V5.u16Bytes keepAlive ++
      tail)) = 10 + Parser.measure (connectParts byte) tail := rfl
  rw [width]
  constructor
  · apply (Nat.add_le_add_left fits 10).trans_eq
    exact Nat.add_comm 10 tail.length
  · rw [← List.drop_drop]
    exact behind

theorem mconnack_spans : mconnack.Spans fun _ => 2 := by
  intro input packet rest run
  obtain ⟨⟨_, _⟩, _, flagsRead, run⟩ := Parser.bind_eq_ok.mp run
  obtain ⟨_, _, reserved, run⟩ := Parser.bind_eq_ok.mp run
  obtain ⟨code, _, codeRead, same⟩ := Parser.bind_eq_ok.mp run
  obtain ⟨_, _, codeByte, found⟩ := Parser.bind_eq_ok.mp codeRead
  obtain ⟨-, rfl⟩ := Prod.mk.inj (Except.ok.inj same)
  obtain ⟨-, rfl⟩ := orRefuse_eq_ok.mp found
  obtain ⟨-, rfl⟩ := ensure_eq_ok.mp reserved
  obtain ⟨_, rfl, -⟩ := bits_eq_ok.mp flagsRead
  obtain rfl := u8_eq_ok.mp codeByte
  exact ⟨Nat.le_add_left 2 _, rfl⟩

theorem variableHeader_le {flag : Bool} {input middle behind : List UInt8} {topic : MString}
    {id : Option MPacketIdentifier} (topicRead : mstring input = .ok (topic, middle))
    (idRead : whenFlag flag mpacketidentifier middle = .ok (id, behind)) :
    behind.length ≤ input.length := by
  obtain ⟨-, rfl⟩ := whenFlag_spans mpacketidentifier_spans _ _ _ _ idRead
  obtain ⟨-, rfl⟩ := mstring_spans _ _ _ topicRead
  rw [List.length_drop, List.length_drop]
  omega

theorem nil_iff_of_spans {α : Type} {p : MParser α} {width : List UInt8 → Nat}
    (spans : p.Spans width) {input rest : List UInt8} {a : α} (run : p input = .ok (a, rest)) :
    rest = [] ↔ input.length = width input := by
  obtain ⟨fits, rfl⟩ := spans _ _ _ run
  rw [List.drop_eq_nil_iff]
  constructor
  · intro short
    exact Nat.le_antisymm short fits
  · intro same
    exact same.le

/-! ### Entries of lists -/

theorem plainText_iff {data : List UInt8} :
    plainText data = true ↔ ∃ text : String, (∀ c ∈ text.toList, controlCharacters c = false) ∧
      asBytes text = data := by
  simp only [plainText, Option.any_eq_true, fromUtf8_eq_some, Bool.not_eq_true', List.any_eq_false,
    Bool.not_eq_true]
  constructor
  · rintro ⟨text, bytes, plain⟩
    exact ⟨text, plain, bytes⟩
  · rintro ⟨text, plain, bytes⟩
    exact ⟨text, bytes, plain⟩

theorem MString.dataWidth_append {mstr : MString} (readable : mstr.Readable) (rest : List UInt8) :
    dataWidth (mstr.bytes ++ rest) = mstr.bytes.length := by
  rw [MString.bytes, length_prefixed]
  apply V5.dataWidth_append
  rw [length_asBytes]
  exact readable.short

theorem topicEntry_iff {entry : List UInt8} :
    topicEntry entry = true ↔ ∃ topic : MString, topic.Readable ∧ entry = topic.bytes := by
  rw [topicEntry, Bool.and_eq_true, beq_iff_eq, plainText_iff]
  constructor
  · rintro ⟨width, text, plain, data⟩
    match entry, width, data with
    | [], width, _ =>
      rw [dataWidth, List.length_nil] at width
      omega
    | [_], width, _ =>
      rw [dataWidth, List.length_singleton] at width
      omega
    | a :: b :: data, width, same =>
      obtain rfl : asBytes text = data := same
      have announced : (asBytes text).length = V5.beValue [a, b] := by
        rw [dataWidth, List.length_cons, List.length_cons] at width
        exact Nat.add_left_cancel ((Nat.add_comm 2 _).trans width)
      have bound : V5.beValue [a, b] ≤ 65535 := by
        have ha := a.toNat_lt
        have hb := b.toNat_lt
        simp only [V5.beValue, List.foldl]
        omega
      refine ⟨⟨text⟩, ⟨?_, plain⟩, ?_⟩
      · rw [← length_asBytes, announced]
        exact bound
      · rw [MString.bytes, prefixed, announced, toBeBytes, V5.u16Bytes_beValue rfl]
        rfl
  · rintro ⟨topic, readable, rfl⟩
    have width := topic.dataWidth_append readable []
    rw [List.append_nil] at width
    exact ⟨width.symm, topic.value, readable.plain, rfl⟩

theorem le_two_iff {b : UInt8} : b ≤ 2 ↔ ∃ qos : MQualityOfService, b = qos.toByte := by
  constructor
  · intro small
    have cases : b = 0 ∨ b = 1 ∨ b = 2 := by
      rw [UInt8.le_iff_toNat_le] at small
      simp only [← UInt8.toNat_inj]
      change b.toNat ≤ 2 at small
      change b.toNat = 0 ∨ b.toNat = 1 ∨ b.toNat = 2
      omega
    rcases cases with rfl | rfl | rfl
    · exact ⟨.atMostOnce, rfl⟩
    · exact ⟨.atLeastOnce, rfl⟩
    · exact ⟨.exactlyOnce, rfl⟩
  · rintro ⟨qos, rfl⟩
    cases qos <;> decide

theorem requestEntry_iff {entry : List UInt8} :
    requestEntry entry = true ↔
      ∃ request : MSubscriptionRequest, request.topic.Readable ∧ entry = request.bytes := by
  rw [requestEntry, Bool.and_eq_true, topicEntry_iff, Option.any_eq_true]
  constructor
  · rintro ⟨⟨topic, readable, front⟩, b, last, small⟩
    obtain ⟨qos, rfl⟩ := le_two_iff.mp (of_decide_eq_true small)
    refine ⟨⟨topic, qos⟩, readable, ?_⟩
    rw [MSubscriptionRequest.bytes, ← front]
    exact (List.dropLast_append_getLast? _ last).symm
  · rintro ⟨request, readable, rfl⟩
    rw [MSubscriptionRequest.bytes, List.dropLast_concat, List.getLast?_concat]
    exact ⟨⟨request.topic, readable, rfl⟩, _, rfl, decide_eq_true (le_two_iff.mpr ⟨_, rfl⟩)⟩

theorem codes_iff {bytes : List UInt8} :
    (∀ b ∈ bytes, b ∈ [0x00, 0x01, 0x02, 0x80]) ↔
      ∃ acks : List MSubscriptionAck, (∀ ack ∈ acks, True) ∧
        bytes = acks.flatMap fun ack => [ack.toByte] := by
  have code (b : UInt8) : b ∈ [0x00, 0x01, 0x02, 0x80] ↔ b ∈ Set.range MSubscriptionAck.toByte := by
    constructor
    · intro member
      simp only [List.mem_cons, List.not_mem_nil, or_false] at member
      rcases member with rfl | rfl | rfl | rfl
      · exact ⟨.maximumQualityAtMostOnce, rfl⟩
      · exact ⟨.maximumQualityAtLeastOnce, rfl⟩
      · exact ⟨.maximumQualityExactlyOnce, rfl⟩
      · exact ⟨.failure, rfl⟩
    · rintro ⟨ack, rfl⟩
      cases ack <;> decide
  calc (∀ b ∈ bytes, b ∈ [0x00, 0x01, 0x02, 0x80])
    _ ↔ bytes ∈ Set.range (List.map MSubscriptionAck.toByte) := by
      simp only [code]
      rw [Set.range_list_map]
      rfl
    _ ↔ _ := by
      simp only [Set.mem_range, List.map_eq_flatMap, implies_true, true_and]
      exact exists_congr fun _ => eq_comm

theorem requestEntries_iff {body : List UInt8} :
    (∀ entry ∈ entries (fun bytes => dataWidth bytes + 1) body, requestEntry entry = true) ↔
      ∃ requests : List MSubscriptionRequest, (∀ request ∈ requests, request.topic.Readable) ∧
        body = requests.flatMap MSubscriptionRequest.bytes := by
  simp only [requestEntry_iff, entries]
  apply Parser.pieces_iff
  · intro input
    exact Nat.succ_pos _
  · intro request rest readable
    rw [MSubscriptionRequest.bytes, List.append_assoc, request.topic.dataWidth_append readable,
      List.length_append]
    rfl
  · exact le_rfl

theorem topicEntries_iff {body : List UInt8} :
    (∀ entry ∈ entries dataWidth body, topicEntry entry = true) ↔
      ∃ requests : List MUnsubscriptionRequest, (∀ request ∈ requests, request.topic.Readable) ∧
        body = requests.flatMap (·.topic.bytes) := by
  have entry (entry : List UInt8) : topicEntry entry = true ↔
      ∃ request : MUnsubscriptionRequest, request.topic.Readable ∧ entry = request.topic.bytes := by
    rw [topicEntry_iff]
    constructor
    · rintro ⟨topic, readable, rfl⟩
      exact ⟨⟨topic⟩, readable, rfl⟩
    · rintro ⟨request, readable, rfl⟩
      exact ⟨request.topic, readable, rfl⟩
  simp only [entry, entries]
  apply Parser.pieces_iff
  · intro input
    exact Nat.add_pos_left Nat.two_pos _
  · intro request rest readable
    exact request.topic.dataWidth_append readable rest
  · exact le_rfl

theorem filled_of_spans {α : Type} {p : MParser α} {width : List UInt8 → Nat} {make : α → MPacket}
    {body left : List UInt8} {packet : MPacket} (spans : p.Spans width)
    (run : (make <$> p) body = .ok (packet, left)) (plain : ∀ a, Lists (make a) body) :
    left = [] ∧ Lists packet body ↔ body.length = width body := by
  obtain ⟨a, read, rfl⟩ := Parser.map_eq_ok.mp run
  rw [← nil_iff_of_spans spans read]
  exact and_iff_left (plain a)

theorem filled_of_greedy {α : Type} {p : MParser α} {valid : α → Prop} {encode : α → List UInt8}
    (canonical : p.Canonical valid encode) (nonempty : ∀ a, valid a → encode a ≠ [])
    {tail left : List UInt8} {items : List α} (greedy : p.Greedy recoverable tail items left)
    {listed filled : Prop} (lists : (∀ a ∈ items, valid a) → tail = items.flatMap encode → listed)
    (cut : filled ↔ ∃ others : List α, (∀ a ∈ others, valid a) ∧ tail = others.flatMap encode) :
    left = [] ∧ listed ↔ filled := by
  rw [cut, ← greedy.left_nil_iff canonical nonempty]
  apply and_iff_left_of_imp
  rintro rfl
  obtain ⟨ok, split⟩ := greedy.split canonical
  rw [List.append_nil] at split
  exact lists ok split

theorem identified_eq_ok {α : Type} {list : MParser α} (make : MPacketIdentifier → α → MPacket)
    {body left : List UInt8} {packet : MPacket}
    (run : (do let id ← mpacketidentifier; let a ← list; pure (make id a) : MParser MPacket) body =
      .ok (packet, left)) :
    ∃ id tail a, body = toBeBytes id.value ++ tail ∧ list tail = .ok (a, left) ∧
      packet = make id a := by
  obtain ⟨id, tail, a, idRead, read, made⟩ := Parser.pair_eq_ok.mp run
  exact ⟨id, tail, a, mpacketidentifier_eq_ok.mp idRead, read, made⟩

section

variable [Build] [Target]

theorem mpublish_eq_ok {dup retain : Bool} {qos : MQualityOfService} {remainingLength : UInt32}
    {input rest : List UInt8} {packet : MPublish}
    (run : mpublish dup qos retain remainingLength input = .ok (packet, rest)) :
    ∃ middle behind headerLen payloadLength, mstring input = .ok (packet.topicName, middle) ∧
      whenFlag (qos != .atMostOnce) mpacketidentifier middle = .ok (packet.id, behind) ∧
      subUsize input.length behind.length = .ok headerLen ∧
      checkedSubU32 remainingLength (.ofNat headerLen) = some payloadLength ∧
      take payloadLength.toNat behind = .ok (packet.payload, rest) := by
  obtain ⟨start, _, started, run⟩ := Parser.bind_eq_ok.mp run
  obtain ⟨topic, middle, topicRead, run⟩ := Parser.bind_eq_ok.mp run
  obtain ⟨id, behind, idRead, run⟩ := Parser.bind_eq_ok.mp run
  obtain ⟨_, _, ensured, run⟩ := Parser.bind_eq_ok.mp run
  obtain ⟨stop, _, stopped, run⟩ := Parser.bind_eq_ok.mp run
  obtain ⟨headerLen, _, subtracted, run⟩ := Parser.bind_eq_ok.mp run
  obtain ⟨payloadLength, _, checked, run⟩ := Parser.bind_eq_ok.mp run
  obtain ⟨payload, _, taken, same⟩ := Parser.bind_eq_ok.mp run
  obtain ⟨rfl, rfl⟩ := Prod.mk.inj (Except.ok.inj same)
  obtain ⟨found, rfl⟩ := orRefuse_eq_ok.mp checked
  obtain ⟨difference, rfl⟩ := liftPanic_eq_ok.mp subtracted
  obtain ⟨rfl, rfl⟩ := Prod.mk.inj (Except.ok.inj started)
  obtain ⟨rfl, rfl⟩ := Prod.mk.inj (Except.ok.inj stopped)
  obtain ⟨-, rfl⟩ := ensure_eq_ok.mp ensured
  exact ⟨_, _, headerLen, payloadLength, topicRead, idRead, difference, found, taken⟩

-- The payload has the length that the variable header leaves of the announced one.
theorem mpublish_left {dup retain : Bool} {qos : MQualityOfService} {remainingLength : UInt32}
    {input rest : List UInt8} {packet : MPublish} (announced : input.length = remainingLength.toNat)
    (run : mpublish dup qos retain remainingLength input = .ok (packet, rest)) : rest = [] := by
  obtain ⟨_, behind, headerLen, payloadLength, topicRead, idRead, difference, found, taken⟩ :=
    mpublish_eq_ok run
  obtain ⟨split, width⟩ := take_eq_ok.mp taken
  have shorter := variableHeader_le topicRead idRead
  rw [subUsize, if_pos shorter] at difference
  obtain rfl := Except.ok.inj difference
  have bound := remainingLength.toNat_lt
  have small : (UInt32.ofNat (input.length - behind.length)).toNat =
      input.length - behind.length := by
    rw [UInt32.toNat_ofNat']
    omega
  rw [checkedSubU32, Option.ite_none_right_eq_some] at found
  obtain ⟨within, same⟩ := found
  obtain rfl := Option.some.inj same
  have whole := congrArg List.length split
  rw [UInt32.toNat_sub_of_le _ _ within, small, ← announced] at width
  rw [List.length_append] at whole
  apply List.eq_nil_of_length_eq_zero
  omega

/-- What the parser leaves, and what its list leaves out. -/
theorem filled_iff {header : MPacketHeader} {body left : List UInt8} {packet : MPacket}
    (announced : body.length = header.remainingLength.toNat)
    (run : mpacketdata header body = .ok (packet, left)) :
    left = [] ∧ Lists packet body ↔ Filled header.kind body := by
  obtain ⟨kind, remainingLength⟩ := header
  cases kind with
  | connect => exact filled_of_spans mconnect_spans run fun _ => trivial
  | connack => exact filled_of_spans mconnack_spans run fun _ => trivial
  | puback | pubrec | pubrel | pubcomp | unsuback =>
    exact filled_of_spans mpacketidentifier_spans run fun _ => trivial
  | publish dup qos retain =>
    obtain ⟨publish, read, rfl⟩ := Parser.map_eq_ok.mp run
    exact iff_of_true ⟨mpublish_left announced read, trivial⟩ trivial
  | pingreq | pingresp | disconnect =>
    obtain ⟨rfl, rfl⟩ := Prod.mk.inj (Except.ok.inj run)
    exact (and_iff_left trivial).trans List.length_eq_zero_iff.symm
  | subscribe =>
    obtain ⟨id, tail, requests, rfl, read, rfl⟩ :=
      identified_eq_ok (fun id requests => .subscribe ⟨id, requests⟩) run
    obtain ⟨rfl, items, greedy, -, count⟩ := msubscriptionrequests_eq_ok read
    apply filled_of_greedy msubscriptionrequest_canonical _ greedy _ requestEntries_iff
    · intro request _
      simp [MSubscriptionRequest.bytes]
    · intro readable split
      exact ⟨items, readable, congrArg _ split, count⟩
  | unsubscribe =>
    obtain ⟨id, tail, requests, rfl, read, rfl⟩ :=
      identified_eq_ok (fun id requests => .unsubscribe ⟨id, requests⟩) run
    obtain ⟨rfl, items, greedy, -, count⟩ := munsubscriptionrequests_eq_ok read
    apply filled_of_greedy munsubscriptionrequest_canonical _ greedy _ topicEntries_iff
    · intro request _
      exact request.topic.bytes_ne_nil
    · intro readable split
      exact ⟨items, readable, congrArg _ split, count⟩
  | suback =>
    obtain ⟨id, tail, acks, rfl, read, rfl⟩ :=
      identified_eq_ok (fun id acks => .suback ⟨id, acks⟩) run
    apply filled_of_greedy msubscriptionack_canonical _ (msubscriptionacks_eq_ok read) _ codes_iff
    · intro ack _
      simp
    · intro _ split
      exact congrArg _ split

-- The bytes that the parser of the body leaves are dropped without an error, so an
-- entry that is refused ends its list there.
/-- An accepted packet is read to the end of its announced bytes, all of its entries
listed, exactly when these hold nothing but a packet of its kind. -/
theorem mpacket_consumed_iff {input rest : List UInt8} {packet : MPacket}
    (run : mpacket input = .ok (packet, rest)) :
    ∃ header body, mfixedheader input = .ok (header, body ++ rest) ∧
      body.length = header.remainingLength.toNat ∧
      (Consumed header body packet ↔ Filled header.kind body) := by
  obtain ⟨header, after, head, run⟩ := Parser.bind_eq_ok.mp run
  obtain ⟨body, left, taken, parsed⟩ := andThen_eq_ok.mp run
  obtain ⟨rfl, width⟩ := take_eq_ok.mp taken
  refine ⟨header, body, head, width, ?_⟩
  rw [← filled_iff width parsed, Consumed, parsed]
  simp

end

section

attribute [local instance] development x86_64

theorem mpacket_consumed_subscribe : ∃ header body,
    mfixedheader [0x82, 6, 0, 1, 0, 1, 97, 0, 0xC0] = .ok (header, body ++ [0xC0]) ∧
      body.length = header.remainingLength.toNat ∧
      (Consumed header body (.subscribe ⟨⟨1⟩, ⟨1, [0, 1, 97, 0]⟩⟩) ↔ Filled header.kind body) :=
  mpacket_consumed_iff (show mpacket [0x82, 6, 0, 1, 0, 1, 97, 0, 0xC0] =
    .ok (.subscribe ⟨⟨1⟩, ⟨1, [0, 1, 97, 0]⟩⟩, [0xC0]) from rfl)

/-- Of two subscriptions the second has no quality of service that exists: the packet
is accepted with the first one alone, and the four bytes of the second are dropped. -/
theorem mpacket_dropped :
    mpacket [0x82, 10, 0, 1, 0, 1, 97, 0, 0, 1, 98, 3] =
        .ok (.subscribe ⟨⟨1⟩, ⟨1, [0, 1, 97, 0, 0, 1, 98, 3]⟩⟩, []) ∧
      mpacketdata ⟨.subscribe, 10⟩ [0, 1, 0, 1, 97, 0, 0, 1, 98, 3] =
        .ok (.subscribe ⟨⟨1⟩, ⟨1, [0, 1, 97, 0, 0, 1, 98, 3]⟩⟩, [0, 1, 98, 3]) ∧
      ¬ Consumed ⟨.subscribe, 10⟩ [0, 1, 0, 1, 97, 0, 0, 1, 98, 3]
        (.subscribe ⟨⟨1⟩, ⟨1, [0, 1, 97, 0, 0, 1, 98, 3]⟩⟩) := by
  have read : mpacketdata ⟨.subscribe, 10⟩ [0, 1, 0, 1, 97, 0, 0, 1, 98, 3] =
      .ok (.subscribe ⟨⟨1⟩, ⟨1, [0, 1, 97, 0, 0, 1, 98, 3]⟩⟩, [0, 1, 98, 3]) := rfl
  refine ⟨rfl, read, fun consumed => ?_⟩
  have same := read.symm.trans consumed.1
  cases (Prod.mk.inj (Except.ok.inj same)).2

end

end V3
