import Cloudmqtt.V3.Safe

/-! Which strings the parser accepts, and where it reads them. -/

set_option autoImplicit false

namespace V3

open Base Rust

def Delimited (input data rest : List UInt8) : Prop :=
  ∃ hi lo, input = hi :: lo :: (data ++ rest) ∧ data.length = 256 * hi.toNat + lo.toNat

def Forbidden (c : Char) : Prop :=
  c = '\u0000' ∨ ('\u0001' ≤ c ∧ c ≤ '\u001f') ∨ ('\u007f' ≤ c ∧ c ≤ '\u009f')

/-- A string without forbidden characters, behind its length. -/
def Allowed (input : List UInt8) (s : MString) (rest : List UInt8) : Prop :=
  ∃ data, Delimited input data rest ∧ fromUtf8 data = some s.value ∧
    ∀ c ∈ s.value.toList, ¬ Forbidden c

/-- The topics, client identifiers and user names of a packet. -/
inductive Holds : MPacket → MString → Prop where
  | topicName (packet : MPublish) : Holds (.publish packet) packet.topicName
  | clientId (packet : MConnect) : Holds (.connect packet) packet.clientId
  | username {packet : MConnect} {name : MString} : packet.username = some name →
      Holds (.connect packet) name
  | will {packet : MConnect} {will : MLastWill} : packet.will = some will →
      Holds (.connect packet) will.topic
  | subscription {packet : MSubscribe} {requests : List MSubscriptionRequest}
      {request : MSubscriptionRequest} :
      Yields MSubscriptionIter.next packet.subscriptions.intoIter requests → request ∈ requests →
      Holds (.subscribe packet) request.topic
  | unsubscription {packet : MUnsubscribe} {requests : List MUnsubscriptionRequest}
      {request : MUnsubscriptionRequest} :
      Yields MUnsubscriptionIter.next packet.unsubscriptions.intoIter requests →
      request ∈ requests → Holds (.unsubscribe packet) request.topic

def ReadIn (input : List UInt8) (s : MString) : Prop :=
  ∃ piece left, piece <:+: input ∧ mstring piece = .ok (s, left)

/-! ### One string -/

theorem forbidden_iff {c : Char} : Forbidden c ↔ c = '\u0000' ∨ controlCharacters c = true := by
  rw [Forbidden, controlCharacters, Bool.or_eq_true, decide_eq_true_eq, decide_eq_true_eq]

theorem delimited_iff {input data rest : List UInt8} :
    Delimited input data rest ↔ data.length ≤ 65535 ∧ input = prefixed data ++ rest := by
  constructor
  · rintro ⟨hi, lo, rfl, length⟩
    have highest := hi.toNat_lt
    have lowest := lo.toNat_lt
    have value : V5.beValue [hi, lo] = data.length := by
      rw [length]
      simp only [V5.beValue, List.foldl]
      omega
    constructor
    · omega
    · rw [prefixed, toBeBytes, ← value, V5.u16Bytes_beValue rfl]
      rfl
  · rintro ⟨short, rfl⟩
    refine ⟨_, _, rfl, ?_⟩
    have value := congrArg UInt16.toNat (V5.beValue_u16Bytes (.ofNat data.length))
    rw [UInt16.toNat_ofNat', UInt16.toNat_ofNat', V5.u16Bytes] at value
    simp only [V5.beValue, List.foldl] at value
    generalize ((UInt16.ofNat data.length) >>> 8).toUInt8 = hi at value ⊢
    generalize (UInt16.ofNat data.length).toUInt8 = lo at value ⊢
    have highest := hi.toNat_lt
    have lowest := lo.toNat_lt
    omega

theorem mstring_eq_ok {input rest : List UInt8} {s : MString} :
    mstring input = .ok (s, rest) ↔ ∃ data, Delimited input data rest ∧
      fromUtf8 data = some s.value ∧ ∀ c ∈ s.value.toList, controlCharacters c = false := by
  rw [mstring_canonical]
  constructor
  · rintro ⟨readable, rfl⟩
    refine ⟨asBytes s.value, delimited_iff.mpr ⟨?_, rfl⟩, fromUtf8_eq_some.mpr rfl, readable.plain⟩
    rw [length_asBytes]
    exact readable.short
  · rintro ⟨data, delimited, text, plain⟩
    obtain rfl := fromUtf8_eq_some.mp text
    obtain ⟨short, rfl⟩ := delimited_iff.mp delimited
    rw [length_asBytes] at short
    exact ⟨⟨short, plain⟩, rfl⟩

/-- What should be accepted is what is accepted and has no U+0000. -/
theorem allowed_iff {input rest : List UInt8} {s : MString} :
    Allowed input s rest ↔ mstring input = .ok (s, rest) ∧ 0 ∉ asBytes s.value := by
  rw [mstring_eq_ok, mem_asBytes (by decide)]
  simp only [Allowed, forbidden_iff, not_or, Bool.not_eq_true]
  constructor
  · rintro ⟨data, delimited, text, allowed⟩
    refine ⟨⟨data, delimited, text, fun c member => (allowed c member).2⟩, fun zero => ?_⟩
    exact (allowed _ zero).1 rfl
  · rintro ⟨⟨data, delimited, text, plain⟩, zero⟩
    refine ⟨data, delimited, text, fun c member => ⟨?_, plain c member⟩⟩
    rintro rfl
    exact zero member

theorem mstring_allowed_iff (input : List UInt8) :
    (∀ s rest, mstring input = .ok (s, rest) ↔ Allowed input s rest) ↔
      ∀ data rest text, Delimited input data rest → 0 ∈ data → fromUtf8 data = some text →
        ∃ c ∈ text.toList, controlCharacters c = true := by
  constructor
  · intro exactly data rest text delimited zero same
    by_contra plain
    have accepted : mstring input = .ok (⟨text⟩, rest) := by
      apply mstring_eq_ok.mpr
      refine ⟨data, delimited, same, ?_⟩
      intro c member
      apply Bool.eq_false_iff.mpr
      intro control
      exact plain ⟨c, member, control⟩
    have without := (allowed_iff.mp ((exactly _ _).mp accepted)).2
    rw [fromUtf8_eq_some.mp same] at without
    exact without zero
  · intro refused s rest
    rw [allowed_iff, iff_self_and]
    intro accepted zero
    obtain ⟨data, delimited, text, plain⟩ := mstring_eq_ok.mp accepted
    rw [fromUtf8_eq_some.mp text] at zero
    obtain ⟨c, member, control⟩ := refused _ _ _ delimited zero text
    rw [plain c member] at control
    cases control

/-! ### The strings of a packet -/

theorem ReadIn.mono {input whole : List UInt8} {s : MString} (read : ReadIn input s)
    (inside : input <:+: whole) : ReadIn whole s := by
  obtain ⟨piece, left, within, run⟩ := read
  exact ⟨piece, left, within.trans inside, run⟩

theorem readIn_of_suffix {input piece left : List UInt8} {s : MString}
    (run : mstring piece = .ok (s, left)) (behind : piece <:+ input) : ReadIn input s :=
  ⟨piece, left, behind.isInfix, run⟩

theorem whenFlag_eq_some {α : Type} {flag : Bool} {p : MParser α} {input rest : List UInt8} {a : α}
    (run : whenFlag flag p input = .ok (some a, rest)) : p input = .ok (a, rest) := by
  cases flag with
  | true =>
    obtain ⟨b, read, same⟩ := Parser.map_eq_ok.mp run
    obtain rfl := Option.some.inj same
    exact read
  | false => cases run

theorem mlastwill_topic {flags : ConnectFlags} {input rest : List UInt8} {will : MLastWill}
    (run : mlastwill flags input = .ok (will, rest)) :
    ∃ left, mstring input = .ok (will.topic, left) := by
  obtain ⟨topic, left, payload, _, qos, topicRead, -, -, rfl⟩ := Parser.triple_eq_ok.mp run
  exact ⟨left, topicRead⟩

theorem readIn_of_mconnect {input rest : List UInt8} {packet : MConnect}
    (run : mconnect input = .ok (packet, rest)) {s : MString} (held : Holds (.connect packet) s) :
    ReadIn input s := by
  obtain ⟨level, byte, keepAlive, tail, split, run⟩ := mconnect_eq_ok run
  have behind : tail <:+ input := by
    rw [split]
    apply List.IsSuffix.trans _ (List.suffix_append _ _)
    apply List.IsSuffix.trans _ (List.suffix_cons _ _)
    apply List.IsSuffix.trans _ (List.suffix_cons _ _)
    exact List.suffix_append _ _
  obtain ⟨clientId, t, clientRead, run⟩ := Parser.bind_eq_ok.mp run
  obtain ⟨will, u, willRead, run⟩ := Parser.bind_eq_ok.mp run
  obtain ⟨username, v, nameRead, run⟩ := Parser.bind_eq_ok.mp run
  obtain ⟨password, _, -, same⟩ := Parser.bind_eq_ok.mp run
  obtain ⟨rfl, -⟩ := Prod.mk.inj (Except.ok.inj same)
  have behindClient := (mstring_spans.suffix clientRead).trans behind
  have behindWill := ((whenFlag_spans (mlastwill_spans _) _).suffix willRead).trans behindClient
  cases held with
  | clientId => exact readIn_of_suffix clientRead behind
  | username present =>
    obtain rfl : username = some s := present
    exact readIn_of_suffix (whenFlag_eq_some nameRead) behindWill
  | @will _ lastWill present =>
    obtain rfl : will = some lastWill := present
    obtain ⟨left, topicRead⟩ := mlastwill_topic (whenFlag_eq_some willRead)
    exact readIn_of_suffix topicRead behindClient

theorem exists_parsed_of_mem {α : Type} {parse : MParser α}
    (suffix : ∀ {input rest : List UInt8} {a : α}, parse input = .ok (a, rest) → rest <:+ input)
    {iter : RequestIter} {items : List α} (yields : Yields (RequestIter.next parse) iter items)
    {a : α} (member : a ∈ items) :
    ∃ piece left, piece <:+ iter.data ∧ parse piece = .ok (a, left) := by
  induction yields with
  | done => exact absurd member List.not_mem_nil
  | @item iter later b items step _ ih =>
    have parsed : parse iter.data = .ok (b, later.data) := by
      unfold RequestIter.next at step
      split at step
      next => cases step
      next =>
        split at step
        next request rest read =>
          obtain ⟨rfl, rfl⟩ := Prod.mk.inj (Option.some.inj (Except.ok.inj step))
          exact read
        next => cases step
    rcases List.mem_cons.mp member with rfl | member
    · exact ⟨iter.data, later.data, List.suffix_rfl, parsed⟩
    · obtain ⟨piece, left, behind, read⟩ := ih member
      exact ⟨piece, left, behind.trans (suffix parsed), read⟩

theorem readIn_of_yields {α : Type} {parse : MParser α} {topic : α → MString}
    (suffix : ∀ {input rest : List UInt8} {a : α}, parse input = .ok (a, rest) → rest <:+ input)
    (topicRead : ∀ {input rest : List UInt8} {a : α}, parse input = .ok (a, rest) →
      ∃ left, mstring input = .ok (topic a, left))
    {iter : RequestIter} {items : List α} (yields : Yields (RequestIter.next parse) iter items)
    {a : α} (member : a ∈ items) : ReadIn iter.data (topic a) := by
  obtain ⟨piece, _, behind, parsed⟩ := exists_parsed_of_mem suffix yields member
  obtain ⟨left, read⟩ := topicRead parsed
  exact readIn_of_suffix read behind

theorem msubscriptionrequest_topic {input rest : List UInt8} {request : MSubscriptionRequest}
    (run : msubscriptionrequest input = .ok (request, rest)) :
    ∃ left, mstring input = .ok (request.topic, left) := by
  obtain ⟨topic, left, qos, topicRead, -, rfl⟩ := Parser.pair_eq_ok.mp run
  exact ⟨left, topicRead⟩

theorem munsubscriptionrequest_topic {input rest : List UInt8} {request : MUnsubscriptionRequest}
    (run : munsubscriptionrequest input = .ok (request, rest)) :
    ∃ left, mstring input = .ok (request.topic, left) := by
  obtain ⟨topic, topicRead, rfl⟩ := Parser.map_eq_ok.mp run
  exact ⟨rest, topicRead⟩

theorem mfixedheader_suffix [Build] {input rest : List UInt8} {header : MPacketHeader}
    (run : mfixedheader input = .ok (header, rest)) : rest <:+ input := by
  obtain ⟨kind, _, kindRead, run⟩ := Parser.bind_eq_ok.mp run
  obtain ⟨bytes, _, recognized, run⟩ := Parser.bind_eq_ok.mp run
  obtain ⟨length, _, lifted, same⟩ := Parser.bind_eq_ok.mp run
  obtain ⟨-, rfl⟩ := Prod.mk.inj (Except.ok.inj same)
  obtain ⟨-, rfl⟩ := liftPanic_eq_ok.mp lifted
  obtain ⟨⟨_, _⟩, tail, flagsRead, found⟩ := Parser.bind_eq_ok.mp kindRead
  obtain ⟨-, rfl⟩ := orRefuse_eq_ok.mp found
  obtain ⟨byte, rfl, -⟩ := bits_eq_ok.mp flagsRead
  cases tail with
  | nil => cases recognized
  | cons b more =>
    rw [recognize_length] at recognized
    obtain ⟨-, rfl⟩ := Prod.mk.inj (Except.ok.inj recognized)
    apply (List.drop_suffix _ _).trans
    apply (List.suffix_cons _ _).trans
    exact List.suffix_cons _ _

section

variable [Build] [Target]

theorem readIn_of_mpacketdata {header : MPacketHeader} {body left : List UInt8} {packet : MPacket}
    (run : mpacketdata header body = .ok (packet, left)) {s : MString} (held : Holds packet s) :
    ReadIn body s := by
  obtain ⟨kind, remainingLength⟩ := header
  cases kind with
  | connect =>
    obtain ⟨connect, read, rfl⟩ := Parser.map_eq_ok.mp run
    exact readIn_of_mconnect read held
  | publish dup qos retain =>
    obtain ⟨publish, read, rfl⟩ := Parser.map_eq_ok.mp run
    cases held
    obtain ⟨left, _, _, _, topicRead, -⟩ := mpublish_eq_ok read
    exact readIn_of_suffix topicRead List.suffix_rfl
  | subscribe =>
    obtain ⟨id, tail, requests, rfl, read, rfl⟩ :=
      identified_eq_ok (fun id requests => .subscribe ⟨id, requests⟩) run
    obtain ⟨rfl, -⟩ := msubscriptionrequests_eq_ok read
    cases held with
    | subscription yields member =>
      apply ReadIn.mono _ (List.suffix_append _ _).isInfix
      exact readIn_of_yields msubscriptionrequest_canonical.suffix msubscriptionrequest_topic
        yields member
  | unsubscribe =>
    obtain ⟨id, tail, requests, rfl, read, rfl⟩ :=
      identified_eq_ok (fun id requests => .unsubscribe ⟨id, requests⟩) run
    obtain ⟨rfl, -⟩ := munsubscriptionrequests_eq_ok read
    cases held with
    | unsubscription yields member =>
      apply ReadIn.mono _ (List.suffix_append _ _).isInfix
      exact readIn_of_yields munsubscriptionrequest_canonical.suffix munsubscriptionrequest_topic
        yields member
  | suback =>
    obtain ⟨id, tail, acks, -, -, rfl⟩ :=
      identified_eq_ok (fun id acks => .suback ⟨id, acks⟩) run
    cases held
  | pingreq | pingresp | disconnect =>
    obtain ⟨rfl, -⟩ := Prod.mk.inj (Except.ok.inj run)
    cases held
  | connack | puback | pubrec | pubrel | pubcomp | unsuback =>
    obtain ⟨_, -, rfl⟩ := Parser.map_eq_ok.mp run
    cases held

/-- `mstring` accepts the allowed strings, and U+0000 where nothing else is refused; the
strings of a packet all come from it. -/
theorem mstring_allowed (input : List UInt8) :
    ((∀ s rest, mstring input = .ok (s, rest) ↔ Allowed input s rest) ↔
      ∀ data rest text, Delimited input data rest → 0 ∈ data → fromUtf8 data = some text →
        ∃ c ∈ text.toList, controlCharacters c = true) ∧
      ∀ packet rest s, mpacket input = .ok (packet, rest) → Holds packet s → ReadIn input s := by
  constructor
  · exact mstring_allowed_iff input
  · intro packet rest s run held
    obtain ⟨header, after, head, run⟩ := Parser.bind_eq_ok.mp run
    obtain ⟨body, left, taken, parsed⟩ := andThen_eq_ok.mp run
    obtain ⟨rfl, -⟩ := take_eq_ok.mp taken
    apply (readIn_of_mpacketdata parsed held).mono
    exact (List.prefix_append _ _).isInfix.trans (mfixedheader_suffix head).isInfix

end

section

attribute [local instance] development x86_64

theorem mstring_allowed_letter :
    (∀ s rest, mstring [0, 1, 97] = .ok (s, rest) ↔ Allowed [0, 1, 97] s rest) ∧
      ReadIn [0x30, 3, 0, 1, 97] ⟨"a"⟩ := by
  constructor
  · apply (mstring_allowed [0, 1, 97]).1.mpr
    intro data rest text delimited zero
    obtain ⟨hi, lo, split, -⟩ := delimited
    obtain ⟨-, split⟩ := List.cons.inj split
    obtain ⟨-, split⟩ := List.cons.inj split
    have member : 0 ∈ [(97 : UInt8)] := split ▸ List.mem_append_left rest zero
    exact absurd member (by decide)
  · exact (mstring_allowed [0x30, 3, 0, 1, 97]).2 _ [] _ rfl
      (.topicName ⟨false, .atMostOnce, false, ⟨"a"⟩, none, []⟩)

end

/-- The string of U+0000 alone is accepted. -/
theorem mstring_zero : mstring [0, 1, 0] = .ok (⟨"\u0000"⟩, []) ∧
    ¬ Allowed [0, 1, 0] ⟨"\u0000"⟩ [] := by
  constructor
  · rfl
  · rintro ⟨data, -, -, allowed⟩
    exact allowed '\u0000' (by decide) (.inl rfl)

end V3
