import Cloudmqtt.Base.Framing
import Cloudmqtt.V5.Announced
import Cloudmqtt.V5.Complete
import Cloudmqtt.V5.Lengths

/-! The stream codec: frames cut off the receive buffer and parsed whole, and packets written
into the send buffer. -/

set_option autoImplicit false

namespace Client

open Base Rust V5

/-- `Io` is left out: it comes from the transport alone. -/
inductive MqttPacketCodecError where
  | writer (e : MqttWriteError)
  | protocol
  | parsing (e : ErrMode)
  deriving DecidableEq, Repr

/-- How the codec stops: with an error it returns, or unwinding. -/
inductive CodecFault where
  | error (e : MqttPacketCodecError)
  | panic (p : Panic)
  deriving DecidableEq, Repr

namespace MqttPacketCodec

/-- With the room that is reserved in `src`, if any. `usize` holds the total length: the
remaining length has at most 28 bits. -/
def decodeReserving (src : List UInt8) :
    (Except CodecFault (Option MqttPacket) × List UInt8) × Option Nat :=
  if src.length < 2 then ((.ok none, src), some (2 - src.length))
  else
    match parseVariableU32With true (src.drop 1) with
    | .error (.incomplete needed) => ((.ok none, src), some needed)
    | .error _ => ((.error (.error .protocol), src), none)
    | .ok (remainingLength, _) =>
      match variableU32BinarySize remainingLength with
      | .error p => ((.error (.panic p), src), none)
      | .ok size =>
        let totalPacketLength := 1 + size.toNat + remainingLength.toNat
        if src.length < totalPacketLength then
          ((.ok none, src), some (totalPacketLength - src.length))
        else
          (match MqttPacket.parseComplete (src.take totalPacketLength) with
            | .error e => (.error (.error (.parsing e)), src.drop totalPacketLength)
            | .ok packet => (.ok (some packet), src.drop totalPacketLength), none)

-- Reserving room changes no bytes.
def decode : Decoder CodecFault MqttPacket UInt8 := fun src => (decodeReserving src).1

def reserve (src : List UInt8) : Option Nat := (decodeReserving src).2

def totalLength (field : List UInt8) : Nat :=
  1 + variableWidth (digitsValue field) + digitsValue field

theorem sized_field {field : List UInt8} (shape : VariableBytes field) :
    ∃ size, variableU32BinarySize (variableU32Value field) = .ok size ∧
      1 + size.toNat + (variableU32Value field).toNat = totalLength field := by
  have bound := parseVariableU32_le (parseVariableU32_reads shape [])
  have value := toNat_variableU32Value shape.length.2
  have width : (UInt32.ofNat (variableWidth (digitsValue field))).toNat =
      variableWidth (digitsValue field) := by
    have le := shape.width_le
    have narrow := shape.length.2
    exact UInt32.toNat_ofNat_of_lt (by rw [UInt32.size]; omega)
  refine ⟨_, variableU32BinarySize_eq bound, ?_⟩
  rw [value, width, totalLength]

theorem decodeReserving_framed {header : UInt8} {field rest : List UInt8}
    (shape : VariableBytes field) : decodeReserving (header :: (field ++ rest)) =
      if 1 + field.length + rest.length < totalLength field then
        ((.ok none, header :: (field ++ rest)),
          some (totalLength field - (1 + field.length + rest.length)))
      else
        (match MqttPacket.parseComplete ((header :: (field ++ rest)).take (totalLength field)) with
          | .error e =>
            (.error (.error (.parsing e)), (header :: (field ++ rest)).drop (totalLength field))
          | .ok packet =>
            (.ok (some packet), (header :: (field ++ rest)).drop (totalLength field)), none) := by
  obtain ⟨size, sized, total⟩ := sized_field shape
  have read : parseVariableU32With true (field ++ rest) = .ok (variableU32Value field, rest) :=
    parseVariableU32With_eq_ok.mpr ⟨field, shape, rfl, rfl⟩
  have length : (header :: (field ++ rest)).length = 1 + field.length + rest.length := by
    simp only [List.length_cons, List.length_append]
    omega
  have positive := shape.length.1
  unfold decodeReserving
  rw [if_neg (by omega), List.drop_succ_cons, List.drop_zero, read]
  simp only [sized, length, total]

theorem decodeReserving_incomplete {header : UInt8} {tail : List UInt8} {needed : Nat}
    (long : ¬ (header :: tail).length < 2)
    (run : parseVariableU32With true tail = .error (.incomplete needed)) :
    decodeReserving (header :: tail) = ((.ok none, header :: tail), some needed) := by
  unfold decodeReserving
  rw [if_neg long, List.drop_succ_cons, List.drop_zero, run]

theorem decodeReserving_backtrack {header : UInt8} {tail : List UInt8}
    (long : ¬ (header :: tail).length < 2)
    (run : parseVariableU32With true tail = .error .backtrack) :
    decodeReserving (header :: tail) = ((.error (.error .protocol), header :: tail), none) := by
  unfold decodeReserving
  rw [if_neg long, List.drop_succ_cons, List.drop_zero, run]

/-- A complete length field leaves three outcomes, by the length of the buffer
and by the parser of the frame. -/
theorem decode_framed {header : UInt8} {field rest : List UInt8} (shape : VariableBytes field) :
    decode (header :: (field ++ rest)) =
      if 1 + field.length + rest.length < totalLength field then
        (.ok none, header :: (field ++ rest))
      else
        match MqttPacket.parseComplete ((header :: (field ++ rest)).take (totalLength field)) with
        | .error e =>
          (.error (.error (.parsing e)), (header :: (field ++ rest)).drop (totalLength field))
        | .ok packet =>
          (.ok (some packet), (header :: (field ++ rest)).drop (totalLength field)) := by
  rw [decode, decodeReserving_framed shape, apply_ite Prod.fst]

/-- The three cases of a buffer: no complete length field yet, a length field
that does not end, and a complete one. -/
theorem decode_cases (src : List UInt8) :
    (∃ header field rest, src = header :: (field ++ rest) ∧ VariableBytes field) ∨
      decode src = (.ok none, src) ∨
      ∀ more, decode (src ++ more) = (.error (.error .protocol), src ++ more) := by
  by_cases short : src.length < 2
  · exact .inr (.inl (congrArg Prod.fst (if_pos short)))
  obtain ⟨header, tail, rfl⟩ := List.exists_cons_of_length_pos (show 0 < src.length by omega)
  cases run : parseVariableU32With true tail with
  | ok pair =>
    obtain ⟨field, shape, rfl, -⟩ := parseVariableU32With_eq_ok.mp run
    exact .inl ⟨header, field, _, rfl, shape⟩
  | error e =>
    rcases parseVariableU32With_eq_error run with rfl | ⟨rfl, endless⟩
    · exact .inr (.inl (congrArg Prod.fst (decodeReserving_incomplete short run)))
    · refine .inr (.inr fun more => ?_)
      have long : ¬ (header :: (tail ++ more)).length < 2 := by
        rw [← List.cons_append, List.length_append]
        omega
      exact congrArg Prod.fst (decodeReserving_backtrack long (endless more))

theorem decode_append {src : List UInt8} (decided : (decode src).1 ≠ .ok none)
    (more : List UInt8) : decode (src ++ more) = ((decode src).1, (decode src).2 ++ more) := by
  rcases decode_cases src with ⟨header, field, rest, rfl, shape⟩ | waits | endless
  · have longer : header :: (field ++ rest) ++ more = header :: (field ++ (rest ++ more)) := by simp
    have length : (header :: (field ++ rest)).length = 1 + field.length + rest.length := by
      simp only [List.length_cons, List.length_append]
      omega
    have both : decode (header :: (field ++ rest)) = _ := decode_framed shape
    split at both
    next => exact absurd (congrArg Prod.fst both) decided
    next complete =>
      rw [longer, decode_framed shape, ← longer, if_neg (by rw [List.length_append]; omega),
        List.take_append_of_le_length (by omega), List.drop_append_of_le_length (by omega), both]
      split <;> rfl
  · exact absurd (congrArg Prod.fst waits) decided
  · have alone := endless []
    rw [List.append_nil] at alone
    rw [endless more, alone]

/-- What `decode` decides, it decides by the bytes of the frame. -/
theorem decode_incremental : Incremental decode where
  empty := rfl
  wait := by
    intro src left call
    rcases decode_cases src with ⟨header, field, rest, rfl, shape⟩ | waits | endless
    · rw [decode_framed shape] at call
      split at call
      next => exact (Prod.mk.inj call).2.symm
      next => split at call <;> simp at call
    · exact (Prod.mk.inj (waits.symm.trans call)).2.symm
    · have failed := endless []
      rw [List.append_nil, call] at failed
      simp at failed
  item := by
    intro src left packet call
    refine ⟨?_, fun more => by rw [decode_append (by simp [call]), call]⟩
    rcases decode_cases src with ⟨header, field, rest, rfl, shape⟩ | waits | endless
    · rw [decode_framed shape] at call
      split at call
      next => simp at call
      next =>
        split at call
        next => simp at call
        next =>
          rw [← (Prod.mk.inj call).2, totalLength, List.length_drop, List.length_cons]
          omega
    · simp [waits] at call
    · have failed := endless []
      rw [List.append_nil, call] at failed
      simp at failed
  fail := by
    intro src left e call more
    rw [decode_append (by simp [call]), call]

/-- However a stream is cut into chunks, the same packets, the same failure and
the same leftover come out; each round of calls ends by waiting or failing, and
a wait leaves the buffer as it was. -/
theorem decode_chunks {first second : List (List UInt8)} (same : first.flatten = second.flatten) :
    (feed decode first).Agrees (feed decode second) ∧
      (∀ src, Polls decode src (poll decode src)) ∧
      ∀ src left, decode src = (.ok none, left) → left = src :=
  ⟨decode_incremental.feed_congr same, decode_incremental.polls,
    fun _ _ => decode_incremental.wait⟩

theorem decode_chunks_pingreq :
    (feed decode [[0xC0], [0x00, 0xC0]]).Agrees (feed decode [[0xC0, 0x00, 0xC0]]) ∧
      (∀ src, Polls decode src (poll decode src)) ∧
      ∀ src left, decode src = (.ok none, left) → left = src :=
  decode_chunks rfl

/-! ### Agreement with the packet parser -/

/-- The length field behind the header byte has as many bytes as its value needs. -/
def ShortestLength (src : List UInt8) : Prop :=
  fieldWidth (src.drop 1) = variableWidth (fieldValue (src.drop 1))

/-- The decoder cuts off what the parser read exactly when the length field is
the shortest one. -/
theorem decode_eq_parse {src rest : List UInt8} {packet : MqttPacket}
    (parsed : MqttPacket.parse src = .ok (packet, rest)) :
    decode src = (.ok (some packet), rest) ↔ ShortestLength src := by
  obtain ⟨t, tail, u, body, left, rfl, read, length, run⟩ := MqttPacket.parse_eq_ok.mp parsed
  obtain ⟨field, shape, rfl, rfl⟩ := parseVariableU32With_eq_ok.mp read
  rw [toNat_variableU32Value shape.length.2] at length
  have value := toNat_variableU32Value shape.length.2
  have cut : MFixedHeader.toU8 ⟨t⟩ :: (field ++ (body ++ rest)) =
      (MFixedHeader.toU8 ⟨t⟩ :: (field ++ body)) ++ rest := by simp
  have frame : (MFixedHeader.toU8 ⟨t⟩ :: (field ++ body)).length =
      1 + field.length + body.length := by
    simp only [List.length_cons, List.length_append]
    omega
  rw [ShortestLength, List.drop_succ_cons, List.drop_zero, fieldWidth_append shape,
    fieldValue_append shape, decode_framed shape, cut]
  constructor
  · intro decoded
    split at decoded
    next => simp at decoded
    next enough =>
      split at decoded
      next => simp at decoded
      next =>
        -- the leftover has the right length only when the frame was cut at its end
        have dropped := congrArg List.length (Prod.mk.inj decoded).2
        rw [List.length_append] at enough
        rw [List.length_drop, List.length_append, frame] at dropped
        rw [totalLength, length] at dropped enough
        rw [length]
        omega
  · intro shortest
    have total : totalLength field = (MFixedHeader.toU8 ⟨t⟩ :: (field ++ body)).length := by
      rw [frame, totalLength, ← shortest, length]
    have whole : MqttPacket.parse (MFixedHeader.toU8 ⟨t⟩ :: (field ++ body)) = .ok (packet, []) :=
      MqttPacket.parse_eq_ok.mpr ⟨t, field ++ body, _, body, left, rfl,
        parseVariableU32With_eq_ok.mpr ⟨field, shape, by rw [List.append_nil], rfl⟩,
        value.trans length, run⟩
    rw [total, List.take_left, List.drop_left, if_neg (by rw [frame, List.length_append]; omega),
      MqttPacket.parseComplete, whole]
    rfl

/-- A PINGREQ whose length field has a second byte. -/
theorem decode_pingreq_overlong :
    ∃ packet, MqttPacket.parse [0xC0, 0x80, 0x00] = .ok (packet, []) ∧
      decode [0xC0, 0x80, 0x00] ≠ (.ok (some packet), []) := by
  refine ⟨.pingreq .mk, rfl, ?_⟩
  have failed : decode [0xC0, 0x80, 0x00] = (.error (.error (.parsing .backtrack)), [0x00]) := rfl
  rw [failed]
  simp

theorem decode_eq_parse_pingreq :
    decode [0xC0, 0x00, 0xD0] = (.ok (some (.pingreq .mk)), [0xD0]) ↔
      ShortestLength [0xC0, 0x00, 0xD0] :=
  decode_eq_parse rfl

/-! ### The encoder -/

section

variable [Build]

-- The writer appends to `dst` itself: its bytes are there whether it succeeds or not.
/-- Also the buffer left behind. Debug assertions come with the overflow checks. -/
def encode (packet : MqttPacket) (dst : List UInt8) : Except CodecFault Unit × List UInt8 :=
  match packet.binarySize with
  | .error p => (.error (.panic p), dst)
  | .ok size =>
    let written := packet.write.emitted
    match packet.write.outcome with
    | .error (.error e) => (.error (.error (.writer e)), dst ++ written)
    | .error (.panic p) => (.error (.panic p), dst ++ written)
    | .ok () =>
      if Build.overflowChecks ∧ written.length ≠ size.toNat then
        (.error (.panic .assertion), dst ++ written)
      else (.ok (), dst ++ written)

/-- Only a writer that stops with an error makes `encode` return one. -/
theorem encode_error_iff {packet : MqttPacket} {dst after : List UInt8}
    {e : MqttPacketCodecError} :
    encode packet dst = (.error (.error e), after) ↔
      (∃ size, packet.binarySize = .ok size) ∧ after = dst ++ packet.write.emitted ∧
        ∃ cause, packet.write.outcome = .error (.error cause) ∧ e = .writer cause := by
  unfold encode
  cases packet.binarySize with
  | error p => simp
  | ok size =>
    cases packet.write.outcome with
    | error fault =>
      cases fault with
      | panic p => simp
      | error cause =>
        simp only [Prod.mk.injEq, Except.error.injEq, CodecFault.error.injEq]
        constructor
        · rintro ⟨rfl, rfl⟩
          exact ⟨⟨size, rfl⟩, rfl, cause, trivial, rfl⟩
        · rintro ⟨-, rfl, ⟨⟩, -, rfl⟩
          cases cause
          exact ⟨rfl, rfl⟩
    | ok =>
      simp only [reduceCtorEq, false_and, exists_false, and_false, iff_false]
      split <;> simp

/-- What a failed call wrote stays in the buffer, from the fixed header on. -/
theorem encode_error_leaves {packet : MqttPacket} {dst after : List UInt8}
    {e : MqttPacketCodecError} (failed : encode packet dst = (.error (.error e), after)) :
    (∃ more, after = dst ++ MFixedHeader.toU8 ⟨packet.packetType⟩ :: more) ∧ after ≠ dst := by
  obtain ⟨-, rfl, -⟩ := encode_error_iff.mp failed
  obtain ⟨more, emitted⟩ := packet.write_emitted
  rw [emitted]
  refine ⟨⟨more, rfl⟩, fun same => ?_⟩
  simpa using congrArg List.length same

/-- An oversized packet gets an error only if its sizes fit all the same, because
lengths were cut to `u32`, and the writer then stops at another of its fields. -/
theorem encode_oversized_iff {packet : MqttPacket} {dst : List UInt8} :
    (packet.Oversized → ∃ e after, encode packet dst = (.error (.error e), after)) ↔
      (packet.Oversized → packet.SizesFit ∧ packet.Unwritable) := by
  refine imp_congr_right fun _ => ?_
  simp only [encode_error_iff, MqttPacket.binarySize_iff, MqttPacket.packetSize_iff]
  constructor
  · rintro ⟨e, after, fit, -, cause, stopped, -⟩
    cases cause
    exact ⟨fit, (MqttPacket.write_error_iff fit).mp stopped⟩
  · rintro ⟨fit, unwritable⟩
    exact ⟨_, _, fit, rfl, _, (MqttPacket.write_error_iff fit).mpr unwritable, rfl⟩

/-- Below the range of `u32`, an oversized packet makes the call unwind. -/
theorem encode_oversized_unwinds {packet : MqttPacket} (oversized : packet.Oversized)
    (small : packet.bodyLength < 2 ^ 32) (dst : List UInt8) :
    ∃ p, encode packet dst = (.error (.panic p), dst) := by
  unfold encode
  cases sized : packet.binarySize with
  | error p => exact ⟨p, rfl⟩
  | ok size =>
    have fits := MqttPacket.packetSize_iff.mp (MqttPacket.binarySize_iff.mp ⟨size, sized⟩)
    exact absurd oversized ((MqttPacket.sizesFit_iff small).mp fits).2

end

def hugeIdentifier : MPublish where
  duplicate := false
  qualityOfService := .atMostOnce
  retain := false
  topicName := "t"
  packetIdentifier := none
  properties := ⟨fun | .subscriptionIdentifier => some (268435456 : UInt32) | _ => none,
    fun kind foreign => by cases kind <;> first | rfl | exact absurd (by decide) foreign⟩
  payload := []

/-- No error: the size function is called first, and unwinds. -/
theorem encode_hugeIdentifier :
    (MqttPacket.publish hugeIdentifier).Oversized ∧
      @encode development (.publish hugeIdentifier) [] = (.error (.panic .unreachable), []) := by
  have held : .varint 268435456 ∈ hugeIdentifier.properties.elements :=
    List.mem_flatMap.mpr ⟨.subscriptionIdentifier, by decide,
      List.mem_cons_of_mem _ List.mem_cons_self⟩
  have large : ¬ (Element.varint 268435456).Sizable := by
    change ¬ 268435456 ≤ 268435455
    decide
  exact ⟨.inr (.inr ⟨_, List.mem_cons_of_mem _ List.mem_cons_self, _, held, large⟩), rfl⟩

def strayIdentifier : MPublish :=
  ⟨false, .atMostOnce, false, "t", some ⟨⟨1, NonZeroU16.one_ne_zero⟩⟩, .new publishFields, []⟩

theorem encode_strayIdentifier : @encode development (.publish strayIdentifier) [0xC0, 0x00] =
    (.error (.error (.writer .invariant)), [0xC0, 0x00, 0x30, 0x06, 0x00, 0x01, 0x74]) := rfl

theorem encode_error_leaves_strayIdentifier :
    (∃ more, ([0xC0, 0x00, 0x30, 0x06, 0x00, 0x01, 0x74] : List UInt8) =
        [0xC0, 0x00] ++
          MFixedHeader.toU8 ⟨(MqttPacket.publish strayIdentifier).packetType⟩ :: more) ∧
      ([0xC0, 0x00, 0x30, 0x06, 0x00, 0x01, 0x74] : List UInt8) ≠ [0xC0, 0x00] :=
  @encode_error_leaves development _ _ _ _ encode_strayIdentifier

/-- A PINGREQ waits in the buffer; behind it a frame is begun and not finished. -/
theorem encode_unfinished :
    ∃ packet dst e after, @encode development packet dst = (.error (.error e), after) ∧
      after ≠ dst :=
  ⟨.publish strayIdentifier, [0xC0, 0x00], _, _, encode_strayIdentifier, by decide⟩

end MqttPacketCodec

/-- The packet is written into a buffer of its own and parsed out of it. -/
def MqttPacket.new [Build] (packet : MqttPacket) : Except Panic MqttPacket :=
  match packet.binarySize with
  | .error p => .error p
  | .ok _ =>
    match packet.write.outcome with
    | .error (.panic p) => .error p
    | .error (.error _) => .error .unwrapError
    | .ok () =>
      match MqttPacket.parseComplete packet.write.emitted with
      | .error _ => .error .unwrapError
      | .ok parsed => .ok parsed

section

variable [Build]

theorem MqttPacket.new_eq_ok {packet parsed : MqttPacket} :
    MqttPacket.new packet = .ok parsed ↔ (∃ size, packet.binarySize = .ok size) ∧
      ∃ bytes, packet.write.Emits bytes () ∧ MqttPacket.parseComplete bytes = .ok parsed := by
  constructor
  · intro made
    unfold MqttPacket.new at made
    split at made
    next => simp at made
    next size sized =>
      split at made
      next => simp at made
      next => simp at made
      next ended =>
        split at made
        next => simp at made
        next read =>
          obtain rfl := Except.ok.inj made
          exact ⟨⟨size, sized⟩, _, Emit.emits_iff.mpr ⟨rfl, ended⟩, read⟩
  · rintro ⟨⟨size, sized⟩, bytes, written, read⟩
    obtain ⟨rfl, ended⟩ := Emit.emits_iff.mp written
    simp only [MqttPacket.new, sized, ended, read]

/-- A packet that can be written has its size, so only the parser is left to fail. -/
theorem MqttPacket.new_of_write {packet : MqttPacket} (iterable : packet.Iterable)
    (short : packet.writePacket.emitted.length ≤ 268435455) {bytes : List UInt8}
    (written : packet.write.Emits bytes ()) {parsed : MqttPacket} :
    MqttPacket.new packet = .ok parsed ↔ MqttPacket.parseComplete bytes = .ok parsed := by
  obtain ⟨length, body, lengthEmits, bodyEmits, -⟩ :=
    (MqttPacket.write_emits iterable short).mp written
  obtain rfl := (Emit.emits_iff.mp bodyEmits).1
  have sized := MqttPacket.binarySize_eq iterable short lengthEmits bodyEmits
  rw [MqttPacket.new_eq_ok, and_iff_right ⟨_, sized⟩]
  constructor
  · rintro ⟨_, again, read⟩
    rwa [← (again.unique written).1]
  · exact fun read => ⟨bytes, written, read⟩

/-- A PUBLISH that can be written comes back as it was exactly when its topic
name passes the parser's check and an identifier is there if one is needed. -/
theorem MqttPacket.new_publish_iff {p : MPublish} (valid : p.properties.Valid)
    (short : (MqttPacket.publish p).writePacket.emitted.length ≤ 268435455) {bytes : List UInt8}
    (written : (MqttPacket.publish p).write.Emits bytes ()) :
    (∃ q, MqttPacket.parseComplete bytes = .ok (.publish q) ∧ q.eq p = .ok true ∧
        MqttPacket.new (.publish p) = .ok (.publish q)) ↔
      sanityCheckTopicName p.topicName = true ∧
        (p.packetIdentifier.isSome ∨ p.qualityOfService = .atMostOnce) := by
  have iterable : (MqttPacket.publish p).Iterable := List.forall_mem_singleton.mpr valid
  rw [← MqttPacket.parse_of_write_publish valid short written]
  constructor
  · rintro ⟨q, parsed, same, -⟩
    exact ⟨q, parsed, same⟩
  · rintro ⟨q, parsed, same⟩
    exact ⟨q, parsed, same, (new_of_write iterable short written).mpr parsed⟩

end

def publication (message : List UInt8) (topic : String) : MPublish :=
  ⟨false, .atMostOnce, false, topic, none, .new publishFields, message⟩

theorem MqttPacket.new_publish_plain :
    (∃ q, MqttPacket.parseComplete [0x30, 0x05, 0x00, 0x01, 0x61, 0x00, 0x01] = .ok (.publish q) ∧
        q.eq (publication [1] "a") = .ok true ∧
        @MqttPacket.new development (.publish (publication [1] "a")) = .ok (.publish q)) ↔
      sanityCheckTopicName (publication [1] "a").topicName = true ∧
        ((publication [1] "a").packetIdentifier.isSome ∨
          (publication [1] "a").qualityOfService = .atMostOnce) :=
  @MqttPacket.new_publish_iff development (publication [1] "a") (Properties.new_valid _)
    (by decide) _ rfl

/-- The topic goes out, and the client unwinds when it reads its own packet. -/
theorem MqttPacket.new_publish_wildcard :
    ∃ bytes, (@MqttPacket.write development (.publish (publication [1] "a/#"))).Emits bytes () ∧
      (∀ q, MqttPacket.parseComplete bytes ≠ .ok q) ∧
      @MqttPacket.new development (.publish (publication [1] "a/#")) = .error .unwrapError := by
  refine ⟨_, rfl, ?_, rfl⟩
  rintro q ⟨⟩

end Client
