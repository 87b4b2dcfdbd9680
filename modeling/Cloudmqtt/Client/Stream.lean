import Cloudmqtt.Base.Frames
import Cloudmqtt.Client.Codec

/-! Streams of packets: what was written one packet after the other is read as it arrives. -/

set_option autoImplicit false

namespace Client

open Base Rust V5

namespace MqttPacketCodec

section

variable [Build]

def encodeAll : List MqttPacket → List UInt8 → Except CodecFault Unit × List UInt8
  | [], dst => (.ok (), dst)
  | packet :: packets, dst =>
    match encode packet dst with
    | (.ok (), dst) => encodeAll packets dst
    | failed => failed

/-- Well formed, and no longer than a length field can say. -/
structure Sendable (packet : MqttPacket) : Prop where
  valid : packet.Valid
  short : packet.writePacket.emitted.length ≤ 268435455

theorem encode_eq_ok {packet : MqttPacket} {dst after : List UInt8}
    (encoded : encode packet dst = (.ok (), after)) :
    ∃ frame, packet.write.Emits frame () ∧ after = dst ++ frame := by
  unfold encode at encoded
  split at encoded
  next => cases congrArg Prod.fst encoded
  next size sized =>
    dsimp only at encoded
    split at encoded
    next => cases congrArg Prod.fst encoded
    next => cases congrArg Prod.fst encoded
    next ended =>
      split at encoded
      next => cases congrArg Prod.fst encoded
      next => exact ⟨_, Emit.emits_iff.mpr ⟨rfl, ended⟩, (congrArg Prod.snd encoded).symm⟩

theorem encode_of_write {packet : MqttPacket} (sendable : Sendable packet) {frame : List UInt8}
    (written : packet.write.Emits frame ()) (dst : List UInt8) :
    encode packet dst = (.ok (), dst ++ frame) := by
  have iterable := sendable.valid.iterable
  obtain ⟨length, body, lengthEmits, bodyEmits, cut⟩ :=
    (MqttPacket.write_emits iterable sendable.short).mp written
  obtain rfl := (Emit.emits_iff.mp bodyEmits).1
  have sized := MqttPacket.binarySize_eq iterable sendable.short lengthEmits bodyEmits
  obtain ⟨shape, -, -⟩ := writeVariableU32_emits lengthEmits
  have narrow := shape.length.2
  have short := sendable.short
  have total : (UInt32.ofNat (1 + length.length + packet.writePacket.emitted.length)).toNat =
      frame.length := by
    rw [UInt32.toNat_ofNat_of_lt' (by rw [UInt32.size]; omega), cut]
    simp only [List.length_cons, List.length_append]
    omega
  obtain ⟨emitted, ended⟩ := Emit.emits_iff.mp written
  simp only [encode, sized, ended, ← emitted, total]
  simp

/-- A written packet is a frame of its own to the decoder. -/
theorem decode_frame {packet : MqttPacket} (sendable : Sendable packet) {frame : List UInt8}
    (written : packet.write.Emits frame ()) :
    ∃ q, decode frame = (.ok (some q), []) ∧ q.eq packet = .ok true := by
  obtain ⟨field, body, fieldEmits, bodyEmits, rfl⟩ :=
    (MqttPacket.write_emits sendable.valid.iterable sendable.short).mp written
  obtain rfl := (Emit.emits_iff.mp bodyEmits).1
  obtain ⟨q, read, same⟩ :=
    MqttPacket.parse_frame sendable.valid sendable.short fieldEmits bodyEmits []
  obtain ⟨shape, value, width⟩ := writeVariableU32_emits fieldEmits
  rw [MqttPacket.toNat_ofNat sendable.short] at value width
  have total : totalLength field = 1 + field.length + packet.writePacket.emitted.length := by
    rw [totalLength, value, ← width]
  have length : (MFixedHeader.toU8 ⟨packet.packetType⟩ ::
      (field ++ packet.writePacket.emitted)).length = totalLength field := by
    rw [total]
    simp only [List.length_cons, List.length_append]
    omega
  have parsed : MqttPacket.parseComplete (MFixedHeader.toU8 ⟨packet.packetType⟩ ::
      (field ++ packet.writePacket.emitted)) = .ok q := by
    rw [List.append_nil] at read
    rw [MqttPacket.parseComplete, read]
    rfl
  refine ⟨q, ?_, same⟩
  rw [decode_framed shape, if_neg (by omega), List.take_of_length_le length.le,
    List.drop_of_length_le length.le, parsed]

theorem encodeAll_eq_ok {packets : List MqttPacket} {dst after : List UInt8}
    (sent : encodeAll packets dst = (.ok (), after)) :
    ∃ frames, List.Forall₂ (fun packet frame => packet.write.Emits frame ()) packets frames ∧
      after = dst ++ frames.flatten := by
  induction packets generalizing dst with
  | nil =>
    refine ⟨[], .nil, ?_⟩
    rw [List.flatten_nil, List.append_nil]
    exact (congrArg Prod.snd sent).symm
  | cons packet packets ih =>
    unfold encodeAll at sent
    split at sent
    next middle encoded =>
      obtain ⟨frame, written, rfl⟩ := encode_eq_ok encoded
      obtain ⟨frames, all, rfl⟩ := ih sent
      refine ⟨frame :: frames, .cons written all, ?_⟩
      rw [List.flatten_cons, List.append_assoc]
    next failed => exact absurd sent (failed after)

theorem encodeAll_of_writes {packets : List MqttPacket}
    (sendable : ∀ packet ∈ packets, Sendable packet) {frames : List (List UInt8)}
    (written : List.Forall₂ (fun packet frame => packet.write.Emits frame ()) packets frames)
    (dst : List UInt8) : encodeAll packets dst = (.ok (), dst ++ frames.flatten) := by
  induction written generalizing dst with
  | nil => simp [encodeAll]
  | cons first _ ih =>
    have encoded := encode_of_write (sendable _ List.mem_cons_self) first dst
    simp only [encodeAll, encoded]
    rw [ih (fun packet member => sendable packet (List.mem_cons_of_mem _ member)),
      List.flatten_cons, List.append_assoc]

structure Carries (packet : MqttPacket) (entry : List UInt8 × MqttPacket) : Prop where
  written : packet.write.Emits entry.1 ()
  decoded : decode entry.1 = (.ok (some entry.2), [])
  same : entry.2.eq packet = .ok true

theorem exists_carries {packets : List MqttPacket}
    (sendable : ∀ packet ∈ packets, Sendable packet) {frames : List (List UInt8)}
    (written : List.Forall₂ (fun packet frame => packet.write.Emits frame ()) packets frames) :
    ∃ entries, List.Forall₂ Carries packets entries ∧ entries.map Prod.fst = frames ∧
      ∀ entry ∈ entries, decode entry.1 = (.ok (some entry.2), []) := by
  induction written with
  | nil => exact ⟨[], .nil, rfl, List.forall_mem_nil _⟩
  | @cons packet frame _ _ first _ ih =>
    obtain ⟨entries, carried, rfl, whole⟩ := ih fun packet member =>
      sendable packet (List.mem_cons_of_mem _ member)
    obtain ⟨q, decoded, same⟩ := decode_frame (sendable packet List.mem_cons_self) first
    exact ⟨(frame, q) :: entries, .cons ⟨first, decoded, same⟩ carried, rfl,
      List.forall_mem_cons.mpr ⟨decoded, whole⟩⟩

def Begun (left : List UInt8) : List MqttPacket → Prop
  | [] => left = []
  | packet :: _ => ∃ frame, packet.write.Emits frame () ∧ left <+: frame ∧ left ≠ frame

theorem feed_writes {packets : List MqttPacket}
    (sendable : ∀ packet ∈ packets, Sendable packet) {frames : List (List UInt8)}
    (written : List.Forall₂ (fun packet frame => packet.write.Emits frame ()) packets frames)
    {chunks : List (List UInt8)} (arrived : chunks.flatten <+: frames.flatten) :
    ∃ read pending, packets = read ++ pending ∧ (feed decode chunks).failure = none ∧
      List.Forall₂ (fun q packet => q.eq packet = .ok true) (feed decode chunks).items read ∧
      (∃ whole, encodeAll read [] = (.ok (), whole) ∧
        chunks.flatten = whole ++ (feed decode chunks).left) ∧
      Begun (feed decode chunks).left pending ∧
      (chunks.flatten = frames.flatten → pending = []) := by
  obtain ⟨entries, carried, rfl, whole⟩ := exists_carries sendable written
  obtain ⟨read, pending, left, rfl, cut, unfinished, polled⟩ :=
    decode_incremental.feed_frames whole arrived
  -- the entries that were read, and those to come, each with their packets
  have first := List.forall₂_take_append _ _ _ carried
  have second := List.forall₂_drop_append _ _ _ carried
  have framed : List.Forall₂ (fun packet frame => packet.write.Emits frame ())
      (packets.take read.length) (read.map Prod.fst) :=
    List.forall₂_map_right_iff.mpr (first.imp fun _ _ carries => carries.written)
  refine ⟨packets.take read.length, packets.drop read.length, (List.take_append_drop ..).symm,
    ?_, ?_, ⟨(read.map Prod.fst).flatten, ?_, ?_⟩, ?_, ?_⟩
  · rw [polled]
  · rw [polled, List.forall₂_map_left_iff]
    exact first.flip.imp fun _ _ carries => carries.same
  · exact encodeAll_of_writes (fun packet member => sendable packet (List.mem_of_mem_take member))
      framed []
  · rw [polled, cut]
  · rw [polled]
    generalize packets.drop read.length = later at second
    cases second with
    | nil => exact unfinished
    | cons carries _ => exact ⟨_, carries.written, unfinished⟩
  · intro all
    rw [cut, List.map_append] at all
    have none := unfinished.eq_nil all
    rw [List.map_eq_nil_iff] at none
    rw [none] at second
    exact List.forall₂_nil_right_iff.mp second

/-- However far a stream of packets has arrived, and in whatever chunks: the
packets that are complete have been read, in order, and what is left in the
buffer is the beginning of the next one. -/
theorem feed_encodeAll {packets : List MqttPacket}
    (sendable : ∀ packet ∈ packets, Sendable packet) {bytes : List UInt8}
    (sent : encodeAll packets [] = (.ok (), bytes)) {chunks : List (List UInt8)}
    (arrived : chunks.flatten <+: bytes) : ∃ read pending, packets = read ++ pending ∧
      (feed decode chunks).failure = none ∧
      List.Forall₂ (fun q packet => q.eq packet = .ok true) (feed decode chunks).items read ∧
      (∃ whole, encodeAll read [] = (.ok (), whole) ∧
        chunks.flatten = whole ++ (feed decode chunks).left) ∧
      Begun (feed decode chunks).left pending ∧ (chunks.flatten = bytes → pending = []) := by
  obtain ⟨frames, written, rfl⟩ := encodeAll_eq_ok sent
  exact feed_writes sendable written arrived

end

def cutPings : List (List UInt8) := [[0xC0], [0x00, 0xD0]]

theorem feed_encodeAll_pings : ∃ read pending,
    [MqttPacket.pingreq .mk, .pingresp .mk] = read ++ pending ∧
      (feed decode cutPings).failure = none ∧
      List.Forall₂ (fun q packet => q.eq packet = .ok true) (feed decode cutPings).items read ∧
      (∃ whole, @encodeAll development read [] = (.ok (), whole) ∧
        cutPings.flatten = whole ++ (feed decode cutPings).left) ∧
      @Begun development (feed decode cutPings).left pending ∧
      (cutPings.flatten = [0xC0, 0x00, 0xD0, 0x00] → pending = []) := by
  refine @feed_encodeAll development [.pingreq .mk, .pingresp .mk] ?_ [0xC0, 0x00, 0xD0, 0x00] rfl
    cutPings ⟨[0x00], rfl⟩
  intro packet member
  rcases List.mem_pair.mp member with rfl | rfl
  · exact @Sendable.mk development _ trivial (Nat.zero_le _)
  · exact @Sendable.mk development _ trivial (Nat.zero_le _)

/-! ### Room in the buffer -/

/-- Behind a complete length field, room is made for the whole frame. -/
theorem reserve_framed {header : UInt8} {field rest : List UInt8} (shape : VariableBytes field) :
    reserve (header :: (field ++ rest)) =
      if 1 + field.length + rest.length < totalLength field then
        some (totalLength field - (1 + field.length + rest.length))
      else none := by
  rw [reserve, decodeReserving_framed shape, apply_ite Prod.snd]

theorem length_le_of_incomplete {input : List UInt8} {needed : Nat}
    (run : parseVariableU32With true input = .error (.incomplete needed)) :
    needed = 1 ∧ input.length ≤ 3 := by
  rcases parseVariableU32With_eq_error run with same | ⟨failed, -⟩
  · refine ⟨ErrMode.incomplete.inj same, ?_⟩
    by_contra long
    match input with
    | a :: b :: c :: d :: rest =>
      simp only [parseVariableU32With, Parser.bind_apply, Parser.pure_apply, takeWhileUpTo,
        Parser.verify, u8With] at run
      cases first : continues a <;> cases second : continues b <;> cases third : continues c <;>
        cases fourth : continues d <;> simp_all
    | [] | [_] | [_, _] | [_, _, _] => simp at long
  · cases failed

theorem reserve_cases (src : List UInt8) :
    (∃ header field rest, src = header :: (field ++ rest) ∧ VariableBytes field) ∨
      (∃ n, reserve src = some n ∧ 0 < n ∧ src.length < 5 ∧ n ≤ 2 ∧
        ∀ more, more.length < n → decode (src ++ more) = (.ok none, src ++ more)) ∨
      reserve src = none ∧ (decode src).1 ≠ .ok none := by
  by_cases short : src.length < 2
  · refine .inr (.inl ⟨2 - src.length, congrArg Prod.snd (if_pos short), by omega, by omega,
      by omega, fun more fewer => ?_⟩)
    have still : (src ++ more).length < 2 := by
      rw [List.length_append]
      omega
    exact congrArg Prod.fst (if_pos still)
  obtain ⟨header, tail, rfl⟩ := List.exists_cons_of_length_pos (show 0 < src.length by omega)
  cases run : parseVariableU32With true tail with
  | ok pair =>
    obtain ⟨field, shape, rfl, -⟩ := parseVariableU32With_eq_ok.mp run
    exact .inl ⟨header, field, _, rfl, shape⟩
  | error e =>
    rcases parseVariableU32With_eq_error run with rfl | ⟨rfl, -⟩
    · have small := (length_le_of_incomplete run).2
      have asks : reserve (header :: tail) = some 1 :=
        congrArg Prod.snd (decodeReserving_incomplete short run)
      have waits : decode (header :: tail) = (.ok none, header :: tail) :=
        congrArg Prod.fst (decodeReserving_incomplete short run)
      refine .inr (.inl ⟨1, asks, Nat.one_pos, ?_, by omega, fun more fewer => ?_⟩)
      · rw [List.length_cons]
        omega
      · rw [List.length_eq_zero_iff.mp (show more.length = 0 by omega), List.append_nil, waits]
    · have failed := decodeReserving_backtrack short run
      refine .inr (.inr ⟨congrArg Prod.snd failed, ?_⟩)
      rw [show (decode (header :: tail)).1 = _ from congrArg (·.1.1) failed]
      simp

/-- The decoder makes room exactly when it waits, for no more than is missing:
no buffer grows beyond the longest frame, and from five bytes on it is all that
is missing. -/
theorem decode_reserve (src : List UInt8) :
    ((decode src).1 = .ok none ↔ (reserve src).isSome) ∧
      ∀ n, reserve src = some n → 0 < n ∧ src.length + n ≤ 268435460 ∧
        (∀ more, (decode (src ++ more)).1 ≠ .ok none → n ≤ more.length) ∧
        (5 ≤ src.length → ∀ more, more.length = n → (decode (src ++ more)).1 ≠ .ok none) := by
  rcases reserve_cases src with
    ⟨header, field, rest, rfl, shape⟩ | ⟨n, asks, positive, small, few, waits⟩ | ⟨none, decided⟩
  · have longer (more : List UInt8) :
        header :: (field ++ rest) ++ more = header :: (field ++ (rest ++ more)) := by simp
    have outcome (rest : List UInt8) : (decode (header :: (field ++ rest))).1 = .ok none ↔
        1 + field.length + rest.length < totalLength field := by
      rw [decode_framed shape]
      split
      next missing => exact iff_of_true rfl missing
      next whole => exact iff_of_false (by split <;> simp) whole
    have length : (header :: (field ++ rest)).length = 1 + field.length + rest.length := by
      simp only [List.length_cons, List.length_append]
      omega
    have bound := parseVariableU32_le (parseVariableU32_reads shape [])
    rw [toNat_variableU32Value shape.length.2] at bound
    have narrow := shape.width_le.trans shape.length.2
    rw [outcome, reserve_framed shape]
    simp only [longer, ne_eq, outcome, length, List.length_append]
    split
    next missing =>
      refine ⟨iff_of_true missing rfl, ?_⟩
      rintro n ⟨⟩
      rw [totalLength] at missing ⊢
      refine ⟨by omega, by omega, fun more whole => by omega, fun _ more all => by omega⟩
    next whole => simp [whole]
  · have nothing := waits [] positive
    rw [List.append_nil] at nothing
    rw [nothing, asks]
    refine ⟨iff_of_true rfl rfl, ?_⟩
    rintro _ ⟨⟩
    refine ⟨positive, by omega, fun more decided => ?_, fun long => by omega⟩
    by_contra fewer
    exact decided (by rw [waits more (by omega)])
  · rw [none]
    exact ⟨iff_of_false decided (by simp), by simp⟩

end MqttPacketCodec

end Client
