import Cloudmqtt.V3.Complete

/-! No input makes the parser unwind or run on, and what it accepts can be iterated. -/

set_option autoImplicit false

namespace V3

open Base Rust

/-! ### The header -/

theorem mpacketkind_quiet : Quiet mpacketkind :=
  (Quiet.bits _).bind fun _ => .orRefuse _

/-- No more bytes are decoded than a `u32` has room for. -/
theorem mfixedheader_quiet [Build] : Quiet mfixedheader := by
  apply mpacketkind_quiet.bind
  intro kind input
  apply QuietAt.bind
  · exact (Quiet.u8.bind fun _ => .takeWhileUpTo 3 _).recognize input
  · intro bytes rest recognized
    have decoded : decodeVariableLength bytes = .ok (V5.variableU32Value bytes) := by
      cases input with
      | nil => cases recognized
      | cons b more =>
        rw [recognize_length] at recognized
        obtain ⟨rfl, -⟩ := Prod.mk.inj (Except.ok.inj recognized)
        exact decode_recognized b more
    apply (quietAt_liftPanic decoded rest).bind
    intro length rest' _
    exact Quiet.pure _ rest'

/-! ### The bodies -/

theorem mpayload_quiet : Quiet mpayload := Quiet.beU16.bind fun u => .take u.toNat

theorem mlastwill_quiet (flags : ConnectFlags) : Quiet (mlastwill flags) :=
  mstring_quiet.bind fun _ => mpayload_quiet.bind fun _ => (Quiet.orRefuse _).bind fun _ => .pure _

theorem mconnect_quiet : Quiet mconnect := by
  apply mstring_quiet.bind
  intro name
  apply (Quiet.ensure _).bind
  intro _
  apply Quiet.u8.bind
  intro level
  apply (Quiet.ensure _).bind
  intro _
  apply (Quiet.bits _).bind
  intro flags
  apply (Quiet.ensure _).bind
  intro _
  apply (Quiet.ensure _).bind
  intro _
  apply Quiet.beU16.bind
  intro keepAlive
  apply mstring_quiet.bind
  intro clientId
  apply (Quiet.whenFlag _ (mlastwill_quiet flags)).bind
  intro will
  apply (Quiet.whenFlag _ mstring_quiet).bind
  intro username
  apply (Quiet.whenFlag _ mpayload_quiet).bind
  intro password
  exact Quiet.pure _

theorem mconnack_quiet : Quiet mconnack := by
  apply (Quiet.bits _).bind
  intro flags
  apply (Quiet.ensure _).bind
  intro _
  apply (Quiet.u8.bind fun _ => Quiet.orRefuse _).bind
  intro code
  exact Quiet.pure _

section

variable [Build] [Target]

-- What is left behind the variable header is part of what stood before it, so the
-- difference of their lengths does not underflow.
theorem mpublish_quiet (dup : Bool) (qos : MQualityOfService) (retain : Bool)
    (remainingLength : UInt32) : Quiet (mpublish dup qos retain remainingLength) := by
  intro input
  apply (Quiet.unread input).bind
  intro start _ started
  obtain ⟨rfl, rfl⟩ := Prod.mk.inj (Except.ok.inj started)
  apply (mstring_quiet _).bind
  intro topic _ topicRead
  apply (Quiet.whenFlag _ mpacketidentifier_quiet _).bind
  intro id behind idRead
  apply (Quiet.ensure _ _).bind
  intro _ _ ensured
  obtain ⟨-, rfl⟩ := ensure_eq_ok.mp ensured
  apply (Quiet.unread _).bind
  intro stop _ stopped
  obtain ⟨rfl, rfl⟩ := Prod.mk.inj (Except.ok.inj stopped)
  apply (quietAt_liftPanic (if_pos (variableHeader_le topicRead idRead)) _).bind
  intro headerLen rest _
  apply (Quiet.orRefuse _ rest).bind
  intro payloadLength rest _
  apply (Quiet.take _ rest).bind
  intro payload rest _
  exact Quiet.pure _ rest

theorem mpacketdata_quiet (header : MPacketHeader) : Quiet (mpacketdata header) := by
  obtain ⟨kind, remainingLength⟩ := header
  cases kind with
  | connect => exact mconnect_quiet.map _
  | connack => exact mconnack_quiet.map _
  | publish dup qos retain => exact (mpublish_quiet dup qos retain remainingLength).map _
  | puback | pubrec | pubrel | pubcomp | unsuback => exact mpacketidentifier_quiet.map _
  | subscribe =>
    exact mpacketidentifier_quiet.bind fun _ => msubscriptionrequests_quiet.bind fun _ => .pure _
  | unsubscribe =>
    exact mpacketidentifier_quiet.bind fun _ => munsubscriptionrequests_quiet.bind fun _ => .pure _
  | suback =>
    exact mpacketidentifier_quiet.bind fun _ => msubscriptionacks_quiet.bind fun _ => .pure _
  | pingreq | pingresp | disconnect => exact Quiet.pure _

theorem mpacket_quiet : Quiet mpacket := by
  apply mfixedheader_quiet.bind
  intro header
  exact (Quiet.take _).andThen (mpacketdata_quiet header)

end

/-! ### What was accepted -/

structure Iterates {α : Type} (parse : MParser α) (next : Next Panic RequestIter α)
    (iter : RequestIter) (items : List α) : Prop where
  counted : ∃ left, many1Count parse iter.data = .ok (iter.count, left) ∧
    parse.Greedy recoverable iter.data items left
  number : iter.count = items.length
  yields : Yields next iter items

/-- The requests of an accepted packet can be iterated. -/
def Iterable (packet : MPacket) : Prop :=
  match packet with
  | .subscribe packet => ∃ items, Iterates msubscriptionrequest MSubscriptionIter.next
      packet.subscriptions.intoIter items
  | .unsubscribe packet => ∃ items, Iterates munsubscriptionrequest MUnsubscriptionIter.next
      packet.unsubscriptions.intoIter items
  | _ => True

theorem iterates_of_counted {α : Type} {parse : MParser α} {count : Nat}
    {data left : List UInt8} (counted : many1Count parse data = .ok (count, left)) :
    ∃ items, Iterates parse (RequestIter.next parse) ⟨count, data⟩ items := by
  obtain ⟨items, greedy, -, rfl⟩ := many1Count_eq_ok counted
  exact ⟨items, ⟨left, counted, greedy⟩, rfl, yields_of_greedy greedy⟩

section

variable [Build] [Target]

theorem iterable_of_mpacketdata {header : MPacketHeader} {body left : List UInt8}
    {packet : MPacket} (run : mpacketdata header body = .ok (packet, left)) : Iterable packet := by
  obtain ⟨kind, remainingLength⟩ := header
  cases kind with
  | subscribe =>
    obtain ⟨id, tail, requests, -, read, rfl⟩ :=
      identified_eq_ok (fun id requests => .subscribe ⟨id, requests⟩) run
    obtain ⟨count, _, counted, same⟩ := Parser.bind_eq_ok.mp read
    obtain ⟨rfl, -⟩ := Prod.mk.inj (Except.ok.inj same)
    exact iterates_of_counted counted
  | unsubscribe =>
    obtain ⟨id, tail, requests, -, read, rfl⟩ :=
      identified_eq_ok (fun id requests => .unsubscribe ⟨id, requests⟩) run
    obtain ⟨count, _, counted, same⟩ := Parser.bind_eq_ok.mp read
    obtain ⟨rfl, -⟩ := Prod.mk.inj (Except.ok.inj same)
    exact iterates_of_counted counted
  | suback =>
    obtain ⟨id, tail, acks, -, -, rfl⟩ :=
      identified_eq_ok (fun id acks => .suback ⟨id, acks⟩) run
    exact trivial
  | pingreq | pingresp | disconnect =>
    obtain ⟨rfl, -⟩ := Prod.mk.inj (Except.ok.inj run)
    exact trivial
  | connect | connack | publish | puback | pubrec | pubrel | pubcomp | unsuback =>
    obtain ⟨_, -, rfl⟩ := Parser.map_eq_ok.mp run
    exact trivial

/-- Any bytes are accepted or refused with an error, and the requests of what is
accepted are iterated without a panic: as many as were counted, and the same ones. -/
theorem mpacket_safe (input : List UInt8) :
    (∃ packet rest, mpacket input = .ok (packet, rest) ∧ Iterable packet) ∨
      ∃ e, mpacket input = .error (.err e) := by
  cases run : mpacket input with
  | error fault =>
    obtain ⟨e, rfl⟩ := mpacket_quiet input fault run
    exact .inr ⟨e, rfl⟩
  | ok pair =>
    obtain ⟨header, after, -, inner⟩ := Parser.bind_eq_ok.mp run
    obtain ⟨body, left, -, parsed⟩ := andThen_eq_ok.mp inner
    exact .inl ⟨pair.1, pair.2, rfl, iterable_of_mpacketdata parsed⟩

end

end V3
