import Cloudmqtt.Base.Drain
import Cloudmqtt.V3.Strings

/-! The lists in SUBSCRIBE, UNSUBSCRIBE and SUBACK bodies.

A list of requests is kept as a count and the bytes it was read from, and read
again by an iterator.
-/

set_option autoImplicit false

namespace V3

open Base Rust

/-! ### Subscription requests -/

structure MSubscriptionRequest where
  topic : MString
  qos : MQualityOfService
  deriving DecidableEq

def msubscriptionrequest : MParser MSubscriptionRequest := do
  let topic ← mstring
  let qos ← mapRes u8 mqualityOfService
  pure ⟨topic, qos⟩

structure MSubscriptionRequests where
  count : Nat
  data : List UInt8
  deriving DecidableEq

def MSubscriptionRequests.writeTo (self : MSubscriptionRequests) : Write := writeAll self.data

def MSubscriptionRequests.getLen (self : MSubscriptionRequests) : Nat := self.data.length

-- `data` is all of the input, also what is left behind the counted requests.
def msubscriptionrequests : MParser MSubscriptionRequests := fun input =>
  (do let count ← many1Count msubscriptionrequest
      pure ⟨count, input⟩ : MParser MSubscriptionRequests) input

/-! ### Unsubscription requests -/

structure MUnsubscriptionRequest where
  topic : MString
  deriving DecidableEq

def munsubscriptionrequest : MParser MUnsubscriptionRequest := MUnsubscriptionRequest.mk <$> mstring

structure MUnsubscriptionRequests where
  count : Nat
  data : List UInt8
  deriving DecidableEq

def munsubscriptionrequests : MParser MUnsubscriptionRequests := fun input =>
  (do let count ← many1Count munsubscriptionrequest
      pure ⟨count, input⟩ : MParser MUnsubscriptionRequests) input

/-! ### Iterators over requests -/

/-- The fields of `MSubscriptionIter` and of `MUnsubscriptionIter`. -/
structure RequestIter where
  count : Nat
  data : List UInt8

def RequestIter.next {α : Type} (parse : MParser α) : Next Panic RequestIter α := fun self =>
  if self.count = 0 then .ok none
  else
    match parse self.data with
    | .ok (request, rest) => .ok (some (request, ⟨self.count - 1, rest⟩))
    | .error _ => .error .unreachable

def MSubscriptionRequests.intoIter (self : MSubscriptionRequests) : RequestIter :=
  ⟨self.count, self.data⟩

def MSubscriptionIter.next : Next Panic RequestIter MSubscriptionRequest :=
  RequestIter.next msubscriptionrequest

def MUnsubscriptionRequests.intoIter (self : MUnsubscriptionRequests) : RequestIter :=
  ⟨self.count, self.data⟩

def MUnsubscriptionIter.next : Next Panic RequestIter MUnsubscriptionRequest :=
  RequestIter.next munsubscriptionrequest

/-! ### Subscription acknowledgements -/

inductive MSubscriptionAck where
  | maximumQualityAtMostOnce
  | maximumQualityAtLeastOnce
  | maximumQualityExactlyOnce
  | failure
  deriving DecidableEq, Repr

def MSubscriptionAck.toByte : MSubscriptionAck → UInt8
  | maximumQualityAtMostOnce => 0x00
  | maximumQualityAtLeastOnce => 0x01
  | maximumQualityExactlyOnce => 0x02
  | failure => 0x80

/-- The `match` of `msubscriptionack`, and the bit patterns that a cast accepts. -/
def MSubscriptionAck.ofByte : UInt8 → Option MSubscriptionAck
  | 0x00 => some maximumQualityAtMostOnce
  | 0x01 => some maximumQualityAtLeastOnce
  | 0x02 => some maximumQualityExactlyOnce
  | 0x80 => some failure
  | _ => none

def msubscriptionack : MParser MSubscriptionAck := do
  let data ← u8
  orRefuse (MSubscriptionAck.ofByte data)

structure MSubscriptionAcks where
  acks : List MSubscriptionAck
  deriving DecidableEq

def MSubscriptionAcks.bytes (self : MSubscriptionAcks) : List UInt8 :=
  self.acks.flatMap fun ack => [ack.toByte]

def MSubscriptionAcks.writeTo (self : MSubscriptionAcks) : Write := writeAll self.bytes

-- Not the number of the acknowledgements.
def MSubscriptionAcks.getLen (_self : MSubscriptionAcks) : Nat := 1

/-- `bytemuck::checked::cast_slice`, which panics on any other bit pattern. -/
def castSlice (bytes : List UInt8) : Except Panic (List MSubscriptionAck) :=
  match bytes.mapM MSubscriptionAck.ofByte with
  | some acks => .ok acks
  | none => .error (.explicit "cast_slice")

def msubscriptionacks : MParser MSubscriptionAcks := do
  let acks ← Parser.recognize (many1Count msubscriptionack)
  let acks ← liftPanic (castSlice acks)
  pure ⟨acks⟩

/-! ### What is read -/

def MSubscriptionRequest.bytes (self : MSubscriptionRequest) : List UInt8 :=
  self.topic.bytes ++ [self.qos.toByte]

theorem msubscriptionrequest_canonical :
    msubscriptionrequest.Canonical (·.topic.Readable) MSubscriptionRequest.bytes := by
  intro input rest r
  simp only [msubscriptionrequest, Parser.bind_eq_ok, mapRes_eq_ok, u8_eq_ok,
    mqualityOfService_eq_some]
  constructor
  · rintro ⟨topic, _, read, qos, _, ⟨_, rfl, rfl⟩, same⟩
    obtain ⟨rfl, rfl⟩ := Prod.mk.inj (Except.ok.inj same)
    obtain ⟨ok, rfl⟩ := (mstring_canonical _ _ _).mp read
    refine ⟨ok, ?_⟩
    rw [MSubscriptionRequest.bytes, List.append_assoc]
    rfl
  · rintro ⟨ok, rfl⟩
    refine ⟨r.topic, _, ?_, r.qos, _, ⟨_, rfl, rfl⟩, rfl⟩
    apply (mstring_canonical _ _ _).mpr
    exact ⟨ok, List.append_assoc _ _ _⟩

theorem msubscriptionrequest_shrinks : msubscriptionrequest.Shrinks :=
  msubscriptionrequest_canonical.shrinks fun _ _ => by simp [MSubscriptionRequest.bytes]

theorem munsubscriptionrequest_canonical :
    munsubscriptionrequest.Canonical (·.topic.Readable) (·.topic.bytes) := by
  intro input rest r
  simp only [munsubscriptionrequest, Parser.map_eq_ok, mstring_canonical _ _ _]
  constructor
  · rintro ⟨topic, ⟨ok, rfl⟩, rfl⟩
    exact ⟨ok, rfl⟩
  · rintro ⟨ok, rfl⟩
    exact ⟨r.topic, ⟨ok, rfl⟩, rfl⟩

theorem munsubscriptionrequest_shrinks : munsubscriptionrequest.Shrinks :=
  munsubscriptionrequest_canonical.shrinks fun r _ => r.topic.bytes_ne_nil

theorem MSubscriptionAck.ofByte_eq_some {b : UInt8} {ack : MSubscriptionAck} :
    ofByte b = some ack ↔ b = ack.toByte := by
  apply tryFrom_eq_some_of_forall
  · decide +kernel
  · intro ack
    cases ack <;> rfl

theorem msubscriptionack_canonical :
    msubscriptionack.Canonical (fun _ => True) fun ack => [ack.toByte] := by
  intro input rest ack
  simp only [msubscriptionack, Parser.bind_eq_ok, u8_eq_ok, orRefuse_eq_ok,
    MSubscriptionAck.ofByte_eq_some]
  constructor
  · rintro ⟨_, _, rfl, rfl, rfl⟩
    exact ⟨trivial, rfl⟩
  · rintro ⟨-, rfl⟩
    exact ⟨ack.toByte, rest, rfl, rfl, rfl⟩

theorem msubscriptionack_shrinks : msubscriptionack.Shrinks :=
  msubscriptionack_canonical.shrinks fun _ _ => by simp

theorem castSlice_bytes (acks : List MSubscriptionAck) :
    castSlice (acks.flatMap fun ack => [ack.toByte]) = .ok acks := by
  have patterns : (acks.flatMap fun ack => [ack.toByte]).mapM MSubscriptionAck.ofByte =
      some acks := by
    induction acks with
    | nil => rfl
    | cons ack acks ih =>
      rw [List.flatMap_cons, List.singleton_append, List.mapM_cons, ih,
        MSubscriptionAck.ofByte_eq_some.mpr rfl]
      rfl
  rw [castSlice, patterns]

theorem msubscriptionrequests_eq_ok {input left : List UInt8} {requests : MSubscriptionRequests}
    (run : msubscriptionrequests input = .ok (requests, left)) :
    requests.data = input ∧ ∃ items,
      msubscriptionrequest.Greedy recoverable requests.data items left ∧ items ≠ [] ∧
        requests.count = items.length := by
  obtain ⟨count, _, counted, same⟩ := Parser.bind_eq_ok.mp run
  obtain ⟨rfl, rfl⟩ := Prod.mk.inj (Except.ok.inj same)
  exact ⟨rfl, many1Count_eq_ok counted⟩

theorem munsubscriptionrequests_eq_ok {input left : List UInt8}
    {requests : MUnsubscriptionRequests}
    (run : munsubscriptionrequests input = .ok (requests, left)) :
    requests.data = input ∧ ∃ items,
      munsubscriptionrequest.Greedy recoverable requests.data items left ∧ items ≠ [] ∧
        requests.count = items.length := by
  obtain ⟨count, _, counted, same⟩ := Parser.bind_eq_ok.mp run
  obtain ⟨rfl, rfl⟩ := Prod.mk.inj (Except.ok.inj same)
  exact ⟨rfl, many1Count_eq_ok counted⟩

theorem recognize_acks {input left slice : List UInt8}
    (run : Parser.recognize (many1Count msubscriptionack) input = .ok (slice, left)) :
    ∃ acks, msubscriptionack.Greedy recoverable input acks left ∧
      castSlice slice = .ok acks := by
  unfold Parser.recognize at run
  split at run
  next n rest counted =>
    obtain ⟨rfl, rfl⟩ := Prod.mk.inj (Except.ok.inj run)
    obtain ⟨acks, greedy, -⟩ := many1Count_eq_ok counted
    obtain ⟨-, split⟩ := greedy.split msubscriptionack_canonical
    refine ⟨acks, greedy, ?_⟩
    have width : input.length - rest.length = (acks.flatMap fun ack => [ack.toByte]).length := by
      rw [split, List.length_append]
      omega
    rw [width]
    nth_rewrite 1 [split]
    rw [List.take_left, castSlice_bytes]
  next => cases run

theorem msubscriptionacks_eq_ok {input left : List UInt8} {acks : MSubscriptionAcks}
    (run : msubscriptionacks input = .ok (acks, left)) :
    msubscriptionack.Greedy recoverable input acks.acks left := by
  obtain ⟨slice, _, recognized, run⟩ := Parser.bind_eq_ok.mp run
  obtain ⟨found, _, lifted, same⟩ := Parser.bind_eq_ok.mp run
  obtain ⟨rfl, rfl⟩ := Prod.mk.inj (Except.ok.inj same)
  obtain ⟨cast, -⟩ := liftPanic_eq_ok.mp lifted
  obtain ⟨acks, greedy, counted⟩ := recognize_acks recognized
  obtain rfl := Except.ok.inj (cast.symm.trans counted)
  obtain ⟨-, rfl⟩ := liftPanic_eq_ok.mp lifted
  exact greedy

/-! ### Errors -/

theorem msubscriptionrequest_quiet : Quiet msubscriptionrequest :=
  mstring_quiet.bind fun _ => (Quiet.u8.mapRes _).bind fun _ => .pure _

theorem munsubscriptionrequest_quiet : Quiet munsubscriptionrequest := mstring_quiet.map _

theorem msubscriptionack_quiet : Quiet msubscriptionack := Quiet.u8.bind fun _ => .orRefuse _

theorem msubscriptionrequests_quiet : Quiet msubscriptionrequests := fun input =>
  ((Quiet.many1Count msubscriptionrequest_quiet msubscriptionrequest_shrinks).bind fun _ =>
    .pure _) input

theorem munsubscriptionrequests_quiet : Quiet munsubscriptionrequests := fun input =>
  ((Quiet.many1Count munsubscriptionrequest_quiet munsubscriptionrequest_shrinks).bind fun _ =>
    .pure _) input

theorem msubscriptionacks_quiet : Quiet msubscriptionacks := by
  intro input
  apply QuietAt.bind
  · apply Quiet.recognize
    exact Quiet.many1Count msubscriptionack_quiet msubscriptionack_shrinks
  · intro slice left recognized
    obtain ⟨acks, -, cast⟩ := recognize_acks recognized
    apply (quietAt_liftPanic cast left).bind
    intro found rest _
    exact Quiet.pure _ rest

/-! ### Iteration -/

-- Induction on the items; each call meets the bytes that the count stood at.
/-- The iterator gives the items that were counted, and then ends. -/
theorem yields_of_greedy {α : Type} {parse : MParser α} {data left : List UInt8} {items : List α}
    (greedy : parse.Greedy recoverable data items left) :
    Yields (RequestIter.next parse) ⟨items.length, data⟩ items := by
  induction greedy with
  | stop => exact .done rfl
  | @item input rest left a items read _ ih =>
    apply Yields.item _ ih
    simp [RequestIter.next, read]

end V3
