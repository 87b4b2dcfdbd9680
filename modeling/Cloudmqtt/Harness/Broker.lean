import Cloudmqtt.Base.Broadcast
import Cloudmqtt.Client.Stream

/-! The broker that the tests run against: for each connection a task that reads packets and
writes those it is asked to send, and another that records what was read.
-/

set_option autoImplicit false

namespace Harness

open Base Rust V5 Client

/-- The task on a connection; the recorder never ends. -/
inductive BrokerTask where
  | running
  | ended
  | unwound
  deriving DecidableEq

/-- With the tasks that hold the other ends of its channels: the buffer that packets are
decoded from, the queue of packets to send and the broadcast of those that were read. -/
structure ConnectionState where
  task : BrokerTask
  src : List UInt8
  packetSender : List MqttPacket
  packets : Broadcast MqttPacket
  receivedPackets : List MqttPacket

/-- A chunk of no bytes is the end of the stream. -/
inductive BrokerEvent where
  | read (chunk : List UInt8)
  | next
  | toSend (accepts : Bool)
  | dropped
  | record
  | send (packet : MqttPacket)

inductive BrokerOutput where
  | silent
  | wrote (bytes : List UInt8)
  | received (received : Received MqttPacket)
  | closed

namespace ConnectionState

def connect : ConnectionState := ⟨.running, [], [], .new 1 Nat.one_pos, []⟩

-- More is read only where the buffer holds no whole frame. At the end of the stream the
-- loop is left, whether bytes remain or not.
/-- `connection.next()`, up to the bytes that it waits for. -/
def read (self : ConnectionState) (chunk : List UInt8) : Option ConnectionState :=
  match self.task, MqttPacketCodec.decode self.src with
  | .running, (.ok none, _) =>
    if chunk.isEmpty then some { self with task := .ended }
    else some { self with src := self.src ++ chunk }
  | _, _ => none

-- The recorder holds a receiver, so that `sender.send` does not fail.
def next (self : ConnectionState) : Option ConnectionState :=
  match self.task, MqttPacketCodec.decode self.src with
  | .running, (.ok (some packet), src) =>
    some { self with src, packets := self.packets.send packet }
  | .running, (.error (.error _), src) => some { self with src, task := .ended }
  | .running, (.error (.panic _), src) => some { self with src, task := .unwound }
  | _, _ => none

/-- A packet to send; without the connection the task unwinds. -/
def toSend [Build] (self : ConnectionState) (accepts : Bool) :
    Option (BrokerOutput × ConnectionState) :=
  match self.task, self.packetSender with
  | .running, packet :: packetSender =>
    match MqttPacketCodec.encode packet [] with
    | (.ok (), bytes) =>
      if accepts then some (.wrote bytes, { self with packetSender })
      else some (.silent, { self with packetSender, task := .unwound })
    | _ => some (.silent, { self with packetSender, task := .unwound })
  | _, _ => none

def dropped (self : ConnectionState) : Option ConnectionState :=
  match self.task, self.packetSender with
  | .running, [] => some { self with task := .ended }
  | _, _ => none

-- The loop of the recorder goes on behind every error: once the task is gone it runs
-- without an end, and without anything to record.
def record (self : ConnectionState) : Option (BrokerOutput × ConnectionState) :=
  match self.packets.recv with
  | some (.value packet, packets) => some (.received (.value packet),
      { self with packets, receivedPackets := self.receivedPackets ++ [packet] })
  | some (.lagged missed, packets) => some (.received (.lagged missed), { self with packets })
  | none => if self.task = .running then none else some (.closed, self)

def send (self : ConnectionState) (packet : MqttPacket) : Option (Except Unit ConnectionState) :=
  if self.task ≠ .running then some (.error ())
  else if self.packetSender.length < 1 then
    some (.ok { self with packetSender := self.packetSender ++ [packet] })
  else none

end ConnectionState

inductive BrokerSteps [Build] (before : ConnectionState) :
    BrokerEvent → BrokerOutput → ConnectionState → Prop where
  | read {chunk : List UInt8} {after : ConnectionState} : before.read chunk = some after →
      BrokerSteps before (.read chunk) .silent after
  | next {after : ConnectionState} : before.next = some after →
      BrokerSteps before .next .silent after
  | toSend {accepts : Bool} {output : BrokerOutput} {after : ConnectionState} :
      before.toSend accepts = some (output, after) →
      BrokerSteps before (.toSend accepts) output after
  | dropped {after : ConnectionState} : before.dropped = some after →
      BrokerSteps before .dropped .silent after
  | record {output : BrokerOutput} {after : ConnectionState} :
      before.record = some (output, after) → BrokerSteps before .record output after
  | send {packet : MqttPacket} {after : ConnectionState} :
      before.send packet = some (.ok after) → BrokerSteps before (.send packet) .silent after

abbrev BrokerTrace : Type := List (Entry ConnectionState BrokerEvent BrokerOutput)

abbrev BrokerRuns [Build] : BrokerTrace → ConnectionState → Prop :=
  Run BrokerSteps .connect

abbrev BrokerEntry : Type := Entry ConnectionState BrokerEvent BrokerOutput

def arrived (entry : BrokerEntry) : List (List UInt8) :=
  match entry.input with
  | .read chunk => [chunk]
  | _ => []

def decoded (entry : BrokerEntry) : List MqttPacket :=
  match entry.input, MqttPacketCodec.decode entry.before.src with
  | .next, (.ok (some packet), _) => [packet]
  | _, _ => []

def warned (entry : BrokerEntry) : Nat :=
  match entry.output with
  | .received (.lagged missed) => missed
  | _ => 0

/-- No packet is read while another one has yet to be recorded. -/
def Prompt (entry : BrokerEntry) : Prop := decoded entry ≠ [] → entry.before.packets.HasRoom

/-! ### Steps -/

structure Quiet (before : ConnectionState) (entry : BrokerEntry) (after : ConnectionState) :
    Prop where
  packets : after.packets = before.packets
  receivedPackets : after.receivedPackets = before.receivedPackets
  decoded : decoded entry = []
  warned : warned entry = 0

inductive Stepped (before : ConnectionState) (entry : BrokerEntry) (after : ConnectionState) :
    Prop where
  | idle : Quiet before entry after → arrived entry = [] → after.task = before.task →
      after.src = before.src → Stepped before entry after
  | stopped : Quiet before entry after → after.task ≠ .running → Stepped before entry after
  | read (chunk : List UInt8) {left : List UInt8} : Quiet before entry after →
      before.task = .running → MqttPacketCodec.decode before.src = (.ok none, left) →
      arrived entry = [chunk] → after.src = before.src ++ chunk → Stepped before entry after
  | item (packet : MqttPacket) : before.task = .running →
      MqttPacketCodec.decode before.src = (.ok (some packet), after.src) → arrived entry = [] →
      decoded entry = [packet] → warned entry = 0 →
      after.packets = before.packets.send packet →
      after.receivedPackets = before.receivedPackets → Stepped before entry after
  | value (packet : MqttPacket) : arrived entry = [] → decoded entry = [] → warned entry = 0 →
      before.packets.recv = some (.value packet, after.packets) →
      after.receivedPackets = before.receivedPackets ++ [packet] → after.task = before.task →
      after.src = before.src → Stepped before entry after
  | lagged : arrived entry = [] → decoded entry = [] →
      before.packets.recv = some (.lagged (warned entry), after.packets) →
      after.receivedPackets = before.receivedPackets → after.task = before.task →
      after.src = before.src → Stepped before entry after

theorem ConnectionState.read_stepped {before after : ConnectionState} {chunk : List UInt8}
    (ran : before.read chunk = some after) :
    Stepped before ⟨before, .read chunk, .silent⟩ after := by
  unfold read at ran
  split at ran
  next running waits =>
    split at ran
    next =>
      cases ran
      exact .stopped ⟨rfl, rfl, rfl, rfl⟩ (by simp)
    next =>
      cases ran
      exact .read chunk ⟨rfl, rfl, rfl, rfl⟩ running waits rfl rfl
  next => cases ran

theorem ConnectionState.next_stepped {before after : ConnectionState}
    (ran : before.next = some after) : Stepped before ⟨before, .next, .silent⟩ after := by
  unfold next at ran
  split at ran
  next packet src running read =>
    cases ran
    exact .item packet running read rfl (by simp [decoded, read]) rfl rfl rfl
  next failed =>
    cases ran
    exact .stopped ⟨rfl, rfl, by simp [decoded, failed], rfl⟩ (by simp)
  next failed =>
    cases ran
    exact .stopped ⟨rfl, rfl, by simp [decoded, failed], rfl⟩ (by simp)
  next => cases ran

theorem ConnectionState.toSend_stepped [Build] {before after : ConnectionState} {accepts : Bool}
    {output : BrokerOutput} (ran : before.toSend accepts = some (output, after)) :
    Stepped before ⟨before, .toSend accepts, output⟩ after := by
  unfold toSend at ran
  split at ran
  next =>
    split at ran
    next =>
      split at ran
      next =>
        cases ran
        exact .idle ⟨rfl, rfl, rfl, rfl⟩ rfl rfl rfl
      next =>
        cases ran
        exact .stopped ⟨rfl, rfl, rfl, rfl⟩ (by simp)
    next =>
      cases ran
      exact .stopped ⟨rfl, rfl, rfl, rfl⟩ (by simp)
  next => cases ran

theorem ConnectionState.record_stepped {before after : ConnectionState} {output : BrokerOutput}
    (ran : before.record = some (output, after)) :
    Stepped before ⟨before, .record, output⟩ after := by
  unfold record at ran
  split at ran
  next packet packets taken =>
    cases ran
    exact .value packet rfl rfl rfl taken rfl rfl rfl
  next missed packets taken =>
    cases ran
    exact .lagged rfl rfl taken rfl rfl rfl
  next =>
    split at ran
    next => cases ran
    next =>
      cases ran
      exact .idle ⟨rfl, rfl, rfl, rfl⟩ rfl rfl rfl

theorem BrokerSteps.stepped [Build] {before after : ConnectionState} {event : BrokerEvent}
    {output : BrokerOutput} (step : BrokerSteps before event output after) :
    Stepped before ⟨before, event, output⟩ after := by
  cases step with
  | read ran => exact ConnectionState.read_stepped ran
  | next ran => exact ConnectionState.next_stepped ran
  | toSend ran => exact ConnectionState.toSend_stepped ran
  | dropped ran =>
    unfold ConnectionState.dropped at ran
    split at ran
    next =>
      cases ran
      exact .stopped ⟨rfl, rfl, rfl, rfl⟩ (by simp)
    next => cases ran
  | record ran => exact ConnectionState.record_stepped ran
  | send ran =>
    unfold ConnectionState.send at ran
    split at ran
    next => cases ran
    next =>
      split at ran
      next =>
        cases ran
        exact .idle ⟨rfl, rfl, rfl, rfl⟩ rfl rfl rfl
      next => cases ran

/-! ### What is recorded -/

theorem broadcast_of_runs [Build] {trace : BrokerTrace} {connection : ConnectionState}
    (run : BrokerRuns trace connection) : ∃ uses,
      Broadcast.Runs (.new 1 Nat.one_pos) uses connection.packets ∧
      uses.flatMap Broadcast.sent = trace.flatMap decoded ∧
      uses.flatMap Broadcast.taken = connection.receivedPackets ∧
      (uses.map Broadcast.told).sum = (trace.map warned).sum ∧
      (EveryStep (fun _ => Broadcast.Fits) uses ↔ EveryStep (fun _ => Prompt) trace) := by
  induction run with
  | done => exact ⟨[], .done, rfl, rfl, rfl, iff_of_true .nil .nil⟩
  | @next trace before after event output _ step ih =>
    obtain ⟨uses, run, sent, taken, told, fits⟩ := ih
    simp only [List.flatMap_append, List.flatMap_singleton, List.map_append, List.map_singleton,
      List.sum_append, List.sum_singleton, everyStep_snoc]
    -- a step that the broadcast has no part in
    have quietly (quiet : Quiet before ⟨before, event, output⟩ after) : ∃ uses,
        Broadcast.Runs (.new 1 Nat.one_pos) uses after.packets ∧
        uses.flatMap Broadcast.sent =
          trace.flatMap decoded ++ decoded ⟨before, event, output⟩ ∧
        uses.flatMap Broadcast.taken = after.receivedPackets ∧
        (uses.map Broadcast.told).sum =
          (trace.map warned).sum + warned ⟨before, event, output⟩ ∧
        (EveryStep (fun _ => Broadcast.Fits) uses ↔
          EveryStep (fun _ => Prompt) trace ∧ Prompt ⟨before, event, output⟩) := by
      refine ⟨uses, quiet.packets ▸ run, ?_, ?_, ?_, ?_⟩
      · rw [quiet.decoded, List.append_nil, sent]
      · rw [quiet.receivedPackets, taken]
      · rw [quiet.warned, told, Nat.add_zero]
      · rw [fits]
        exact (and_iff_left fun some => absurd quiet.decoded some).symm
    cases step.stepped with
    | idle quiet => exact quietly quiet
    | stopped quiet => exact quietly quiet
    | read chunk quiet => exact quietly quiet
    | item packet _ _ _ read unwarned packets received =>
      refine ⟨uses ++ [⟨before.packets, .send packet, none⟩], ?_, ?_, ?_, ?_, ?_⟩
      · rw [packets]
        exact .next run (.send packet)
      · simp [Broadcast.sent, sent, read]
      · simp [Broadcast.taken, taken, received]
      · simp [Broadcast.told, told, unwarned]
      · rw [everyStep_snoc, fits]
        refine and_congr_right fun _ => ⟨fun room _ => room packet rfl, fun prompt _ _ => ?_⟩
        exact prompt (by simp [read])
    | value packet _ none unwarned recv received =>
      refine ⟨uses ++ [⟨before.packets, .recv, some (.value packet)⟩], .next run (.recv recv),
        ?_, ?_, ?_, ?_⟩
      · simp [Broadcast.sent, sent, none]
      · simp [Broadcast.taken, taken, received]
      · simp [Broadcast.told, told, unwarned]
      · rw [everyStep_snoc, fits]
        exact and_congr_right fun _ => iff_of_true (fun _ same => by cases same)
          fun some => absurd none some
    | lagged _ none recv received =>
      refine ⟨uses ++ [⟨before.packets, .recv, some (.lagged _)⟩], .next run (.recv recv),
        ?_, ?_, ?_, ?_⟩
      · simp [Broadcast.sent, sent, none]
      · simp [Broadcast.taken, taken, received]
      · simp [Broadcast.told, told]
      · rw [everyStep_snoc, fits]
        exact and_congr_right fun _ => iff_of_true (fun _ same => by cases same)
          fun some => absurd none some

/-! ### What is read -/

/-- The packets read so far are the first of the stream. While the task runs, those that
its buffer still holds follow. -/
structure Reads (trace : BrokerTrace) (connection : ConnectionState) : Prop where
  front : trace.flatMap decoded <+:
    (feed MqttPacketCodec.decode (trace.flatMap arrived)).items
  running : connection.task = .running →
    (Polled.andThen ⟨trace.flatMap decoded, none, []⟩
      (poll MqttPacketCodec.decode connection.src)).Agrees
      (feed MqttPacketCodec.decode (trace.flatMap arrived))

theorem Reads.step {trace : BrokerTrace} {before after : ConnectionState} {entry : BrokerEntry}
    (reads : Reads trace before) (stepped : Stepped before entry after) :
    Reads (trace ++ [entry]) after := by
  have incremental := MqttPacketCodec.decode_incremental
  -- a step that reads no bytes and no packet
  have silently (noBytes : arrived entry = []) (noPacket : decoded entry = [])
      (task : after.task = before.task) (src : after.src = before.src) :
      Reads (trace ++ [entry]) after := by
    constructor
    · simpa [noBytes, noPacket] using reads.front
    · rw [task, src]
      simpa [noBytes, noPacket] using reads.running
  cases stepped with
  | idle quiet noBytes task src => exact silently noBytes quiet.decoded task src
  | stopped quiet ended =>
    refine ⟨?_, fun running => absurd running ended⟩
    rw [List.flatMap_append, List.flatMap_singleton, quiet.decoded, List.append_nil,
      List.flatMap_append]
    exact reads.front.trans (feed_items_front _ _ _)
  | read chunk quiet running waits bytes src =>
    have agrees := reads.running running
    rw [incremental.poll_of_wait waits] at agrees
    have fed := agrees.eq agrees.failure.symm
    have chunks : (trace ++ [entry]).flatMap arrived = trace.flatMap arrived ++ [chunk] := by
      simp [bytes]
    have packets : (trace ++ [entry]).flatMap decoded = trace.flatMap decoded := by
      simp [quiet.decoded]
    constructor
    · rw [packets, chunks]
      exact reads.front.trans (feed_items_front _ _ _)
    · intro _
      rw [packets, chunks, src, feed_concat, ← fed]
      exact ⟨by simp [push, Polled.andThen], rfl, fun _ => rfl⟩
  | item packet running read noBytes read' =>
    have agrees := reads.running running
    rw [incremental.poll_of_item read] at agrees
    have chunks : (trace ++ [entry]).flatMap arrived = trace.flatMap arrived := by
      simp [noBytes]
    have packets : (trace ++ [entry]).flatMap decoded = trace.flatMap decoded ++ [packet] := by
      simp [read']
    have items : trace.flatMap decoded ++ packet :: (poll _ after.src).items = _ := agrees.items
    rw [List.append_cons] at items
    constructor
    · rw [packets, chunks, ← items]
      exact List.prefix_append _ _
    · intro _
      rw [packets, chunks]
      exact ⟨items, agrees.failure, agrees.left⟩
  | value packet noBytes noPacket _ _ _ task src => exact silently noBytes noPacket task src
  | lagged noBytes noPacket _ _ task src => exact silently noBytes noPacket task src

theorem stream_of_runs [Build] {trace : BrokerTrace} {connection : ConnectionState}
    (run : BrokerRuns trace connection) : Reads trace connection := by
  induction run with
  | done =>
    have incremental := MqttPacketCodec.decode_incremental
    refine ⟨List.prefix_rfl, fun _ => ?_⟩
    rw [ConnectionState.connect, incremental.poll_of_wait incremental.empty]
    exact ⟨rfl, rfl, fun _ => rfl⟩
  | next _ step ih => exact ih.step step.stepped

/-- The task runs, and neither the buffer nor the broadcast holds a packet. -/
structure ConnectionState.Settled (connection : ConnectionState) : Prop where
  running : connection.task = .running
  waits : MqttPacketCodec.decode connection.src = (.ok none, connection.src)
  taken : connection.packets.recv = none

theorem ConnectionState.Settled.decoded [Build] {trace : BrokerTrace}
    {connection : ConnectionState} (settled : connection.Settled)
    (run : BrokerRuns trace connection) :
    (feed MqttPacketCodec.decode (trace.flatMap arrived)).items = trace.flatMap decoded := by
  have agrees := (stream_of_runs run).running settled.running
  rw [MqttPacketCodec.decode_incremental.poll_of_wait settled.waits] at agrees
  rw [← agrees.items]
  exact List.append_nil _

section

variable [Build] {trace : BrokerTrace} {connection : ConnectionState}

theorem receivedPackets_sublist (run : BrokerRuns trace connection) :
    connection.receivedPackets.Sublist
      (feed MqttPacketCodec.decode (trace.flatMap arrived)).items := by
  obtain ⟨uses, used, sent, taken, -, -⟩ := broadcast_of_runs run
  have ordered := Broadcast.sublist_of_runs used
  rw [taken, sent] at ordered
  exact ((List.sublist_append_left _ _).trans ordered).trans (stream_of_runs run).front.sublist

theorem receivedPackets_eq_iff (run : BrokerRuns trace connection) (settled : connection.Settled) :
    connection.receivedPackets = (feed MqttPacketCodec.decode (trace.flatMap arrived)).items ↔
      EveryStep (fun _ => Prompt) trace := by
  obtain ⟨uses, used, sent, taken, -, fits⟩ := broadcast_of_runs run
  have fit := Broadcast.complete_iff_fits used
  rw [sent, taken, (Broadcast.recv_eq_none_iff.mp settled.taken).1, List.append_nil] at fit
  rw [settled.decoded run, eq_comm, fit, fits]

/-- Whatever the order of the tasks and however the bytes come: what is recorded are
packets of the stream, in its order. Once nothing is left to do it is all of them exactly
when no packet was read while another one had yet to be recorded, which is when the
recorder warned of no loss. -/
theorem receivedPackets_of_runs (run : BrokerRuns trace connection) :
    connection.receivedPackets.Sublist
        (feed MqttPacketCodec.decode (trace.flatMap arrived)).items ∧
      (connection.Settled →
        (connection.receivedPackets =
          (feed MqttPacketCodec.decode (trace.flatMap arrived)).items ↔
            EveryStep (fun _ => Prompt) trace) ∧
        (connection.receivedPackets =
          (feed MqttPacketCodec.decode (trace.flatMap arrived)).items ↔
            ∀ entry ∈ trace, warned entry = 0)) := by
  refine ⟨receivedPackets_sublist run, fun settled => ⟨receivedPackets_eq_iff run settled, ?_⟩⟩
  obtain ⟨uses, used, sent, taken, told, -⟩ := broadcast_of_runs run
  obtain ⟨empty, none⟩ := Broadcast.recv_eq_none_iff.mp settled.taken
  have counted := Broadcast.complete_iff_told used
  rw [sent, taken, empty, List.append_nil, none, told, Nat.add_zero, List.sum_eq_zero_iff,
    List.forall_mem_map] at counted
  rw [settled.decoded run, eq_comm, counted]

end

section

attribute [local instance] development

def hasty : List BrokerEvent := [.read [0xC0, 0x00, 0xC0, 0x00], .next, .next, .record, .record]

theorem receivedPackets_of_runs_hasty : ∃ trace connection, BrokerRuns trace connection ∧
    trace.map (·.input) = hasty ∧ connection.Settled ∧
    connection.receivedPackets.Sublist
        (feed MqttPacketCodec.decode (trace.flatMap arrived)).items ∧
      (connection.Settled →
        (connection.receivedPackets =
          (feed MqttPacketCodec.decode (trace.flatMap arrived)).items ↔
            EveryStep (fun _ => Prompt) trace) ∧
        (connection.receivedPackets =
          (feed MqttPacketCodec.decode (trace.flatMap arrived)).items ↔
            ∀ entry ∈ trace, warned entry = 0)) := by
  have chunk : BrokerSteps .connect (.read [0xC0, 0x00, 0xC0, 0x00]) .silent _ := .read rfl
  have twice : BrokerRuns _ _ := .next (.next (.next .done chunk) (.next rfl)) (.next rfl)
  have told : BrokerRuns _ _ := .next twice (.record rfl)
  have run : BrokerRuns _ _ := .next told (.record rfl)
  exact ⟨_, _, run, rfl, ⟨rfl, rfl, rfl⟩, receivedPackets_of_runs run⟩

end

end Harness
