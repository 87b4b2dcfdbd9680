import Cloudmqtt.Core.Order

/-! A publisher that is called until it is finished. -/

set_option autoImplicit false

namespace Core

open Base Rust V5

/-- Call a helper at the times, up to its first call that returns `None`. There is
no result where the times run out first. -/
def driveUntilNone {η : Type}
    (run : η → MqttInstant → Except Panic (Option ExpectedAction × η)) :
    η → List MqttInstant → Except Panic (Option (List ExpectedAction × η))
  | _, [] => .ok none
  | self, currentTime :: times => do
    let (action, self) ← run self currentTime
    match action with
    | none => pure (some ([], self))
    | some action =>
      let driven ← driveUntilNone run self times
      pure (driven.map fun (actions, self) => (action :: actions, self))

section

variable {η : Type} {run : η → MqttInstant → Except Panic (Option ExpectedAction × η)}
  {helper next : η} {currentTime : MqttInstant} {times : List MqttInstant}

theorem driveUntilNone_none (first : run helper currentTime = .ok (none, next)) :
    driveUntilNone run helper (currentTime :: times) = .ok (some ([], next)) := by
  rw [driveUntilNone, first]
  rfl

theorem driveUntilNone_some {action : ExpectedAction}
    (first : run helper currentTime = .ok (some action, next)) :
    driveUntilNone run helper (currentTime :: times) =
      (driveUntilNone run next times).map (Option.map fun (actions, self) =>
        (action :: actions, self)) := by
  rw [driveUntilNone, first]
  rfl

theorem driveUntilNone_error {p : Panic} (first : run helper currentTime = .error p) :
    driveUntilNone run helper (currentTime :: times) = .error p := by
  rw [driveUntilNone, first]
  rfl

end

/-! ### The calls of a publisher -/

section

variable {σ : Type} [PacketIdentifierStore σ] [FxHasher] {self : MqttClientFSM σ}
  (currentTime : MqttInstant) (packet : MPublish) (times : List MqttInstant)

theorem driven_disconnected (disconnected : self.connectionState = .disconnected) :
    driveUntilNone MqttClientPublisher.run ⟨self, some packet, .send⟩ (currentTime :: times) =
      .ok (some ([], ⟨self.ranAt currentTime, none, .done⟩)) := by
  apply driveUntilNone_none
  simp only [MqttClientPublisher.run, MqttClientFSM.innerRun_disconnected currentTime disconnected]
  rfl

theorem driven_connecting {conn : ConnectingWithoutAuth}
    (connecting : self.connectionState = .connectingWithoutAuth conn) :
    driveUntilNone MqttClientPublisher.run ⟨self, some packet, .send⟩ (currentTime :: times) =
      .error .todo := by
  apply driveUntilNone_error
  simp only [MqttClientPublisher.run, MqttClientFSM.innerRun_connecting currentTime connecting]
  rfl

theorem driven_connected {con : Connected} (connected : self.connectionState = .connected con)
    (again : times ≠ []) : ∃ helper,
      driveUntilNone MqttClientPublisher.run ⟨self, some packet, .send⟩ (currentTime :: times) =
        .ok (some ([.sendPacket (.publish packet)], helper)) := by
  cases times with
  | nil => exact absurd rfl again
  | cons later times =>
    have first : MqttClientPublisher.run ⟨self, some packet, .send⟩ currentTime =
        .ok (some (.sendPacket (.publish packet)), ⟨{ self with
          connectionState := .connected { con with lastTimeSent := currentTime } }.ranAt
            currentTime, none, .done⟩) := by
      simp only [MqttClientPublisher.run, MqttClientFSM.innerRun_connected currentTime connected]
      rfl
    rw [driveUntilNone_some first, driveUntilNone_none rfl]
    exact ⟨_, rfl⟩

/-- An identifier is taken before the connection is looked at. -/
theorem driven_store (needed : packet.qualityOfService ≠ .atMostOnce) {id : PacketIdentifier}
    {clientPis : σ}
    (taken : PacketIdentifierStore.getNextFree self.clientPis .publish = .ok (some id, clientPis)) :
    ∃ client : MqttClientFSM σ, client.connectionState = self.connectionState ∧
      driveUntilNone MqttClientPublisher.run ⟨self, some packet, .store⟩ (currentTime :: times) =
        (driveUntilNone MqttClientPublisher.run
          ⟨client, some { packet with packetIdentifier := some id }, .send⟩ times).map
            (Option.map fun (actions, helper) => (.storePacket id :: actions, helper)) := by
  refine ⟨{ self with clientPis }, rfl, ?_⟩
  apply driveUntilNone_some
  simp only [MqttClientPublisher.run, if_pos needed, taken]
  rfl

theorem driven_exhausted (needed : packet.qualityOfService ≠ .atMostOnce) {clientPis : σ}
    (taken : PacketIdentifierStore.getNextFree self.clientPis .publish = .ok (none, clientPis)) :
    driveUntilNone MqttClientPublisher.run ⟨self, some packet, .store⟩ (currentTime :: times) =
      .error .unwrapNone := by
  apply driveUntilNone_error
  simp only [MqttClientPublisher.run, if_pos needed, taken]
  rfl

end

/-! ### All or nothing -/

section

variable [Target] [FxHasher]

/-- The PUBLISH is sent, under an identifier that was free where it needs one. -/
def GoesThrough (self : MqttClientFSM UsizePacketIdentifierStore) (packet : MPublish)
    (actions : List ExpectedAction) : Prop :=
  if packet.qualityOfService = .atMostOnce then
    actions = [.sendPacket (.publish { packet with packetIdentifier := none })]
  else ∃ id, self.clientPis.contains id = false ∧
    actions = [.storePacket id, .sendPacket (.publish { packet with packetIdentifier := some id })]

/-- The publisher comes to its end, having sent the PUBLISH or done nothing. -/
def AllOrNothing (self : MqttClientFSM UsizePacketIdentifierStore) (packet : MPublish)
    (times : List MqttInstant) : Prop :=
  ∃ actions helper, driveUntilNone MqttClientPublisher.run (self.publish packet) times =
      .ok (some (actions, helper)) ∧
    (GoesThrough self packet actions ∨
      (actions = [] ∧ helper.client.clientPis = self.clientPis ∧
        helper.client.connectionState = self.connectionState))

/-- The connection and the identifiers that a PUBLISH of this quality of service needs. -/
def Publishable (self : MqttClientFSM UsizePacketIdentifierStore) (packet : MPublish) : Prop :=
  if packet.qualityOfService = .atMostOnce then
    self.connectionState = .disconnected ∨
      (self.isConnected = true ∧ packet.packetIdentifier = none)
  else self.isConnected = true ∧ self.clientPis.slots ≠ BitVec.allOnes _

section

variable {self : MqttClientFSM UsizePacketIdentifierStore} {packet : MPublish}
  {times : List MqttInstant}

theorem allOrNothing_of_driven {actions : List ExpectedAction}
    {helper : MqttClientPublisher UsizePacketIdentifierStore}
    (driven : driveUntilNone MqttClientPublisher.run (self.publish packet) times =
      .ok (some (actions, helper))) :
    AllOrNothing self packet times ↔ GoesThrough self packet actions ∨
      (actions = [] ∧ helper.client.clientPis = self.clientPis ∧
        helper.client.connectionState = self.connectionState) := by
  constructor
  · rintro ⟨_, _, same, outcome⟩
    obtain ⟨rfl, rfl⟩ := Prod.mk.inj (Option.some.inj (Except.ok.inj (driven.symm.trans same)))
    exact outcome
  · intro outcome
    exact ⟨actions, helper, driven, outcome⟩

theorem not_allOrNothing {p : Panic}
    (driven : driveUntilNone MqttClientPublisher.run (self.publish packet) times = .error p) :
    ¬ AllOrNothing self packet times := by
  rintro ⟨_, _, same, -⟩
  exact nomatch driven.symm.trans same

-- The publisher starts by sending, so that it does nothing while disconnected.
theorem allOrNothing_unneeded (unneeded : packet.qualityOfService = .atMostOnce)
    (currentTime : MqttInstant) (again : times ≠ []) :
    AllOrNothing self packet (currentTime :: times) ↔ Publishable self packet := by
  have start : self.publish packet = ⟨self, some packet, .send⟩ := by
    rw [MqttClientFSM.publish, if_pos unneeded]
  rw [Publishable, if_pos unneeded]
  cases state : self.connectionState with
  | disconnected =>
    have driven := driven_disconnected currentTime packet times state
    rw [← start] at driven
    rw [allOrNothing_of_driven driven]
    exact iff_of_true (.inr ⟨rfl, rfl, rfl⟩) (.inl rfl)
  | connectingWithoutAuth conn =>
    have driven := driven_connecting currentTime packet times state
    rw [← start] at driven
    apply iff_of_false (not_allOrNothing driven)
    rintro (same | ⟨connected, -⟩)
    · cases same
    · cases connected.symm.trans (MqttClientFSM.isConnected_of_connecting state)
  | connected con =>
    obtain ⟨helper, driven⟩ := driven_connected currentTime packet times state again
    rw [← start] at driven
    rw [allOrNothing_of_driven driven, GoesThrough, if_pos unneeded]
    constructor
    · rintro (sent | ⟨same, -⟩)
      · have same := MqttPacket.publish.inj (ExpectedAction.sendPacket.inj (List.cons.inj sent).1)
        exact .inr ⟨MqttClientFSM.isConnected_of_connected state,
          congrArg MPublish.packetIdentifier same⟩
      · cases same
    · rintro (same | ⟨-, none⟩)
      · cases same
      · apply Or.inl
        rw [← none]

omit [FxHasher] in
theorem contains_of_taken {s s' : UsizePacketIdentifierStore} {id : PacketIdentifier}
    (taken : s.getNextFree .publish = .ok (some id, s')) : s.contains id = false := by
  obtain ⟨-, free, -, -⟩ := UsizePacketIdentifierStore.getNextFree_eq taken
  rw [UsizePacketIdentifierStore.contains_usage, UsizePacketIdentifierStore.usage_eq_none.mpr free]
  rfl

omit [Target] [FxHasher] in
theorem publish_needed {σ : Type} {self : MqttClientFSM σ}
    (needed : packet.qualityOfService ≠ .atMostOnce) :
    self.publish packet = ⟨self, some packet, .store⟩ := by
  rw [MqttClientFSM.publish, if_neg needed]

-- While disconnected the identifier stays taken, and its packet is announced as one to
-- store but never sent.
theorem allOrNothing_taken (needed : packet.qualityOfService ≠ .atMostOnce)
    (currentTime later : MqttInstant) (again : times ≠ []) {id : PacketIdentifier}
    {clientPis : UsizePacketIdentifierStore}
    (taken : PacketIdentifierStore.getNextFree self.clientPis .publish = .ok (some id, clientPis)) :
    AllOrNothing self packet (currentTime :: later :: times) ↔ self.isConnected = true := by
  obtain ⟨client, same, driven⟩ := driven_store currentTime packet (later :: times) needed taken
  rw [← publish_needed needed] at driven
  cases state : self.connectionState with
  | disconnected =>
    rw [driven_disconnected later _ times (same.trans state)] at driven
    rw [allOrNothing_of_driven driven, GoesThrough, if_neg needed,
      MqttClientFSM.isConnected_of_disconnected state]
    apply iff_of_false _ Bool.false_ne_true
    rintro (⟨_, -, same⟩ | ⟨same, -⟩)
    · cases (List.cons.inj same).2
    · cases same
  | connectingWithoutAuth conn =>
    rw [driven_connecting later _ times (same.trans state)] at driven
    rw [MqttClientFSM.isConnected_of_connecting state]
    exact iff_of_false (not_allOrNothing driven) Bool.false_ne_true
  | connected con =>
    obtain ⟨helper, sent⟩ := driven_connected later
      { packet with packetIdentifier := some id } times (same.trans state) again
    rw [sent] at driven
    rw [allOrNothing_of_driven driven, GoesThrough, if_neg needed]
    apply iff_of_true (.inl ⟨id, contains_of_taken taken, rfl⟩)
    exact MqttClientFSM.isConnected_of_connected state

theorem allOrNothing_needed (needed : packet.qualityOfService ≠ .atMostOnce)
    (currentTime later : MqttInstant) (again : times ≠ []) :
    AllOrNothing self packet (currentTime :: later :: times) ↔ Publishable self packet := by
  rw [Publishable, if_neg needed]
  obtain ⟨⟨id, clientPis⟩, taken⟩ : ∃ result,
      PacketIdentifierStore.getNextFree self.clientPis .publish = .ok result :=
    self.clientPis.getNextFree_ok .publish
  have full := UsizePacketIdentifierStore.getNextFree_eq_none taken
  cases id with
  | none =>
    have driven := driven_exhausted currentTime packet (later :: times) needed taken
    rw [← publish_needed needed] at driven
    apply iff_of_false (not_allOrNothing driven)
    rintro ⟨-, room⟩
    exact room (full.mp rfl)
  | some id =>
    have room : self.clientPis.slots ≠ BitVec.allOnes _ := fun all => nomatch full.mpr all
    rw [allOrNothing_taken needed currentTime later again taken]
    exact (and_iff_left room).symm

end

/-- A PUBLISH goes through or changes nothing exactly when the machine is in the
state that its quality of service needs. -/
theorem allOrNothing_iff (self : MqttClientFSM UsizePacketIdentifierStore) (packet : MPublish)
    {times : List MqttInstant} (enough : 3 ≤ times.length) :
    AllOrNothing self packet times ↔ Publishable self packet := by
  match times, enough with
  | currentTime :: later :: last :: times, _ =>
    by_cases unneeded : packet.qualityOfService = .atMostOnce
    · exact allOrNothing_unneeded unneeded currentTime (List.cons_ne_nil _ _)
    · exact allOrNothing_needed unneeded currentTime later (List.cons_ne_nil _ _)

end

section

attribute [local instance] x86_64 unhashed

def threeTimes : List MqttInstant := [⟨0⟩, ⟨0⟩, ⟨0⟩]

theorem allOrNothing_connected : ∃ trace final, Runs .default trace final ∧
    trace.map (·.input) = [.handleConnect ⟨0⟩ anonymousConnect, .consume accepting ⟨0⟩] ∧
    (AllOrNothing final atLeastOnce threeTimes ↔ Publishable final atLeastOnce) :=
  ⟨_, _, .next (.next .done rfl) rfl, rfl, allOrNothing_iff _ atLeastOnce (Nat.le_refl 3)⟩

/-- A machine that was never connected announces a packet to store, and keeps its
identifier in use, but does not send it. -/
theorem publish_disconnected : Runs .default [] MqttClientFSM.default ∧
    (∃ helper, driveUntilNone MqttClientPublisher.run (MqttClientFSM.default.publish atLeastOnce)
        threeTimes = .ok (some ([.storePacket firstIdentifier], helper)) ∧
      helper.client.clientPis.contains firstIdentifier = true) ∧
    ¬ AllOrNothing .default atLeastOnce threeTimes := by
  refine ⟨.done, ⟨_, rfl, rfl⟩, ?_⟩
  rw [allOrNothing_of_driven rfl]
  rintro (⟨_, -, same⟩ | ⟨same, -⟩)
  · cases (List.cons.inj same).2
  · cases same

end

end Core
