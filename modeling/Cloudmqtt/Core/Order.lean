import Cloudmqtt.Core.Operations

/-! The order of the packets that a machine asks its caller to send. -/

set_option autoImplicit false

namespace Core

open Base Rust V5

/-- What shows of a run: packets to send, an accepted connection, and resets. -/
inductive Mark where
  | sent (packet : MqttPacket)
  | accepted
  | reset

def Mark.extend (since : List Mark) : Mark → List Mark
  | reset => []
  | mark => since ++ [mark]

def sinceReset (marks : List Mark) : List Mark := marks.foldl Mark.extend []

def Opened (since : List Mark) : Prop :=
  (∃ connect, .sent (.connect connect) ∈ since) ∧
    ∀ disconnect, .sent (.disconnect disconnect) ∉ since

/-- A CONNECT is the first packet, nothing follows a DISCONNECT, and any other
packet waits for the connection to be accepted. -/
def Permitted (since : List Mark) : MqttPacket → Prop
  | .connect _ => ∀ packet, .sent packet ∉ since
  | .disconnect _ => Opened since
  | _ => Opened since ∧ .accepted ∈ since

/-- Every packet is permitted by what was sent since the last reset. -/
inductive InOrder : List Mark → Prop where
  | nil : InOrder []
  | snoc {marks : List Mark} {mark : Mark} : InOrder marks →
      (∀ packet, mark = .sent packet → Permitted (sinceReset marks) packet) →
      InOrder (marks ++ [mark])

theorem inOrder_snoc {marks : List Mark} {mark : Mark} (ordered : InOrder (marks ++ [mark])) :
    ∀ packet, mark = .sent packet → Permitted (sinceReset marks) packet := by
  generalize same : marks ++ [mark] = all at ordered
  cases ordered with
  | nil => simp at same
  | snoc _ permitted =>
    obtain ⟨rfl, single⟩ := List.append_inj' same rfl
    obtain rfl := (List.cons.inj single).1
    exact permitted

@[simp] theorem sinceReset_snoc (marks : List Mark) (mark : Mark) :
    sinceReset (marks ++ [mark]) = mark.extend (sinceReset marks) := by
  simp [sinceReset]

variable {σ : Type}

def ExpectedAction.marks : ExpectedAction → List Mark
  | .sendPacket packet => [.sent packet]
  | .disconnect => [.reset]
  | _ => []

def ConnectionState.isConnecting : ConnectionState → Bool
  | connectingWithoutAuth _ => true
  | _ => false

theorem isConnecting_of_disconnected {state : ConnectionState}
    (disconnected : state = .disconnected) : state.isConnecting = false := by
  rw [disconnected]
  rfl

def ExternalInfos.marks (connecting : Bool) : ExternalInfos → List Mark
  | .consumePacket (.connack connack) =>
    if connecting ∧ connack.reasonCode = ⟨.success, success_mem_connack⟩ then [.accepted] else []
  | _ => []

theorem ExternalInfos.marks_false (infos : ExternalInfos) : infos.marks false = [] := by
  unfold ExternalInfos.marks
  split
  next connack => rw [if_neg fun taken => Bool.false_ne_true taken.1]
  next => rfl

def Operation.marks (connecting : Bool) : Operation → List Mark
  | .consume packet _ => (ExternalInfos.consumePacket packet).marks connecting
  | .connectionLost _ => [.reset]
  | _ => []

def marks (entry : Entry (MqttClientFSM σ) Operation (List ExpectedAction)) : List Mark :=
  entry.input.marks entry.before.connectionState.isConnecting ++
    entry.output.flatMap ExpectedAction.marks

def Tracks (since : List Mark) : ConnectionState → Prop
  | .disconnected => ∀ packet, .sent packet ∉ since
  | .connectingWithoutAuth _ => Opened since
  | .connected _ => Opened since ∧ .accepted ∈ since

structure Follows (marks : List Mark) (state : ConnectionState) : Prop where
  ordered : InOrder marks
  tracks : Tracks (sinceReset marks) state

theorem Follows.reset {before : List Mark} {state : ConnectionState}
    (follows : Follows before state) :
    Follows (before ++ [.reset]) .disconnected where
  ordered := follows.ordered.snoc fun _ same => by simp at same
  tracks := by simp [Tracks, Mark.extend]

theorem Follows.connect {before : List Mark} (follows : Follows before .disconnected)
    (connect : MConnect) (conn : ConnectingWithoutAuth) :
    Follows (before ++ [.sent (.connect connect)]) (.connectingWithoutAuth conn) where
  ordered := follows.ordered.snoc fun packet same => by
    obtain rfl := Mark.sent.inj same
    exact follows.tracks
  tracks := by
    have silent : ∀ packet, .sent packet ∉ sinceReset before := follows.tracks
    simp [Tracks, Opened, Mark.extend, silent]

theorem Follows.accepted {before : List Mark} {conn : ConnectingWithoutAuth}
    (follows : Follows before (.connectingWithoutAuth conn)) (con : Connected) :
    Follows (before ++ [.accepted]) (.connected con) where
  ordered := follows.ordered.snoc fun _ same => by simp at same
  tracks := by
    have opened : Opened (sinceReset before) := follows.tracks
    simpa [Tracks, Opened, Mark.extend] using opened

def Ordinary : MqttPacket → Prop
  | .connect _ | .disconnect _ => False
  | _ => True

theorem Follows.sent {before : List Mark} {con con' : Connected} {packet : MqttPacket}
    (follows : Follows before (.connected con)) (ordinary : Ordinary packet) :
    Follows (before ++ [.sent packet]) (.connected con') where
  ordered := follows.ordered.snoc fun other same => by
    obtain rfl := Mark.sent.inj same
    unfold Permitted
    split
    next => exact ordinary.elim
    next => exact ordinary.elim
    next => exact follows.tracks
  tracks := by
    obtain ⟨⟨⟨connect, sent⟩, open'⟩, accepted⟩ := follows.tracks
    rw [sinceReset_snoc]
    refine ⟨⟨⟨connect, List.mem_append_left _ sent⟩, fun disconnect member => ?_⟩,
      List.mem_append_left _ accepted⟩
    rcases List.mem_append.mp member with member | member
    · exact open' disconnect member
    · obtain rfl := Mark.sent.inj (List.mem_singleton.mp member)
      exact ordinary

theorem Follows.disconnect {before : List Mark} {state : ConnectionState}
    (follows : Follows before state) (open' : state ≠ .disconnected) (disconnect : MDisconnect) :
    Follows (before ++ [.sent (.disconnect disconnect), .reset]) .disconnected := by
  have opened : Opened (sinceReset before) := by
    cases state with
    | disconnected => exact absurd rfl open'
    | connectingWithoutAuth conn => exact follows.tracks
    | connected con => exact follows.tracks.1
  have ordered : InOrder (before ++ [.sent (.disconnect disconnect)]) :=
    follows.ordered.snoc fun packet same => by
      obtain rfl := Mark.sent.inj same
      exact opened
  rw [← List.singleton_append, ← List.append_assoc]
  refine ⟨ordered.snoc fun _ same => by simp at same, ?_⟩
  rw [sinceReset_snoc]
  simp [Tracks, Mark.extend]

theorem Follows.quiet {before : List Mark} {state state' : ConnectionState}
    (follows : Follows before state)
    (tracks : Tracks (sinceReset before) state → Tracks (sinceReset before) state') :
    Follows (before ++ []) state' := by
  rw [List.append_nil]
  exact ⟨follows.ordered, tracks follows.tracks⟩

/-! ### Steps -/

section

variable [PacketIdentifierStore σ] [FxHasher] {self after : MqttClientFSM σ}
  {currentTime : MqttInstant}

theorem MqttClientFSM.Transition.follows {before : List Mark} {infos : ExternalInfos}
    {action : Option ExpectedAction} (transition : self.Transition currentTime infos action after)
    (ordinary : ∀ packet, infos = .publishPacket packet → Ordinary packet)
    (follows : Follows before self.connectionState) :
    Follows (before ++ (infos.marks self.connectionState.isConnecting ++
      action.toList.flatMap ExpectedAction.marks)) after.connectionState := by
  cases transition with
  | disconnected disconnected =>
    rw [isConnecting_of_disconnected disconnected, ExternalInfos.marks_false]
    exact follows.quiet id
  | awaited => exact follows.quiet id
  | @connack conn connack _ _ connecting ran =>
    obtain ⟨success, -, rfl⟩ := handleConnack_eq_ok ran
    rw [connecting] at follows
    rw [flatMap_handleConnack (fun _ => rfl) ran, List.append_nil]
    simp only [ExternalInfos.marks, connecting, ConnectionState.isConnecting, true_and, success,
      if_true]
    exact follows.accepted _
  | received => exact follows.quiet id
  | receivedOnce => exact follows.quiet id
  | disconnect => exact follows.reset
  | puback _ ran =>
    obtain ⟨_, rfl, -⟩ := releaseContained_eq_ok ran
    exact follows.quiet id
  | pingresp connected =>
    rw [connected] at follows
    exact follows.quiet id
  | suback _ ran =>
    obtain ⟨_, rfl, -⟩ := releaseContained_eq_ok ran
    exact follows.quiet id
  | sent connected =>
    rw [connected] at follows
    exact follows.sent (ordinary _ rfl)
  | @elapsed con connected =>
    rw [connected] at follows
    rcases self.ping_cases con currentTime with pinged | pinged
    · rw [pinged]
      exact follows.sent trivial
    · rw [pinged, connected]
      exact follows.quiet id

theorem Published.follows {before : List Mark} {packet : MPublish} {times : List MqttInstant}
    {actions : List ExpectedAction} (published : Published self packet times actions after)
    (follows : Follows before self.connectionState) :
    Follows (before ++ actions.flatMap ExpectedAction.marks) after.connectionState := by
  cases published with
  | unused | stored => exact follows.quiet id
  | sent transition | storedAndSent _ transition =>
    exact transition.follows (fun packet same => by cases same; trivial) follows

inductive Dismissed (self : MqttClientFSM σ) (packet : MDisconnect) :
    List MqttInstant → List ExpectedAction → MqttClientFSM σ → Prop where
  | unused : Dismissed self packet [] [] self
  | sent {currentTime : MqttInstant} :
      Dismissed self packet [currentTime] [.sendPacket (.disconnect packet)] self
  | reset {currentTime later : MqttInstant} {times : List MqttInstant} :
      Dismissed self packet (currentTime :: later :: times)
        [.sendPacket (.disconnect packet), .disconnect] self.resetConnection

omit [FxHasher] in
theorem dismissed_of_drive {packet : MDisconnect} {times : List MqttInstant}
    {helper : MqttClientDisconnecter σ} {actions : List ExpectedAction}
    (ran : drive MqttClientDisconnecter.run (self.disconnect packet) times =
      .ok (actions, helper)) : Dismissed self packet times actions helper.client := by
  match times with
  | [] =>
    obtain ⟨rfl, rfl⟩ := Prod.mk.inj (Except.ok.inj ran)
    exact .unused
  | [currentTime] =>
    obtain ⟨rfl, rfl⟩ := Prod.mk.inj (Except.ok.inj ran)
    exact .sent
  | currentTime :: later :: times =>
    obtain ⟨⟨_, _⟩, first, ran⟩ := except_bind_eq_ok.mp ran
    obtain ⟨⟨_, _⟩, rest, returned⟩ := except_bind_eq_ok.mp ran
    obtain ⟨rfl, rfl⟩ := Prod.mk.inj (Except.ok.inj returned)
    obtain ⟨rfl, rfl⟩ := Prod.mk.inj (Except.ok.inj first)
    obtain ⟨⟨_, _⟩, second, ran⟩ := except_bind_eq_ok.mp rest
    obtain ⟨⟨_, _⟩, rest, returned⟩ := except_bind_eq_ok.mp ran
    obtain ⟨rfl, rfl⟩ := Prod.mk.inj (Except.ok.inj returned)
    obtain ⟨rfl, rfl⟩ := Prod.mk.inj (Except.ok.inj second)
    rw [drive_silent fun _ => rfl] at rest
    obtain ⟨rfl, rfl⟩ := Prod.mk.inj (Except.ok.inj rest)
    exact .reset

/-- A disconnect helper that is called at all is made while there is something
to disconnect, and called to its end. -/
def Proper (entry : Entry (MqttClientFSM σ) Operation (List ExpectedAction)) : Prop :=
  match entry.input with
  | .disconnect _ times =>
    times = [] ∨ (entry.before.connectionState ≠ .disconnected ∧ 2 ≤ times.length)
  | _ => True

omit [FxHasher] in
theorem Dismissed.follows {before : List Mark} {packet : MDisconnect} {times : List MqttInstant}
    {actions : List ExpectedAction} (dismissed : Dismissed self packet times actions after)
    (follows : Follows before self.connectionState)
    (proper : Proper ⟨self, .disconnect packet times, actions⟩) :
    Follows (before ++ actions.flatMap ExpectedAction.marks) after.connectionState := by
  cases dismissed with
  | unused => exact follows.quiet id
  | sent =>
    rcases proper with same | ⟨-, ended⟩
    · cases same
    · exact absurd ended (Nat.lt_irrefl 1)
  | reset =>
    rcases proper with same | ⟨open', -⟩
    · cases same
    · exact follows.disconnect open' packet

-- The marks since the last reset determine what the connection state may be. The
-- disconnect helper can break this, by sending without a step, hence `proper`.
theorem operate_follows {before : List Mark} {operation : Operation}
    {actions : List ExpectedAction} (follows : Follows before self.connectionState)
    (proper : Proper ⟨self, operation, actions⟩)
    (ran : self.operate operation = .ok (actions, after)) :
    Follows (before ++ marks ⟨self, operation, actions⟩) after.connectionState := by
  cases MqttClientFSM.performs_of_operate ran with
  | @handleConnect currentTime connect disconnected =>
    rw [disconnected] at follows
    exact follows.connect connect _
  | consume transition | run transition =>
    exact transition.follows (fun packet same => by simp at same) follows
  | publish => exact (MqttClientFSM.published_of_operate ran).follows follows
  | subscribe _ connected | acknowledge connected =>
    rw [connected] at follows
    exact follows.sent trivial
  | disconnect called => exact (dismissed_of_drive called).follows follows proper
  | connectionLost => exact follows.reset

/-! ### While disconnected -/

theorem MqttClientFSM.Transition.of_disconnected {infos : ExternalInfos}
    {action : Option ExpectedAction} (transition : self.Transition currentTime infos action after)
    (disconnected : self.connectionState = .disconnected) : action = none ∧ after = self := by
  cases transition with
  | disconnected => exact ⟨rfl, rfl⟩
  | awaited connecting | connack connecting => exact nomatch disconnected.symm.trans connecting
  | received connected | receivedOnce connected | disconnect connected | puback connected
  | pingresp connected | suback connected | sent connected | elapsed connected =>
    exact nomatch disconnected.symm.trans connected

theorem Published.unsent {publish : MPublish} {times : List MqttInstant}
    {actions : List ExpectedAction} (published : Published self publish times actions after)
    (disconnected : self.connectionState = .disconnected) (packet : MqttPacket) :
    .sendPacket packet ∉ actions := by
  cases published with
  | unused => exact List.not_mem_nil
  | stored => simp
  | sent transition | storedAndSent _ transition =>
    obtain ⟨rfl, -⟩ := transition.of_disconnected disconnected
    simp

theorem connect_of_disconnected {operation : Operation} {actions : List ExpectedAction}
    (disconnected : self.connectionState = .disconnected)
    (proper : Proper ⟨self, operation, actions⟩)
    (ran : self.operate operation = .ok (actions, after)) {packet : MqttPacket}
    (member : .sendPacket packet ∈ actions) : ∃ connect, packet = .connect connect := by
  cases MqttClientFSM.performs_of_operate ran with
  | @handleConnect currentTime connect =>
    exact ⟨connect, ExpectedAction.sendPacket.inj (List.mem_singleton.mp member)⟩
  | consume transition | run transition =>
    obtain ⟨rfl, -⟩ := transition.of_disconnected disconnected
    simp at member
  | publish =>
    exact absurd member ((MqttClientFSM.published_of_operate ran).unsent disconnected packet)
  | subscribe _ connected | acknowledge connected =>
    exact nomatch disconnected.symm.trans connected
  | @disconnect farewell times _ helper called =>
    rcases proper with rfl | ⟨open', -⟩
    · obtain ⟨rfl, -⟩ := Prod.mk.inj (Except.ok.inj called)
      simp at member
    · exact absurd disconnected open'
  | connectionLost => simp at member

/-! ### Runs -/

def sentOrder (trace : List (Entry (MqttClientFSM σ) Operation (List ExpectedAction))) :
    List Mark :=
  trace.flatMap marks

def ConnectsFirst (entry : Entry (MqttClientFSM σ) Operation (List ExpectedAction)) : Prop :=
  entry.before.connectionState = .disconnected →
    ∀ packet, .sendPacket packet ∈ entry.output → ∃ connect, packet = .connect connect

/-- Where disconnect helpers are used properly, packets are sent in the order of
the protocol. -/
theorem inOrder_of_runs {clientPis : σ} {final : MqttClientFSM σ}
    {trace : List (Entry (MqttClientFSM σ) Operation (List ExpectedAction))}
    (run : Runs (.new clientPis) trace final) (proper : EveryStep (fun _ => Proper) trace) :
    InOrder (sentOrder trace) ∧ EveryStep (fun _ => ConnectsFirst) trace := by
  have initial : Follows [] (MqttClientFSM.new clientPis).connectionState :=
    ⟨.nil, fun packet member => by simp [sinceReset] at member⟩
  have both : Follows (sentOrder trace) final.connectionState ∧
      EveryStep (fun _ => ConnectsFirst) trace := by
    refine run.invariant (fun trace final => Follows (sentOrder trace) final.connectionState ∧
      EveryStep (fun _ => ConnectsFirst) trace) ⟨initial, .nil⟩ ?_ proper
    rintro trace before operation actions after ⟨follows, connects⟩ proper ran
    refine ⟨?_, connects.snoc fun disconnected packet member =>
      connect_of_disconnected disconnected proper ran member⟩
    rw [sentOrder, List.flatMap_append, List.flatMap_singleton]
    exact operate_follows follows proper ran
  exact ⟨both.1.ordered, both.2⟩

end

/-! ### Disconnect helpers -/

section

@[reducible] def unhashed : FxHasher := ⟨fun _ => 0⟩

attribute [local instance] x86_64 unhashed

def anonymousConnect : MConnect := ⟨"", none, none, false, none, .new connectFields, 0⟩

def accepting : MqttPacket :=
  .connack ⟨false, ⟨.success, success_mem_connack⟩, .new connackFields⟩

def firstIdentifier : PacketIdentifier := ⟨⟨1, NonZeroU16.one_ne_zero⟩⟩

def atLeastOnce : MPublish := ⟨false, .atLeastOnce, false, "a", none, .new publishFields, []⟩

def farewell : MDisconnect :=
  ⟨⟨.normalDisconnection, MDisconnect.normalDisconnection.member⟩, .new disconnectFields⟩

def atMostOnce : MPublish := { atLeastOnce with qualityOfService := .atMostOnce }

theorem inOrder_farewell :
    ∃ trace final, Runs MqttClientFSM.default trace final ∧
      trace.map (·.input) = [.handleConnect ⟨0⟩ anonymousConnect, .consume accepting ⟨0⟩,
        .disconnect farewell [⟨0⟩, ⟨0⟩]] ∧
      InOrder (sentOrder trace) ∧ EveryStep (fun _ => ConnectsFirst) trace := by
  refine ⟨_, _, .next (.next (.next .done rfl) rfl) rfl, rfl, inOrder_of_runs
    (.next (.next (.next .done rfl) rfl) rfl) ?_⟩
  exact .snoc (.snoc (.snoc .nil trivial) trivial) (.inr ⟨(fun same => by cases same), by decide⟩)

/-- A helper of a machine that is not connected sends its packet, and one that
is dropped after its first call leaves the machine connected. -/
theorem farewell_unordered :
    (∃ trace final, Runs MqttClientFSM.default trace final ∧
      trace.map (·.input) = [.disconnect farewell [⟨0⟩]] ∧
      ¬ EveryStep (fun _ => ConnectsFirst) trace) ∧
    ∃ trace final, Runs MqttClientFSM.default trace final ∧
      trace.map (·.input) = [.handleConnect ⟨0⟩ anonymousConnect, .consume accepting ⟨0⟩,
        .disconnect farewell [⟨0⟩], .publish atMostOnce [⟨0⟩]] ∧
      ¬ InOrder (sentOrder trace) := by
  constructor
  · refine ⟨_, _, .next .done rfl, rfl, fun every => ?_⟩
    obtain ⟨connect, same⟩ := every [] _ [] rfl rfl _ List.mem_cons_self
    simp at same
  · refine ⟨_, _, .next (.next (.next (.next .done rfl) rfl) rfl) rfl, rfl, fun ordered => ?_⟩
    have permitted : Permitted (sinceReset [.sent (.connect anonymousConnect), .accepted,
        .sent (.disconnect farewell)]) (.publish atMostOnce) := inOrder_snoc ordered _ rfl
    exact permitted.1.2 farewell (by simp [sinceReset, Mark.extend])

end

end Core
