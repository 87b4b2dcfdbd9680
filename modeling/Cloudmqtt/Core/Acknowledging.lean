import Cloudmqtt.Core.Order

/-! When an acknowledgement that the caller was asked for can be handed back. -/

set_option autoImplicit false

namespace Core

open Base Rust V5

variable {σ : Type}

def Mark.online (connected : Bool) : Mark → Bool
  | accepted => true
  | reset => false
  | sent _ => connected

section

variable [PacketIdentifierStore σ] [FxHasher] {self after : MqttClientFSM σ}
  {currentTime : MqttInstant}

theorem MqttClientFSM.Transition.online {infos : ExternalInfos} {action : Option ExpectedAction}
    (transition : self.Transition currentTime infos action after) :
    after.isConnected = (infos.marks self.connectionState.isConnecting ++
      action.toList.flatMap ExpectedAction.marks).foldl Mark.online self.isConnected := by
  cases transition with
  | disconnected disconnected =>
    rw [isConnecting_of_disconnected disconnected, ExternalInfos.marks_false]
    rfl
  | awaited => rfl
  | @connack conn connack _ _ connecting ran =>
    obtain ⟨success, -, rfl⟩ := handleConnack_eq_ok ran
    rw [flatMap_handleConnack (fun _ => rfl) ran, List.append_nil]
    simp only [ExternalInfos.marks, connecting, ConnectionState.isConnecting, true_and, success,
      if_true]
    rfl
  | received => rfl
  | receivedOnce => rfl
  | disconnect => rfl
  | puback _ ran =>
    obtain ⟨_, rfl, -⟩ := releaseContained_eq_ok ran
    rfl
  | pingresp connected | sent connected =>
    rw [isConnected_of_connected connected]
    rfl
  | suback _ ran =>
    obtain ⟨_, rfl, -⟩ := releaseContained_eq_ok ran
    rfl
  | @elapsed con connected =>
    rcases self.ping_cases con currentTime with pinged | pinged
    · rw [pinged, isConnected_of_connected connected]
      rfl
    · rw [pinged]
      rfl

theorem Published.online {packet : MPublish} {times : List MqttInstant}
    {actions : List ExpectedAction} (published : Published self packet times actions after) :
    after.isConnected = (actions.flatMap ExpectedAction.marks).foldl Mark.online
      self.isConnected := by
  cases published with
  | unused | stored => rfl
  | sent transition | storedAndSent _ transition => exact transition.online

omit [FxHasher] in
theorem Dismissed.online {packet : MDisconnect} {times : List MqttInstant}
    {actions : List ExpectedAction} (dismissed : Dismissed self packet times actions after) :
    after.isConnected = (actions.flatMap ExpectedAction.marks).foldl Mark.online
      self.isConnected := by
  cases dismissed with
  | unused | sent | reset => rfl

theorem operate_online {operation : Operation} {actions : List ExpectedAction}
    (ran : self.operate operation = .ok (actions, after)) :
    after.isConnected =
      (marks ⟨self, operation, actions⟩).foldl Mark.online self.isConnected := by
  cases MqttClientFSM.performs_of_operate ran with
  | handleConnect disconnected =>
    rw [MqttClientFSM.isConnected_of_disconnected disconnected]
    rfl
  | consume transition | run transition => exact transition.online
  | publish => exact (MqttClientFSM.published_of_operate ran).online
  | subscribe _ connected | acknowledge connected =>
    rw [MqttClientFSM.isConnected_of_connected connected]
    rfl
  | disconnect called => exact (dismissed_of_drive called).online
  | connectionLost => rfl

/-- What a run does to the connection shows in its marks. -/
theorem online_of_runs {trace : List (Entry (MqttClientFSM σ) Operation (List ExpectedAction))}
    (run : Runs self trace after) :
    after.isConnected = (trace.flatMap marks).foldl Mark.online self.isConnected := by
  induction run with
  | done => rfl
  | next _ taken ih =>
    rw [operate_online taken, ih, List.flatMap_append, List.foldl_append, List.flatMap_singleton]

/-! ### Acknowledgements that the caller was asked for -/

theorem MqttClientFSM.Transition.of_receivePacket {infos : ExternalInfos}
    {received : ReceivePacket}
    (transition : self.Transition currentTime infos (some (.receivePacket received)) after) :
    (∃ packet, infos = .consumePacket packet) ∧ self.isConnected = true ∧ after = self := by
  generalize same : some (ExpectedAction.receivePacket received) = action at transition
  cases transition with
  | received connected | receivedOnce connected =>
    exact ⟨⟨_, rfl⟩, isConnected_of_connected connected, rfl⟩
  | connack _ ran =>
    obtain ⟨-, rfl, -⟩ := handleConnack_eq_ok ran
    obtain ⟨_, -, same⟩ := Option.map_eq_some_iff.mp same.symm
    cases same
  | @elapsed con =>
    rcases self.ping_cases con currentTime with pinged | pinged
    · rw [pinged] at same
      cases same
    · rw [pinged] at same
      cases same
  | disconnected | awaited | disconnect | puback | pingresp | suback | sent => cases same

theorem Published.unreceived {packet : MPublish} {times : List MqttInstant}
    {actions : List ExpectedAction} (published : Published self packet times actions after)
    (received : ReceivePacket) : .receivePacket received ∉ actions := by
  have unsent {before after : MqttClientFSM σ} {currentTime : MqttInstant} {sent : MqttPacket}
      {action : Option ExpectedAction}
      (transition : before.Transition currentTime (.publishPacket sent) action after) :
      .receivePacket received ∉ action.toList := by
    intro member
    obtain rfl := Option.mem_toList.mp member
    obtain ⟨⟨packet, same⟩, -⟩ := transition.of_receivePacket
    cases same
  cases published with
  | unused => exact List.not_mem_nil
  | stored => simp
  | sent transition => exact unsent transition
  | storedAndSent _ transition => simp [unsent transition]

omit [FxHasher] in
theorem Dismissed.unreceived {packet : MDisconnect} {times : List MqttInstant}
    {actions : List ExpectedAction} (dismissed : Dismissed self packet times actions after)
    (received : ReceivePacket) : .receivePacket received ∉ actions := by
  cases dismissed with
  | unused | sent | reset => simp

theorem connected_of_receivePacket {operation : Operation} {actions : List ExpectedAction}
    {received : ReceivePacket} (ran : self.operate operation = .ok (actions, after))
    (returned : .receivePacket received ∈ actions) : after.isConnected = true := by
  cases MqttClientFSM.performs_of_operate ran with
  | handleConnect | subscribe | acknowledge | connectionLost => simp at returned
  | consume transition | run transition =>
    obtain rfl := Option.mem_toList.mp returned
    obtain ⟨-, connected, rfl⟩ := transition.of_receivePacket
    exact connected
  | publish =>
    exact absurd returned ((MqttClientFSM.published_of_operate ran).unreceived received)
  | disconnect called => exact absurd returned ((dismissed_of_drive called).unreceived received)

/-- The connection outlives these steps, or a later one that they accept does. -/
def StillConnected (trace : List (Entry (MqttClientFSM σ) Operation (List ExpectedAction))) :
    Prop :=
  (trace.flatMap marks).foldl Mark.online true = true

/-- An acknowledgement that the caller was asked for can be handed back exactly when
the connection was not lost since, or another one was accepted behind the last loss. -/
theorem acknowledge_ok_iff
    {front back : List (Entry (MqttClientFSM σ) Operation (List ExpectedAction))}
    {entry : Entry (MqttClientFSM σ) Operation (List ExpectedAction)} {packet : MqttPacket}
    {acknowledge : AcknowledgeAction} (run : Runs self (front ++ entry :: back) after)
    (returned : .receivePacket (.acknowledgeNeeded packet acknowledge) ∈ entry.output)
    (currentTime : MqttInstant) :
    (∃ result, after.acknowledge currentTime acknowledge = .ok result) ↔ StillConnected back := by
  obtain ⟨-, middle, taken, later⟩ := run.of_entry
  rw [MqttClientFSM.acknowledge, MqttClientFSM.send_ok_iff, online_of_runs later,
    connected_of_receivePacket taken returned, StillConnected]

end

section

attribute [local instance] x86_64 unhashed

def incoming : MqttPacket := .publish { atLeastOnce with packetIdentifier := some firstIdentifier }

theorem acknowledge_ok_reconnected : ∃ front entry back final,
    Runs MqttClientFSM.default (front ++ entry :: back) final ∧
      (front ++ [entry]).map (·.input) =
        [.handleConnect ⟨0⟩ anonymousConnect, .consume accepting ⟨0⟩, .consume incoming ⟨0⟩] ∧
      back.map (·.input) =
        [.connectionLost ⟨0⟩, .handleConnect ⟨0⟩ anonymousConnect, .consume accepting ⟨0⟩] ∧
      ((∃ result, final.acknowledge ⟨0⟩ ⟨firstIdentifier⟩ = .ok result) ↔
        StillConnected back) := by
  have asked : ∃ front entry middle, Runs MqttClientFSM.default (front ++ [entry]) middle ∧
      (front ++ [entry]).map (·.input) =
        [.handleConnect ⟨0⟩ anonymousConnect, .consume accepting ⟨0⟩, .consume incoming ⟨0⟩] ∧
      .receivePacket (.acknowledgeNeeded incoming ⟨firstIdentifier⟩) ∈ entry.output ∧
      ∃ back final, Runs middle back final ∧ back.map (·.input) =
        [.connectionLost ⟨0⟩, .handleConnect ⟨0⟩ anonymousConnect, .consume accepting ⟨0⟩] := by
    refine ⟨_, _, _, .next (.next (.next .done rfl) rfl) rfl, rfl, List.mem_cons_self, ?_⟩
    exact ⟨_, _, .next (.next (.next .done rfl) rfl) rfl, rfl⟩
  obtain ⟨front, entry, middle, run, inputs, returned, back, final, later, inputs'⟩ := asked
  have both : Runs MqttClientFSM.default (front ++ entry :: back) final := by
    rw [List.append_cons]
    exact run.append later
  exact ⟨front, entry, back, final, both, inputs, inputs', acknowledge_ok_iff both returned ⟨0⟩⟩

/-- With the connection lost in between, handing back the acknowledgement panics. -/
theorem acknowledge_connectionLost : ∃ trace final,
    Runs MqttClientFSM.default trace final ∧
      trace.map (·.input) = [.handleConnect ⟨0⟩ anonymousConnect, .consume accepting ⟨0⟩,
        .consume incoming ⟨0⟩, .connectionLost ⟨0⟩] ∧
      .receivePacket (.acknowledgeNeeded incoming ⟨firstIdentifier⟩) ∈ trace.flatMap (·.output) ∧
      final.acknowledge ⟨0⟩ ⟨firstIdentifier⟩ =
        .error (.expect "inner_run did not return packet as expected") := by
  refine ⟨_, _, .next (.next (.next (.next .done rfl) rfl) rfl) rfl, rfl, ?_, rfl⟩
  exact List.mem_cons_of_mem _ List.mem_cons_self

end

end Core
