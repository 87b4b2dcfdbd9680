import Cloudmqtt.Base.Exchange
import Cloudmqtt.Core.Order

/-! The PINGREQs that are sent and the PINGRESPs that are taken, connection by connection. -/

set_option autoImplicit false

namespace Core

open Base Rust V5

variable {σ : Type}

/-! ### Connections of a run -/

def connectionStep (since : Trace σ)
    (entry : Entry (MqttClientFSM σ) Operation (List ExpectedAction)) : Trace σ :=
  match entry.input with
  | .handleConnect _ _ => [entry]
  | _ => since ++ [entry]

/-- The steps since the last CONNECT, which is the first of them. -/
def connectionOf (trace : Trace σ) : Trace σ := trace.foldl connectionStep []

theorem connectionOf_snoc (trace : Trace σ)
    (entry : Entry (MqttClientFSM σ) Operation (List ExpectedAction)) :
    connectionOf (trace ++ [entry]) = connectionStep (connectionOf trace) entry := by
  rw [connectionOf, List.foldl_append]
  rfl

def ExternalInfos.pings (connected : Bool) : ExternalInfos → List Exchange
  | .consumePacket (.pingresp _) => if connected then [.response] else []
  | _ => []

theorem ExternalInfos.pings_false (infos : ExternalInfos) : infos.pings false = [] := by
  unfold ExternalInfos.pings
  split <;> rfl

def Operation.pings (connected : Bool) : Operation → List Exchange
  | .consume packet _ => (ExternalInfos.consumePacket packet).pings connected
  | _ => []

def ExpectedAction.pings : ExpectedAction → List Exchange
  | .sendPacket (.pingreq _) => [.request]
  | _ => []

def pings (entry : Entry (MqttClientFSM σ) Operation (List ExpectedAction)) : List Exchange :=
  entry.input.pings entry.before.isConnected ++ entry.output.flatMap ExpectedAction.pings

def connectionPings (trace : Trace σ) : List Exchange := (connectionOf trace).flatMap pings

theorem connectionPings_snoc (trace : Trace σ)
    {entry : Entry (MqttClientFSM σ) Operation (List ExpectedAction)}
    (later : ∀ currentTime connect, entry.input ≠ .handleConnect currentTime connect) :
    connectionPings (trace ++ [entry]) = connectionPings trace ++ pings entry := by
  rw [connectionPings, connectionOf_snoc, connectionStep]
  split
  next same => exact absurd same (later _ _)
  next => rw [List.flatMap_append, List.flatMap_singleton, connectionPings]

/-! ### What the machine waits for -/

def Awaits (events : List Exchange) (pending : Bool) : ConnectionState → Prop
  | .disconnected => True
  | .connectingWithoutAuth _ => events = []
  | .connected con => con.pingState = .waitingForElapsed ↔ pending = false

def Pinging (events : List Exchange) (state : ConnectionState) : Prop :=
  ∃ pending, Alternates events pending ∧ Awaits events pending state

theorem Pinging.quiet {events : List Exchange} {state : ConnectionState}
    (pinging : Pinging events state) : Pinging (events ++ []) state := by
  rw [List.append_nil]
  exact pinging

theorem Pinging.reset {events : List Exchange} {state : ConnectionState}
    (pinging : Pinging events state) : Pinging (events ++ []) .disconnected := by
  obtain ⟨pending, alternates, -⟩ := pinging
  rw [List.append_nil]
  exact ⟨pending, alternates, trivial⟩

section

variable [PacketIdentifierStore σ] [FxHasher] {self after : MqttClientFSM σ}
  {currentTime : MqttInstant} {events : List Exchange}

theorem MqttClientFSM.Transition.pinging {infos : ExternalInfos} {action : Option ExpectedAction}
    (transition : self.Transition currentTime infos action after)
    (quiet : ∀ packet, infos = .publishPacket packet →
      (ExpectedAction.sendPacket packet).pings = [])
    (pinging : Pinging events self.connectionState) :
    Pinging (events ++ (infos.pings self.isConnected ++
      action.toList.flatMap ExpectedAction.pings)) after.connectionState := by
  cases transition with
  | disconnected disconnected =>
    rw [isConnected_of_disconnected disconnected, ExternalInfos.pings_false]
    exact pinging.quiet
  | awaited | received | receivedOnce => exact pinging.quiet
  | @connack _ connack _ _ connecting ran =>
    obtain ⟨-, -, rfl⟩ := handleConnack_eq_ok ran
    obtain ⟨pending, alternates, awaits⟩ := pinging
    rw [connecting] at awaits
    obtain rfl : events = [] := awaits
    obtain rfl := alternates.pending_of_nil
    rw [flatMap_handleConnack (fun _ => rfl) ran]
    exact ⟨false, .nil, iff_of_true rfl rfl⟩
  | disconnect => exact pinging.reset
  | puback _ ran | suback _ ran =>
    obtain ⟨_, rfl, -⟩ := releaseContained_eq_ok ran
    exact pinging.quiet
  | pingresp connected waiting =>
    obtain ⟨pending, alternates, awaits⟩ := pinging
    rw [connected, Awaits, waiting] at awaits
    have answered : pending = true := by
      cases pending with
      | false => exact absurd (awaits.mpr rfl) (by simp)
      | true => rfl
    subst answered
    rw [isConnected_of_connected connected]
    exact ⟨false, .response alternates, iff_of_true rfl rfl⟩
  | @sent _ packet connected =>
    rw [connected] at pinging
    have silent := quiet packet rfl
    simp only [Option.toList_some, List.flatMap_cons, List.flatMap_nil, silent]
    exact pinging.quiet
  | @elapsed con connected =>
    rcases self.ping_due con currentTime with ⟨due, pinged⟩ | ⟨-, pinged⟩
    · obtain ⟨pending, alternates, awaits⟩ := pinging
      rw [connected] at awaits
      obtain rfl : pending = false := awaits.mp due.2.1
      rw [pinged]
      exact ⟨true, .request alternates, iff_of_false (by simp) (by simp)⟩
    · rw [pinged]
      exact pinging.quiet

theorem Published.pinging {packet : MPublish} {times : List MqttInstant}
    {actions : List ExpectedAction} (published : Published self packet times actions after)
    (pinging : Pinging events self.connectionState) :
    Pinging (events ++ actions.flatMap ExpectedAction.pings) after.connectionState := by
  cases published with
  | unused | stored => exact pinging.quiet
  | sent transition | storedAndSent _ transition =>
    exact transition.pinging (fun packet same => by cases same; rfl) pinging

omit [FxHasher] in
theorem Dismissed.pinging {packet : MDisconnect} {times : List MqttInstant}
    {actions : List ExpectedAction} (dismissed : Dismissed self packet times actions after)
    (pinging : Pinging events self.connectionState) :
    Pinging (events ++ actions.flatMap ExpectedAction.pings) after.connectionState := by
  cases dismissed with
  | unused | sent => exact pinging.quiet
  | reset => exact pinging.reset

/-- Every operation keeps the pings of its connection in turns; a CONNECT starts a
connection without any. -/
theorem operate_pinging {trace : Trace σ} {operation : Operation} {actions : List ExpectedAction}
    (ran : self.operate operation = .ok (actions, after))
    (pinging : Pinging (connectionPings trace) self.connectionState) :
    Pinging (connectionPings (trace ++ [⟨self, operation, actions⟩])) after.connectionState := by
  cases MqttClientFSM.performs_of_operate ran with
  | handleConnect =>
    rw [connectionPings, connectionOf_snoc]
    exact ⟨false, .nil, rfl⟩
  | consume transition | run transition =>
    rw [connectionPings_snoc]
    · exact transition.pinging (fun _ same => nomatch same) pinging
    · exact fun _ _ same => nomatch same
  | publish =>
    rw [connectionPings_snoc]
    · exact (MqttClientFSM.published_of_operate ran).pinging pinging
    · exact fun _ _ same => nomatch same
  | subscribe _ connected | acknowledge connected =>
    rw [connected] at pinging
    rw [connectionPings_snoc]
    · exact pinging.quiet
    · exact fun _ _ same => nomatch same
  | disconnect called =>
    rw [connectionPings_snoc]
    · exact (dismissed_of_drive called).pinging pinging
    · exact fun _ _ same => nomatch same
  | connectionLost =>
    rw [connectionPings_snoc]
    · exact pinging.reset
    · exact fun _ _ same => nomatch same

theorem pinging_of_runs {clientPis : σ} {trace : Trace σ}
    (run : Runs (.new clientPis) trace after) :
    Pinging (connectionPings trace) after.connectionState := by
  induction run with
  | done => exact ⟨false, .nil, trivial⟩
  | next _ taken ih => exact operate_pinging taken ih

/-! ### Runs -/

/-- The pings of a connection, as far as it got: in turns, first a PINGREQ. -/
structure Paired (events : List Exchange) : Prop where
  turns : (Exchange.response :: events).IsChain (· ≠ ·)
  single : events.count .request ≤ events.count .response + 1

omit [PacketIdentifierStore σ] [FxHasher] in
theorem Pinging.paired {state : ConnectionState} (pinging : Pinging events state) :
    Paired events := by
  obtain ⟨pending, alternates, -⟩ := pinging
  exact ⟨alternates.isChain, alternates.count_le⟩

omit [PacketIdentifierStore σ] [FxHasher] in
theorem Pinging.waiting_iff {state : ConnectionState} {con : Connected}
    (pinging : Pinging events state) (connected : state = .connected con) :
    con.pingState ≠ .waitingForElapsed ↔ Unanswered events := by
  obtain ⟨pending, alternates, awaits⟩ := pinging
  rw [connected] at awaits
  rw [alternates.unanswered_iff, Ne, awaits.not, Bool.not_eq_false]

theorem consume_pingresp (pinging : Pinging events self.connectionState)
    (unanswered : Unanswered events) (pingresp : MPingresp) (currentTime : MqttInstant) :
    ∃ result, self.consume (.pingresp pingresp) currentTime = .ok result := by
  obtain ⟨pending, alternates, awaits⟩ := pinging
  obtain rfl := alternates.unanswered_iff.mp unanswered
  cases state : self.connectionState with
  | disconnected =>
    rw [MqttClientFSM.consume, MqttClientFSM.innerRun_disconnected currentTime state]
    exact ⟨_, rfl⟩
  | connectingWithoutAuth conn =>
    rw [state] at awaits
    obtain rfl : events = [] := awaits
    cases alternates.pending_of_nil
  | connected con =>
    rw [state] at awaits
    cases waiting : con.pingState with
    | waitingForElapsed => cases awaits.mp waiting
    | waitingForPingrespSince since =>
      rw [MqttClientFSM.consume, MqttClientFSM.innerRun, MqttClientFSM.handle, state]
      simp only [MqttClientFSM.handleConnected, state, MqttClientFSM.consumePacket, waiting]
      exact ⟨_, rfl⟩

-- The answers of a server that breaks the rule make the machine panic, so that the
-- steps of a run are all within it.
/-- On every connection of a run PINGREQs and PINGRESPs come in turns, an answer to an
unanswered PINGREQ of the connection is taken, and no other answer is waited for. -/
theorem pings_of_runs {clientPis : σ} {trace : Trace σ}
    (run : Runs (.new clientPis) trace after) :
    (∀ front back, trace = front ++ back → Paired (connectionPings front)) ∧
      (Unanswered (connectionPings trace) → ∀ pingresp currentTime, ∃ result,
        after.consume (.pingresp pingresp) currentTime = .ok result) ∧
      ∀ con, after.connectionState = .connected con →
        (con.pingState ≠ .waitingForElapsed ↔ Unanswered (connectionPings trace)) := by
  have pinging := pinging_of_runs run
  refine ⟨?_, consume_pingresp pinging, ?_⟩
  · rintro front back rfl
    obtain ⟨middle, earlier, -⟩ := run.of_append
    exact (pinging_of_runs earlier).paired
  · intro con connected
    exact pinging.waiting_iff connected

end

section

attribute [local instance] x86_64 unhashed

def keptAlive : MConnect := { anonymousConnect with keepAlive := 1 }

theorem pings_of_runs_reconnected : ∃ trace final,
    Runs MqttClientFSM.default trace final ∧
      trace.map (·.input) = [.handleConnect ⟨0⟩ keptAlive, .consume accepting ⟨0⟩, .run ⟨1⟩,
        .connectionLost ⟨1⟩, .handleConnect ⟨0⟩ keptAlive, .consume accepting ⟨0⟩, .run ⟨1⟩] ∧
      (∀ front back, trace = front ++ back → Paired (connectionPings front)) ∧
      (Unanswered (connectionPings trace) → ∀ pingresp currentTime, ∃ result,
        final.consume (.pingresp pingresp) currentTime = .ok result) ∧
      ∀ con, final.connectionState = .connected con →
        (con.pingState ≠ .waitingForElapsed ↔ Unanswered (connectionPings trace)) := by
  have session : ∃ trace final, Runs MqttClientFSM.default trace final ∧
      trace.map (·.input) = [.handleConnect ⟨0⟩ keptAlive, .consume accepting ⟨0⟩, .run ⟨1⟩,
        .connectionLost ⟨1⟩, .handleConnect ⟨0⟩ keptAlive, .consume accepting ⟨0⟩, .run ⟨1⟩] :=
    ⟨_, _, .next (.next (.next (.next (.next (.next (.next .done rfl) rfl) rfl) rfl) rfl) rfl) rfl,
      rfl⟩
  obtain ⟨trace, final, run, inputs⟩ := session
  exact ⟨trace, final, run, inputs, pings_of_runs run⟩

end

end Core
