import Cloudmqtt.Client.Connection
import Cloudmqtt.Core.Order
import Mathlib.Logic.Function.Basic

/-! The client handle, the tasks it spawned, and the channels between them. -/

set_option autoImplicit false

namespace Client

open Base Rust V5 Core

inductive Error where
  | notConnected
  | alreadyConnected
  | tokioChannel
  deriving DecidableEq, Repr

section

variable [Target]

inductive ConnectionState where
  | unconnected (client : Fsm)
  | connected (sender : Nat)

/-- Channels are numbered as they are made. The task that took the receiver of
a channel is found under its number. -/
structure CoreClient where
  connectionState : ConnectionState
  connections : Nat → Option Connection
  nextChannel : Nat

namespace CoreClient

def spawn (self : CoreClient) (channel : Nat) (fsm : Fsm) : CoreClient :=
  { self with connections := Function.update self.connections channel (some ⟨.starting fsm, []⟩) }

def new : CoreClient := ⟨.unconnected .default, fun _ => none, 0⟩

def newAndConnect : CoreClient := CoreClient.spawn ⟨.connected 0, fun _ => none, 1⟩ 0 .default

-- `mem::replace` runs inside the pattern of the `let … else`, so the error path has
-- already put the new sender in place of the one that was installed.
/-- The state is replaced before it is looked at. -/
def connect (self : CoreClient) : Except Error Unit × CoreClient :=
  let sender := self.nextChannel
  let replaced := { self with connectionState := .connected sender, nextChannel := sender + 1 }
  match self.connectionState with
  | .unconnected fsm => (.ok (), replaced.spawn sender fsm)
  -- the new receiver is dropped here
  | .connected _ => (.error .alreadyConnected, replaced)

def receiver (self : CoreClient) (sender : Nat) : Option Connection :=
  (self.connections sender).filter (·.phase.isLive)

def enqueue (self : CoreClient) (sender : Nat) (connection : Connection) (usage : SendUsage) :
    CoreClient := { self with
  connections := Function.update self.connections sender
    (some { connection with queue := connection.queue ++ [usage] }) }

/-- `publish` and `subscribe`: the channel holds one packet, and a sender waits for room. -/
def send (self : CoreClient) (usage : SendUsage) : Option (Except Error Unit × CoreClient) :=
  match self.connectionState with
  | .unconnected _ => some (.error .notConnected, self)
  | .connected sender =>
    match self.receiver sender with
    | none => some (.error .tokioChannel, self)
    | some connection =>
      if connection.queue.length < 1 then
        some (.ok (), self.enqueue sender connection usage)
      else none

def finish (self : CoreClient) (channel : Nat) (currentTime : MqttInstant) : Option CoreClient :=
  match self.connections channel with
  | some ⟨.ended fsm, _⟩ => some { self with
      connectionState := .unconnected (fsm.connectionLost currentTime)
      connections := Function.update self.connections channel none }
  | _ => none

end CoreClient

/-! ### Runs -/

inductive ClientEvent where
  | connect
  | send (usage : SendUsage)
  | task (channel : Nat) (event : TaskEvent)
  | finish (channel : Nat) (currentTime : MqttInstant)

inductive ClientOutput where
  | returned (result : Except Error Unit)
  | effects (effects : List Effect)

inductive CoreClient.Steps [FxHasher] (before : CoreClient) :
    ClientEvent → ClientOutput → CoreClient → Prop where
  | connect : Steps before .connect (.returned before.connect.1) before.connect.2
  | send (usage : SendUsage) {result : Except Error Unit} {after : CoreClient} :
      before.send usage = some (result, after) → Steps before (.send usage) (.returned result) after
  | task (channel : Nat) (event : TaskEvent) {connection next : Connection} {effects : List Effect} :
      before.connections channel = some connection →
      connection.step event = some (effects, next) →
      Steps before (.task channel event) (.effects effects) { before with
        connections := Function.update before.connections channel (some next) }
  | finish (channel : Nat) (currentTime : MqttInstant) {after : CoreClient} :
      before.finish channel currentTime = some after →
      Steps before (.finish channel currentTime) (.effects []) after

abbrev ClientTrace : Type := List (Entry CoreClient ClientEvent ClientOutput)

abbrev ClientRuns [FxHasher] : CoreClient → ClientTrace → CoreClient → Prop :=
  Run CoreClient.Steps

inductive CoreClient.Initial : CoreClient → Prop where
  | new : Initial .new
  | newAndConnect : Initial .newAndConnect

namespace CoreClient

variable {before after : CoreClient} {event : ClientEvent} {output : ClientOutput}

/-! ### A refused connect -/

/-- The numbers of channels yet to be made belong to no sender and no task. -/
structure Fresh (client : CoreClient) : Prop where
  sender : ∀ sender, client.connectionState = .connected sender → sender < client.nextChannel
  task : ∀ channel, client.connections channel ≠ none → channel < client.nextChannel

/-- The installed sender belongs to a channel that nobody receives on. -/
def Stranded (self : CoreClient) : Prop :=
  ∃ sender, self.connectionState = .connected sender ∧ self.connections sender = none

theorem Fresh.update {self : CoreClient} (fresh : self.Fresh) {channel : Nat}
    {connection : Option Connection} (known : channel < self.nextChannel) :
    ∀ other, Function.update self.connections channel connection other ≠ none →
      other < self.nextChannel := by
  intro other present
  by_cases same : other = channel
  · exact same ▸ known
  · rw [Function.update_of_ne same] at present
    exact fresh.task other present

theorem Initial.fresh {start : CoreClient} (initial : start.Initial) : start.Fresh := by
  cases initial with
  | new =>
    exact ⟨fun _ same => by simp [CoreClient.new] at same, fun _ present => absurd rfl present⟩
  | newAndConnect =>
    refine ⟨fun sender same => ?_, fun channel present => ?_⟩
    · obtain rfl : 0 = sender := ConnectionState.connected.inj same
      exact Nat.one_pos
    · by_cases same : channel = 0
      · exact same ▸ Nat.one_pos
      · exact absurd (Function.update_of_ne same _ _) present

def Closed (self : CoreClient) : Prop :=
  ∀ sender, self.connectionState = .connected sender → self.receiver sender = none

theorem send_error_iff {self : CoreClient} {usage : SendUsage} :
    (∃ e after, self.send usage = some (.error e, after)) ↔ self.Closed := by
  unfold send Closed
  cases self.connectionState with
  | unconnected fsm => simp
  | connected sender =>
    cases found : self.receiver sender with
    | none => simp [found]
    | some connection =>
      refine iff_of_false ?_ fun closed => by simp [found] at closed
      rintro ⟨e, after, failed⟩
      simp only [found] at failed
      split at failed <;> simp at failed

theorem send_error {self : CoreClient} {usage : SendUsage} {e : Error}
    (failed : self.send usage = some (.error e, after)) : after = self := by
  unfold send at failed
  split at failed
  next => exact (Prod.mk.inj (Option.some.inj failed)).2.symm
  next =>
    split at failed
    next => exact (Prod.mk.inj (Option.some.inj failed)).2.symm
    next => split at failed <;> simp at failed

theorem send_ok {self : CoreClient} {usage : SendUsage}
    (sent : self.send usage = some (.ok (), after)) :
    ∃ sender connection, self.connectionState = .connected sender ∧
      self.receiver sender = some connection ∧ connection.queue = [] ∧
      after = self.enqueue sender connection usage := by
  unfold send at sent
  split at sent
  next => simp at sent
  next sender connected =>
    split at sent
    next => simp at sent
    next connection found =>
      split at sent
      next room =>
        exact ⟨sender, connection, connected, found, List.length_eq_zero_iff.mp (by omega),
          (Prod.mk.inj (Option.some.inj sent)).2.symm⟩
      next => simp at sent

theorem send_eq_some {self : CoreClient} {usage : SendUsage} {result : Except Error Unit}
    (sent : self.send usage = some (result, after)) :
    after = self ∨ ∃ sender connection, self.connectionState = .connected sender ∧
      self.connections sender = some connection ∧ connection.phase.isLive = true ∧
      after = self.enqueue sender connection usage := by
  cases result with
  | error e => exact .inl (send_error sent)
  | ok u =>
    obtain ⟨sender, connection, connected, found, -, rfl⟩ := send_ok sent
    obtain ⟨present, live⟩ := Option.filter_eq_some_iff.mp found
    exact .inr ⟨sender, connection, connected, present, live, rfl⟩

theorem send_ok_ne {self : CoreClient} {usage : SendUsage}
    (sent : self.send usage = some (.ok (), after)) : after ≠ self := by
  obtain ⟨sender, connection, -, found, empty, rfl⟩ := send_ok sent
  obtain ⟨present, -⟩ := Option.filter_eq_some_iff.mp found
  intro same
  have queues := congrArg (fun client => (client.connections sender).map (·.queue)) same
  simp [enqueue, present, empty] at queues

theorem finish_eq_some {self : CoreClient} {channel : Nat} {currentTime : MqttInstant}
    (finished : self.finish channel currentTime = some after) :
    ∃ fsm queue, self.connections channel = some ⟨.ended fsm, queue⟩ ∧ after = { self with
      connectionState := .unconnected (fsm.connectionLost currentTime)
      connections := Function.update self.connections channel none } := by
  unfold finish at finished
  split at finished
  next fsm queue found => exact ⟨fsm, queue, found, (Option.some.inj finished).symm⟩
  next => simp at finished

theorem Fresh.step [FxHasher] (fresh : before.Fresh) (step : Steps before event output after) :
    after.Fresh := by
  cases step with
  | connect =>
    unfold connect
    split
    next =>
      refine ⟨fun sender same => ?_, fun channel present => ?_⟩
      · obtain rfl := ConnectionState.connected.inj same
        exact Nat.lt_succ_self _
      · by_cases same : channel = before.nextChannel
        · exact same ▸ Nat.lt_succ_self _
        · refine Nat.lt_succ_of_lt (fresh.task channel fun none => present ?_)
          exact (Function.update_of_ne same _ _).trans none
    next =>
      refine ⟨fun sender same => ?_, fun channel present => ?_⟩
      · obtain rfl := ConnectionState.connected.inj same
        exact Nat.lt_succ_self _
      · exact Nat.lt_succ_of_lt (fresh.task channel present)
  | send _ sent =>
    rcases send_eq_some sent with rfl | ⟨sender, connection, connected, -, -, rfl⟩
    · exact fresh
    · exact ⟨fresh.sender, fresh.update (fresh.sender sender connected)⟩
  | task channel _ found taken =>
    exact ⟨fresh.sender, fresh.update (fresh.task channel (by simp [found]))⟩
  | finish channel _ finished =>
    obtain ⟨fsm, queue, found, rfl⟩ := finish_eq_some finished
    exact ⟨fun _ same => by simp at same, fresh.update (fresh.task channel (by simp [found]))⟩

/-- A refused call leaves a sender behind whose receiver is gone. -/
theorem stranded_of_refused (fresh : before.Fresh)
    (refused : before.connect = (.error .alreadyConnected, after)) :
    after.Stranded ∧ after.connectionState ≠ before.connectionState := by
  unfold connect at refused
  split at refused
  next => simp at refused
  next sender connected =>
    obtain rfl := (Prod.mk.inj refused).2
    refine ⟨⟨before.nextChannel, rfl, ?_⟩, fun same => ?_⟩
    · by_contra present
      exact absurd (fresh.task _ present) (Nat.lt_irrefl _)
    · exact absurd (fresh.sender _ same.symm) (Nat.lt_irrefl _)

theorem Stranded.send {self : CoreClient} (stranded : self.Stranded) (usage : SendUsage) :
    self.send usage = some (.error .tokioChannel, self) := by
  obtain ⟨sender, connected, gone⟩ := stranded
  simp only [CoreClient.send, connected, receiver, gone, Option.filter_none]

theorem Stranded.step [FxHasher] (fresh : before.Fresh) (stranded : before.Stranded)
    (step : Steps before event output after) (unfinished : ∀ channel t, event ≠ .finish channel t) :
    after.Stranded := by
  obtain ⟨sender, connected, gone⟩ := stranded
  cases step with
  | connect =>
    refine (stranded_of_refused fresh ?_).1
    rw [connect, connected]
  | send _ sent =>
    rw [Stranded.send ⟨sender, connected, gone⟩] at sent
    obtain rfl := (Prod.mk.inj (Option.some.inj sent)).2
    exact ⟨sender, connected, gone⟩
  | task channel _ found taken =>
    refine ⟨sender, connected, ?_⟩
    have other : sender ≠ channel := fun same => by simp [← same, gone] at found
    exact (Function.update_of_ne other _ _).trans gone
  | finish => exact absurd rfl (unfinished _ _)

def Unfinished (entry : Entry CoreClient ClientEvent ClientOutput) : Prop :=
  ∀ channel currentTime, entry.input ≠ .finish channel currentTime

theorem fresh_of_runs [FxHasher] {start final : CoreClient} {trace : ClientTrace}
    (fresh : start.Fresh) (run : ClientRuns start trace final) : final.Fresh :=
  run.always (fun _ client => client.Fresh) fresh fun kept step => kept.step step

/-- A call of `connect` that is refused replaces the installed sender, and until
a task ends nothing can be sent any more. -/
theorem connect_refused [FxHasher] {start client : CoreClient} {trace : ClientTrace}
    (initial : start.Initial) (run : ClientRuns start trace client)
    (refused : client.connect = (.error .alreadyConnected, after)) :
    after.connectionState ≠ client.connectionState ∧
      ∀ {later : ClientTrace} {final : CoreClient}, ClientRuns after later final →
        EveryStep (fun _ => Unfinished) later →
        ∀ usage, final.send usage = some (.error .tokioChannel, final) := by
  have fresh := fresh_of_runs initial.fresh run
  obtain ⟨stranded, replaced⟩ := stranded_of_refused fresh refused
  refine ⟨replaced, fun {later final} run unfinished usage => Stranded.send ?_ usage⟩
  have freshAfter : after.Fresh := by
    have stepped := fresh.step .connect
    rwa [refused] at stepped
  have invariant : final.Fresh ∧ final.Stranded := run.invariant
    (fun _ client => client.Fresh ∧ client.Stranded) ⟨freshAfter, stranded⟩
    (fun kept unfinished step => ⟨kept.1.step step, kept.2.step kept.1 step unfinished⟩) unfinished
  exact invariant.2

end CoreClient

end

/-! ### A session with one task -/

namespace CoreClient

attribute [local instance] x86_64 unhashed

def taking : Transport := fun _ => .ok true

def acceptedSession : List ClientEvent :=
  [.task 0 (.start ⟨0⟩ taking), .task 0 (.incoming accepting ⟨0⟩ taking)]

def acceptedFsm : Fsm where
  data := ⟨0, some 0, ⟨0⟩⟩
  connectionState := .connected ⟨⟨0⟩, .waitingForElapsed⟩
  clientPis := .new

theorem connect_refused_accepted :
    ∃ trace client, ClientRuns .newAndConnect trace client ∧
      trace.map (·.input) = acceptedSession ∧
      (client.connect.2.connectionState ≠ client.connectionState ∧
        ∀ {later : ClientTrace} {final : CoreClient}, ClientRuns client.connect.2 later final →
          EveryStep (fun _ => Unfinished) later →
          ∀ usage, final.send usage = some (.error .tokioChannel, final)) := by
  have run : ClientRuns .newAndConnect _ _ := .next (.next .done
    (.task 0 (.start ⟨0⟩ taking) rfl rfl)) (.task 0 (.incoming accepting ⟨0⟩ taking) rfl rfl)
  exact ⟨_, _, run, rfl, connect_refused .newAndConnect run rfl⟩

/-- The task goes on, but the client has lost its sender. -/
theorem connect_strands :
    ∃ trace client, ClientRuns .newAndConnect trace client ∧
      trace.map (·.input) = acceptedSession ∧
      client.connections 0 = some ⟨.running acceptedFsm, []⟩ ∧
      client.connect.1 = .error .alreadyConnected ∧
      client.connect.2.connectionState ≠ client.connectionState ∧
      client.connect.2.send (.publish (.publish atLeastOnce)) =
        some (.error .tokioChannel, client.connect.2) := by
  refine ⟨_, _, .next (.next .done (.task 0 (.start ⟨0⟩ taking) rfl rfl))
    (.task 0 (.incoming accepting ⟨0⟩ taking) rfl rfl), rfl, rfl, rfl, fun same => ?_, rfl⟩
  exact absurd (ConnectionState.connected.inj same) (by decide)

end CoreClient

end Client
