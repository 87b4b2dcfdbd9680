import Cloudmqtt.Core.Operations

/-! The task of one connection: it feeds the state machine and carries out what it asks for. -/

set_option autoImplicit false

namespace Client

open Base Rust V5 Core

inductive SendUsage where
  | publish (packet : MqttPacket)
  | subscribe (packet : MqttPacket)

/-- What the task hands on, to the writer or to the router's channel. -/
inductive Effect where
  | sent (packet : MqttPacket)
  | forwarded (packet : MqttPacket)

/-- Where a task unwinds: inside a call of the state machine, in a send, or
in the code around them. -/
inductive TaskFault where
  | machine (p : Panic)
  | transport (p : Panic)
  | driver (p : Panic)

/-- How the writer and the channel meet an effect: they take it, return an
error, or unwind while they encode it. -/
abbrev Transport : Type := Effect → Except Panic Bool

abbrev Driven (α : Type) : Type := Emit TaskFault Effect α

def carry (transport : Transport) (failure : Panic) (effect : Effect) : Driven Unit :=
  match transport effect with
  | .ok true => Emit.write [effect]
  | .ok false => Emit.fault (.transport failure)
  | .error p => Emit.fault (.transport p)

-- The last line is the `unreachable!()` behind the two actions that have a case.
def handleAction (transport : Transport) : ExpectedAction → Driven Unit
  | .sendPacket packet => carry transport (.expect "Could not send packet") (.sent packet)
  | .receivePacket (.noFurtherAction packet) => carry transport .unwrapError (.forwarded packet)
  | _ => Emit.fault (.driver .unreachable)

def handleSome (transport : Transport) : Option ExpectedAction → Driven Unit
  | some action => handleAction transport action
  | none => pure ()

def machine {α : Type} : Except Panic α → Driven α
  | .ok a => pure a
  | .error p => Emit.fault (.machine p)

def connectPacket : MConnect := ⟨"cloudmqtt-0", none, none, true, none, .new connectFields, 0⟩

section

variable {σ : Type} [PacketIdentifierStore σ] [FxHasher]

/-- The calls a publisher has left in which it can return an action. -/
def remaining : PublishingState → Nat
  | .store => 2
  | .send => 1
  | .done => 0

theorem remaining_lt {publisher next : MqttClientPublisher σ} {currentTime : MqttInstant}
    {action : ExpectedAction} (ran : publisher.run currentTime = .ok (some action, next)) :
    remaining next.state < remaining publisher.state := by
  cases MqttClientPublisher.call_of_run ran with
  | store state => simp [state, remaining]
  | send state => simp [state, remaining]

/-- The loop over the publisher's actions; each call reads the clock. -/
def publishActions (transport : Transport) (clock : Nat → MqttInstant)
    (publisher : MqttClientPublisher σ) : Driven (MqttClientPublisher σ) :=
  match ran : publisher.run (clock 0) with
  | .error p => Emit.fault (.machine p)
  | .ok (none, publisher) => pure publisher
  | .ok (some action, publisher) => do
    handleAction transport action
    publishActions transport (fun n => clock (n + 1)) publisher
termination_by remaining publisher.state
decreasing_by exact remaining_lt ran

/-! ### The parts of `handle_connection` -/

def greet (transport : Transport) (fsm : MqttClientFSM σ) (currentTime : MqttInstant) :
    Driven (MqttClientFSM σ) := do
  let (action, fsm) ← machine (fsm.handleConnect currentTime connectPacket)
  match action with
  | .sendPacket packet =>
    carry transport (.expect "Could not send message") (.sent packet)
    pure fsm
  | _ => Emit.fault (.driver .unreachable)

def consumeIncoming (transport : Transport) (fsm : MqttClientFSM σ) (packet : MqttPacket)
    (currentTime : MqttInstant) : Driven (MqttClientFSM σ) := do
  let (action, fsm) ← machine (fsm.consume packet currentTime)
  handleSome transport action
  pure fsm

/-- A queued packet of the wrong kind does not convert. -/
def sendQueued (transport : Transport) (fsm : MqttClientFSM σ) (usage : SendUsage)
    (clock : Nat → MqttInstant) (currentTime : MqttInstant) : Driven (MqttClientFSM σ) :=
  match usage with
  | .publish (.publish packet) => do
    let publisher ← publishActions transport clock (fsm.publish packet)
    let (action, fsm) ← machine (publisher.client.run currentTime)
    handleSome transport action
    pure fsm
  | .subscribe (.subscribe packet) => do
    let (action, fsm) ← machine (fsm.subscribe currentTime packet)
    handleAction transport action
    pure fsm
  | _ => Emit.fault (.driver .unwrapError)

end

/-! ### The task and its channel -/

variable [Target]

abbrev Fsm : Type := MqttClientFSM UsizePacketIdentifierStore

inductive Phase where
  | starting (fsm : Fsm)
  | running (fsm : Fsm)
  | ended (fsm : Fsm)
  | unwound (fault : TaskFault)

/-- The receiver lives as long as `handle_connection` runs. -/
def Phase.isLive : Phase → Bool
  | starting _ | running _ => true
  | ended _ | unwound _ => false

structure Connection where
  phase : Phase
  queue : List SendUsage

inductive TaskEvent where
  | start (currentTime : MqttInstant) (transport : Transport)
  | incoming (packet : MqttPacket) (currentTime : MqttInstant) (transport : Transport)
  | toSend (clock : Nat → MqttInstant) (currentTime : MqttInstant) (transport : Transport)
  | readerClosed

namespace Connection

def settle (self : Connection) (ran : Driven Fsm) : List Effect × Connection :=
  (ran.emitted, { self with
    phase := match ran.outcome with
      | .ok fsm => .running fsm
      | .error fault => .unwound fault })

variable [FxHasher]

/-- The second arm of the `select!` is enabled while the machine is connected. -/
def step (self : Connection) (event : TaskEvent) : Option (List Effect × Connection) :=
  match self.phase, event with
  | .starting fsm, .start currentTime transport =>
    some (self.settle (greet transport fsm currentTime))
  | .running fsm, .incoming packet currentTime transport =>
    some (self.settle (consumeIncoming transport fsm packet currentTime))
  | .running fsm, .toSend clock currentTime transport =>
    match self.queue with
    | usage :: queue =>
      if fsm.isConnected then
        some ({ self with queue := queue }.settle (sendQueued transport fsm usage clock currentTime))
      else none
    | [] => none
  | .running fsm, .readerClosed => some ([], { self with phase := .ended fsm })
  | _, _ => none

inductive Steps (self : Connection) : TaskEvent → List Effect × Connection → Prop where
  | start {fsm : Fsm} {currentTime : MqttInstant} {transport : Transport} :
      self.phase = .starting fsm →
      Steps self (.start currentTime transport) (self.settle (greet transport fsm currentTime))
  | incoming {fsm : Fsm} {packet : MqttPacket} {currentTime : MqttInstant} {transport : Transport} :
      self.phase = .running fsm →
      Steps self (.incoming packet currentTime transport)
        (self.settle (consumeIncoming transport fsm packet currentTime))
  | toSend {fsm : Fsm} {usage : SendUsage} {queue : List SendUsage} {clock : Nat → MqttInstant}
      {currentTime : MqttInstant} {transport : Transport} :
      self.phase = .running fsm → self.queue = usage :: queue → fsm.isConnected = true →
      Steps self (.toSend clock currentTime transport)
        ({ self with queue := queue }.settle (sendQueued transport fsm usage clock currentTime))
  | readerClosed {fsm : Fsm} : self.phase = .running fsm →
      Steps self .readerClosed ([], { self with phase := .ended fsm })

theorem steps_of_step {self : Connection} {event : TaskEvent} {result : List Effect × Connection}
    (taken : self.step event = some result) : self.Steps event result := by
  unfold step at taken
  split at taken
  next fsm currentTime transport phase =>
    obtain rfl := Option.some.inj taken
    exact .start phase
  next fsm packet currentTime transport phase =>
    obtain rfl := Option.some.inj taken
    exact .incoming phase
  next fsm clock currentTime transport phase =>
    split at taken
    next usage queue waiting =>
      split at taken
      next connected =>
        obtain rfl := Option.some.inj taken
        exact .toSend phase waiting connected
      next => simp at taken
    next => simp at taken
  next fsm phase =>
    obtain rfl := Option.some.inj taken
    exact .readerClosed phase
  next => simp at taken

end Connection

end Client
