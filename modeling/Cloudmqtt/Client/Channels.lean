import Cloudmqtt.Client.CoreClient

/-! What the steps of a client do to one of its channels, and what became of the
packets that were accepted on it.
-/

set_option autoImplicit false

namespace Client

open Base Rust V5 Core

section

variable [Target]

def accepted (channel : Nat) (entry : Entry CoreClient ClientEvent ClientOutput) :
    List SendUsage :=
  match entry.input, entry.output with
  | .send usage, .returned (.ok ()) =>
    match entry.before.connectionState with
    | .connected sender => if sender = channel then [usage] else []
    | .unconnected _ => []
  | _, _ => []

def handled (channel : Nat) (entry : Entry CoreClient ClientEvent ClientOutput) :
    List SendUsage :=
  match entry.input with
  | .task other (.toSend _ _ _) =>
    if other = channel then (entry.before.connections channel).toList.flatMap (·.queue.take 1)
    else []
  | _ => []

/-- What a step of the channel's task handed on. -/
def effectsOn (channel : Nat) (entry : Entry CoreClient ClientEvent ClientOutput) : List Effect :=
  match entry.input, entry.output with
  | .task other _, .effects effects => if other = channel then effects else []
  | _, _ => []

namespace CoreClient

structure Silent (channel : Nat) (entry : Entry CoreClient ClientEvent ClientOutput) : Prop where
  accepted : accepted channel entry = []
  handled : handled channel entry = []
  effects : effectsOn channel entry = []
  elsewhere : ∀ event, entry.input ≠ .task channel event

/-- The steps as one channel sees them. -/
inductive OnChannel [FxHasher] (channel : Nat)
    (entry : Entry CoreClient ClientEvent ClientOutput) :
    Option Connection → Option Connection → Prop where
  | idle {connection : Option Connection} : Silent channel entry →
      OnChannel channel entry connection connection
  | opened {fsm : Fsm} : Silent channel entry → channel = entry.before.nextChannel →
      OnChannel channel entry none (some ⟨.starting fsm, []⟩)
  | queued {connection : Connection} {usage : SendUsage} : connection.phase.isLive = true →
      connection.queue = [] → accepted channel entry = [usage] → entry.input = .send usage →
      OnChannel channel entry (some connection) (some { connection with queue := [usage] })
  | stepped {connection next : Connection} {event : TaskEvent} {effects : List Effect} :
      entry.input = .task channel event → entry.output = .effects effects →
      connection.step event = some (effects, next) →
      OnChannel channel entry (some connection) (some next)
  | closed {fsm : Fsm} {queue : List SendUsage} : Silent channel entry →
      OnChannel channel entry (some ⟨.ended fsm, queue⟩) none

theorem Initial.connection {start : CoreClient} (initial : start.Initial) {channel : Nat}
    {connection : Connection} (found : start.connections channel = some connection) :
    connection = ⟨.starting .default, []⟩ := by
  cases initial with
  | new => cases found
  | newAndConnect =>
    change Function.update _ 0 _ channel = _ at found
    by_cases same : channel = 0
    · rw [same, Function.update_self] at found
      exact (Option.some.inj found).symm
    · rw [Function.update_of_ne same] at found
      cases found

theorem connect_connections (self : CoreClient) :
    self.connect.2.connections = self.connections ∨
      ∃ fsm, self.connect.2.connections =
        Function.update self.connections self.nextChannel (some ⟨.starting fsm, []⟩) := by
  unfold connect
  split
  next fsm _ => exact .inr ⟨fsm, rfl⟩
  next => exact .inl rfl

variable [FxHasher] {before after : CoreClient} {event : ClientEvent} {output : ClientOutput}

theorem Steps.onChannel (fresh : before.Fresh) (step : Steps before event output after)
    (channel : Nat) : OnChannel channel ⟨before, event, output⟩ (before.connections channel)
      (after.connections channel) := by
  cases step with
  | connect =>
    have silent : Silent channel ⟨before, .connect, .returned before.connect.1⟩ :=
      ⟨rfl, rfl, rfl, by simp⟩
    rcases before.connect_connections with same | ⟨fsm, opened⟩
    · rw [same]
      exact .idle silent
    · rw [opened]
      by_cases same : channel = before.nextChannel
      · have none : before.connections channel = none := by
          by_contra present
          exact absurd (fresh.task _ present) (same ▸ Nat.lt_irrefl _)
        rw [none, same, Function.update_self, ← same]
        exact .opened silent same
      · rw [Function.update_of_ne same]
        exact .idle silent
  | @send usage result _ sent =>
    cases result with
    | error e =>
      rw [send_error sent]
      exact .idle ⟨rfl, rfl, rfl, by simp⟩
    | ok u =>
      obtain ⟨sender, connection, connected, found, empty, rfl⟩ := send_ok sent
      obtain ⟨present, live⟩ := Option.filter_eq_some_iff.mp found
      change OnChannel _ _ _ (Function.update before.connections sender
        (some { connection with queue := connection.queue ++ [usage] }) channel)
      by_cases same : channel = sender
      · subst same
        rw [present, Function.update_self, empty]
        exact .queued live empty (by simp [accepted, connected]) rfl
      · rw [Function.update_of_ne same]
        exact .idle ⟨by simp [accepted, connected, Ne.symm same], rfl, rfl, by simp⟩
  | task other event found taken =>
    change OnChannel _ _ _ (Function.update before.connections other _ channel)
    by_cases same : channel = other
    · subst same
      rw [found, Function.update_self]
      exact .stepped rfl rfl taken
    · rw [Function.update_of_ne same]
      refine .idle ⟨rfl, ?_, if_neg (Ne.symm same), by simp [Ne.symm same]⟩
      cases event <;> simp [handled, Ne.symm same]
  | finish other _ finished =>
    obtain ⟨fsm, queue, found, rfl⟩ := finish_eq_some finished
    change OnChannel _ _ _ (Function.update before.connections other none channel)
    by_cases same : channel = other
    · subst same
      rw [found, Function.update_self]
      exact .closed ⟨rfl, rfl, rfl, by simp⟩
    · rw [Function.update_of_ne same]
      exact .idle ⟨rfl, rfl, rfl, by simp⟩

theorem Steps.nextChannel_le (step : Steps before event output after) :
    before.nextChannel ≤ after.nextChannel := by
  cases step with
  | connect =>
    unfold CoreClient.connect
    split <;> exact Nat.le_succ _
  | send _ sent =>
    rcases send_eq_some sent with rfl | ⟨_, _, -, -, -, rfl⟩ <;> exact Nat.le_refl _
  | task => exact Nat.le_refl _
  | finish _ _ finished =>
    obtain ⟨_, _, -, rfl⟩ := finish_eq_some finished
    exact Nat.le_refl _

/-! ### Accepted packets -/

/-- A packet leaves the queue when it is handled, and stays in it otherwise. -/
theorem queue_of_step {channel : Nat} {connection next : Connection} {event : TaskEvent}
    {effects : List Effect} (found : before.connections channel = some connection)
    (taken : connection.step event = some (effects, next)) :
    connection.queue = handled channel ⟨before, .task channel event, .effects effects⟩ ++
      next.queue := by
  cases Connection.steps_of_step taken with
  | toSend _ waiting => simp [handled, found, waiting]
  | start | incoming | readerClosed => rfl

structure Conserves (channel : Nat) (trace : ClientTrace) (client : CoreClient)
    (waiting : List SendUsage) : Prop where
  inOrder : trace.flatMap (accepted channel) = trace.flatMap (handled channel) ++ waiting
  atMostOne : waiting.length ≤ 1
  queue : ∀ connection, client.connections channel = some connection → connection.queue = waiting
  unused : client.nextChannel ≤ channel → waiting = []

theorem Conserves.step {channel : Nat} {trace : ClientTrace} {waiting : List SendUsage}
    (fresh : before.Fresh) (conserves : Conserves channel trace before waiting)
    (step : Steps before event output after) :
    ∃ waiting, Conserves channel (trace ++ [⟨before, event, output⟩]) after waiting := by
  have seen := step.onChannel fresh channel
  have later := step.nextChannel_le
  generalize found : before.connections channel = old at seen
  generalize left : after.connections channel = new at seen
  have silently (silent : Silent channel ⟨before, event, output⟩) :
      (trace ++ [Entry.mk before event output]).flatMap (accepted channel) =
        (trace ++ [Entry.mk before event output]).flatMap (handled channel) ++ waiting := by
    simp [silent.accepted, silent.handled, conserves.inOrder]
  cases seen with
  | idle silent =>
    refine ⟨waiting, silently silent, conserves.atMostOne, fun connection present => ?_,
      fun unused => conserves.unused (later.trans unused)⟩
    exact conserves.queue connection (found.trans (left ▸ present))
  | opened silent same =>
    obtain rfl := conserves.unused (Nat.le_of_eq same.symm)
    refine ⟨[], silently silent, conserves.atMostOne, fun connection present => ?_, fun _ => rfl⟩
    rw [left] at present
    cases present
    rfl
  | @queued connection usage live empty put input =>
    obtain rfl : event = .send usage := input
    obtain rfl := (conserves.queue connection found).symm.trans empty
    have known := fresh.task channel (by simp [found])
    refine ⟨[usage], ?_, Nat.le_refl _, fun connection present => ?_,
      fun unused => absurd (later.trans unused) (Nat.not_le_of_lt known)⟩
    · simp only [List.flatMap_append, List.flatMap_singleton, put, conserves.inOrder]
      simp [handled]
    · rw [left] at present
      cases present
      rfl
  | @stepped connection next event effects input out taken =>
    cases input
    cases out
    have moved := queue_of_step found taken
    rw [conserves.queue connection found] at moved
    have known := fresh.task channel (by simp [found])
    refine ⟨next.queue, ?_, ?_, fun connection present => ?_,
      fun unused => absurd (later.trans unused) (Nat.not_le_of_lt known)⟩
    · simp only [List.flatMap_append, List.flatMap_singleton, conserves.inOrder]
      rw [moved]
      simp [accepted]
    · have atMostOne := conserves.atMostOne
      rw [moved, List.length_append] at atMostOne
      omega
    · rw [left] at present
      cases present
      rfl
  | closed silent =>
    refine ⟨waiting, silently silent, conserves.atMostOne, fun connection present => ?_,
      fun unused => conserves.unused (later.trans unused)⟩
    rw [left] at present
    cases present

theorem conserves_of_runs {start client : CoreClient} {trace : ClientTrace}
    (initial : start.Initial) (run : ClientRuns start trace client) (channel : Nat) :
    ∃ waiting, Conserves channel trace client waiting := by
  have empty : Conserves channel [] start [] := by
    refine ⟨rfl, Nat.zero_le _, fun connection found => ?_, fun _ => rfl⟩
    rw [initial.connection found]
  have reached := run.always (fun trace client => client.Fresh ∧
    ∃ waiting, Conserves channel trace client waiting) ⟨initial.fresh, [], empty⟩
    fun ⟨fresh, waiting, conserves⟩ step => ⟨fresh.step step, conserves.step fresh step⟩
  exact reached.2

omit [FxHasher] in
theorem send_of_accepted {channel : Nat} {entry : Entry CoreClient ClientEvent ClientOutput}
    {usage : SendUsage} (member : usage ∈ accepted channel entry) : entry.input = .send usage := by
  unfold accepted at member
  split at member
  next input _ =>
    split at member
    next =>
      split at member
      next => rw [input, List.mem_singleton.mp member]
      next => cases member
    next => cases member
  next => cases member

end CoreClient

end

end Client
