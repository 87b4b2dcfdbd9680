import Cloudmqtt.Core.Pings

/-! How long a connection stays silent, by a clock that does not go back. -/

set_option autoImplicit false

namespace Core

open Base Rust V5

variable {σ : Type}

/-! ### Times of a run -/

def Operation.times : Operation → List MqttInstant
  | .handleConnect currentTime _ | .consume _ currentTime | .subscribe currentTime _
  | .acknowledge currentTime _ | .connectionLost currentTime | .run currentTime => [currentTime]
  | .publish _ times | .disconnect _ times => times

-- An action stands at the place of the call that returned it, see `timed_of_operate`.
def sendTimes (entry : Entry (MqttClientFSM σ) Operation (List ExpectedAction)) :
    List MqttInstant :=
  (entry.input.times.zip entry.output).filterMap fun (currentTime, action) =>
    match action with
    | .sendPacket _ => some currentTime
    | _ => none

/-- When a packet was last sent on the connection that the trace ends with. -/
def lastSent (trace : Trace σ) : Option MqttInstant :=
  ((connectionOf trace).flatMap sendTimes).getLast?

def ExternalInfos.keepAlive (connecting : Bool) (keepAlive : UInt16) : ExternalInfos → UInt16
  | .consumePacket (.connack connack) =>
    if connecting then Option.getD (connack.properties.slot .serverKeepAlive) keepAlive
    else keepAlive
  | _ => keepAlive

def keepAliveStep (keepAlive : UInt16)
    (entry : Entry (MqttClientFSM σ) Operation (List ExpectedAction)) : UInt16 :=
  match entry.input with
  | .handleConnect _ connect => connect.keepAlive
  | .consume packet _ => (ExternalInfos.consumePacket packet).keepAlive
      entry.before.connectionState.isConnecting keepAlive
  | _ => keepAlive

/-- The keep alive of the CONNECT, or that of the server where its CONNACK has one. -/
def effectiveKeepAlive (trace : Trace σ) : UInt16 := (connectionOf trace).foldl keepAliveStep 0

def Chronological (trace : Trace σ) : Prop :=
  (trace.flatMap (·.input.times)).Pairwise (·.now ≤ ·.now)

/-! ### Which call an action is from -/

/-- `drive`, with each action behind the time of its call. -/
def driveTimed {η : Type} (run : η → MqttInstant → Except Panic (Option ExpectedAction × η)) :
    η → List MqttInstant → Except Panic (List (MqttInstant × ExpectedAction) × η)
  | self, [] => .ok ([], self)
  | self, currentTime :: times => do
    let (action, self) ← run self currentTime
    let (actions, self) ← driveTimed run self times
    pure (action.toList.map (currentTime, ·) ++ actions, self)

section

variable {η : Type} {run : η → MqttInstant → Except Panic (Option ExpectedAction × η)}
  {helper helper' : η} {times : List MqttInstant} {actions : List ExpectedAction}

theorem driveTimed_silent (silent : ∀ currentTime, run helper currentTime = .ok (none, helper)) :
    driveTimed run helper times = .ok ([], helper) := by
  induction times with
  | nil => rfl
  | cons currentTime times ih =>
    rw [driveTimed, silent currentTime]
    change (driveTimed run helper times >>= fun _ => _) = _
    rw [ih]
    rfl

-- Induction on the calls. Behind a call without an action there is none with one.
theorem driveTimed_eq_ok
    (silence : ∀ {helper next currentTime}, run helper currentTime = .ok (none, next) →
      ∀ later, run next later = .ok (none, next))
    (ran : drive run helper times = .ok (actions, helper')) :
    driveTimed run helper times = .ok (times.zip actions, helper') := by
  induction times generalizing helper actions with
  | nil =>
    obtain ⟨rfl, rfl⟩ := Prod.mk.inj (Except.ok.inj ran)
    rfl
  | cons currentTime times ih =>
    obtain ⟨⟨action, middle⟩, first, ran⟩ := except_bind_eq_ok.mp ran
    obtain ⟨⟨later, last⟩, rest, returned⟩ := except_bind_eq_ok.mp ran
    obtain ⟨rfl, rfl⟩ := Prod.mk.inj (Except.ok.inj returned)
    apply except_bind_eq_ok.mpr
    refine ⟨_, first, ?_⟩
    cases action with
    | some action =>
      apply except_bind_eq_ok.mpr
      exact ⟨_, ih rest, rfl⟩
    | none =>
      rw [drive_silent (silence first)] at rest
      obtain ⟨rfl, rfl⟩ := Prod.mk.inj (Except.ok.inj rest)
      apply except_bind_eq_ok.mpr
      exact ⟨_, driveTimed_silent (silence first), rfl⟩

end

section

variable [PacketIdentifierStore σ] [FxHasher] {self after : MqttClientFSM σ}
  {currentTime : MqttInstant}

theorem publisher_silence {helper next : MqttClientPublisher σ}
    (ran : helper.run currentTime = .ok (none, next)) (later : MqttInstant) :
    next.run later = .ok (none, next) := by
  unfold MqttClientPublisher.run at ran
  split at ran
  next state =>
    split at ran
    next packet present =>
      split at ran
      next needed =>
        obtain ⟨⟨id, clientPis⟩, taken, returned⟩ := except_bind_eq_ok.mp ran
        cases id with
        | none => cases returned
        | some id => cases returned
      next needed =>
        obtain ⟨-, rfl⟩ := Prod.mk.inj (Except.ok.inj ran)
        simp only [MqttClientPublisher.run, state, present, if_neg needed]
    next present =>
      obtain ⟨-, rfl⟩ := Prod.mk.inj (Except.ok.inj ran)
      simp only [MqttClientPublisher.run, state, present]
  next =>
    split at ran
    next =>
      obtain ⟨⟨action, client⟩, -, returned⟩ := except_bind_eq_ok.mp ran
      obtain ⟨-, rfl⟩ := Prod.mk.inj (Except.ok.inj returned)
      rfl
    next => cases ran
  next state =>
    obtain ⟨-, rfl⟩ := Prod.mk.inj (Except.ok.inj ran)
    simp only [MqttClientPublisher.run, state]

omit [FxHasher] in
theorem disconnecter_silence {helper next : MqttClientDisconnecter σ}
    (ran : helper.run currentTime = .ok (none, next)) (later : MqttInstant) :
    next.run later = .ok (none, next) := by
  unfold MqttClientDisconnecter.run at ran
  split at ran
  next => cases ran
  next => cases ran
  next state =>
    obtain ⟨-, rfl⟩ := Prod.mk.inj (Except.ok.inj ran)
    simp only [MqttClientDisconnecter.run, state]

/-- The actions of a helper are from the calls at their places. -/
theorem timed_of_operate {operation : Operation} {actions : List ExpectedAction}
    (ran : self.operate operation = .ok (actions, after)) :
    (∀ packet times, operation = .publish packet times → ∃ helper,
        driveTimed MqttClientPublisher.run (self.publish packet) times =
          .ok (times.zip actions, helper)) ∧
      ∀ packet times, operation = .disconnect packet times → ∃ helper,
        driveTimed MqttClientDisconnecter.run (self.disconnect packet) times =
          .ok (times.zip actions, helper) := by
  constructor
  · rintro packet times rfl
    obtain ⟨⟨actions, helper⟩, called, same⟩ := except_map_eq_ok.mp ran
    obtain ⟨rfl, -⟩ := Prod.mk.inj same
    exact ⟨helper, driveTimed_eq_ok publisher_silence called⟩
  · rintro packet times rfl
    obtain ⟨⟨actions, helper⟩, called, same⟩ := except_map_eq_ok.mp ran
    obtain ⟨rfl, -⟩ := Prod.mk.inj same
    exact ⟨helper, driveTimed_eq_ok disconnecter_silence called⟩

end

/-! ### The clock of the connection -/

theorem lastSent_snoc (trace : Trace σ)
    {entry : Entry (MqttClientFSM σ) Operation (List ExpectedAction)}
    (later : ∀ currentTime connect, entry.input ≠ .handleConnect currentTime connect) :
    lastSent (trace ++ [entry]) = (sendTimes entry).getLast?.or (lastSent trace) := by
  rw [lastSent, connectionOf_snoc, connectionStep]
  split
  next same => exact absurd same (later _ _)
  next =>
    rw [List.flatMap_append, List.flatMap_singleton, List.getLast?_append]
    rfl

theorem effectiveKeepAlive_snoc (trace : Trace σ)
    (entry : Entry (MqttClientFSM σ) Operation (List ExpectedAction)) :
    effectiveKeepAlive (trace ++ [entry]) = keepAliveStep (effectiveKeepAlive trace) entry := by
  rw [effectiveKeepAlive, connectionOf_snoc, connectionStep]
  split
  next same => simp only [List.foldl_cons, List.foldl_nil, keepAliveStep, same]
  next => rw [List.foldl_append, effectiveKeepAlive, List.foldl_cons, List.foldl_nil]

theorem connectionOf_subset (trace : Trace σ) : connectionOf trace ⊆ trace := by
  induction trace using List.reverseRecOn with
  | nil => exact List.Subset.refl _
  | append_singleton trace entry ih =>
    rw [connectionOf_snoc, connectionStep]
    split
    next => exact List.subset_append_right trace [entry]
    next =>
      apply List.append_subset.mpr
      exact ⟨List.subset_append_of_subset_left _ ih, List.subset_append_right trace [entry]⟩

theorem sendTimes_subset (entry : Entry (MqttClientFSM σ) Operation (List ExpectedAction)) :
    sendTimes entry ⊆ entry.input.times := by
  intro sent member
  obtain ⟨⟨currentTime, action⟩, paired, same⟩ := List.mem_filterMap.mp member
  cases action with
  | sendPacket packet =>
    obtain rfl := Option.some.inj same
    exact (List.of_mem_zip paired).1
  | _ => cases same

theorem mem_times_of_lastSent {trace : Trace σ} {sent : MqttInstant}
    (last : lastSent trace = some sent) : sent ∈ trace.flatMap (·.input.times) := by
  obtain ⟨entry, member, sent⟩ := List.mem_flatMap.mp (List.mem_of_getLast? last)
  apply List.mem_flatMap.mpr
  exact ⟨entry, connectionOf_subset trace member, sendTimes_subset entry sent⟩

theorem chronological_snoc {trace : Trace σ}
    {entry : Entry (MqttClientFSM σ) Operation (List ExpectedAction)}
    (chronological : Chronological (trace ++ [entry])) :
    Chronological trace ∧ ∀ earlier ∈ trace.flatMap (·.input.times), ∀ later ∈ entry.input.times,
      earlier.now ≤ later.now := by
  rw [Chronological, List.flatMap_append, List.flatMap_singleton] at chronological
  obtain ⟨front, -, across⟩ := List.pairwise_append.mp chronological
  exact ⟨front, across⟩

/-! ### What the machine notes -/

def ConnectionState.sentAt : ConnectionState → Option MqttInstant
  | .disconnected => none
  | .connectingWithoutAuth conn => some conn.connectSent
  | .connected con => some con.lastTimeSent

section

variable [PacketIdentifierStore σ] [FxHasher] {self after : MqttClientFSM σ}
  {currentTime : MqttInstant}

theorem MqttClientFSM.Transition.keepAlive {infos : ExternalInfos} {action : Option ExpectedAction}
    (transition : self.Transition currentTime infos action after) :
    after.data.keepAlive =
      infos.keepAlive self.connectionState.isConnecting self.data.keepAlive := by
  cases transition with
  | disconnected disconnected =>
    unfold ExternalInfos.keepAlive
    split
    next => rw [disconnected]; rfl
    next => rfl
  | connack connecting ran =>
    obtain ⟨-, -, rfl⟩ := handleConnack_eq_ok ran
    rw [connecting]
    rfl
  | puback _ ran | suback _ ran =>
    obtain ⟨clientPis, rfl, -⟩ := releaseContained_eq_ok ran
    rfl
  | elapsed connected =>
    rcases self.ping_cases _ currentTime with pinged | pinged
    · rw [pinged]
      rfl
    · rw [pinged]
      rfl
  | awaited | received | receivedOnce | disconnect | pingresp | sent => rfl

theorem MqttClientFSM.Transition.sentAt {infos : ExternalInfos} {action : Option ExpectedAction}
    (transition : self.Transition currentTime infos action after) {noted : MqttInstant}
    (sentAt : after.connectionState.sentAt = some noted) :
    self.connectionState.sentAt = some noted ∨
      noted = currentTime ∧ ∃ packet, action = some (.sendPacket packet) := by
  cases transition with
  | connack connecting ran =>
    obtain ⟨-, -, rfl⟩ := handleConnack_eq_ok ran
    rw [connecting]
    exact .inl sentAt
  | disconnect => cases sentAt
  | puback _ ran | suback _ ran =>
    obtain ⟨clientPis, rfl, -⟩ := releaseContained_eq_ok ran
    exact .inl sentAt
  | pingresp connected =>
    rw [connected]
    exact .inl sentAt
  | sent => exact .inr ⟨(Option.some.inj sentAt).symm, _, rfl⟩
  | elapsed connected =>
    rcases self.ping_cases _ currentTime with pinged | pinged
    · rw [pinged] at sentAt ⊢
      exact .inr ⟨(Option.some.inj sentAt).symm, _, rfl⟩
    · rw [pinged] at sentAt
      exact .inl sentAt
  | disconnected | awaited | received | receivedOnce => exact .inl sentAt

theorem Published.keepAlive {packet : MPublish} {times : List MqttInstant}
    {actions : List ExpectedAction} (published : Published self packet times actions after) :
    after.data.keepAlive = self.data.keepAlive := by
  cases published with
  | unused | stored => rfl
  | sent transition | storedAndSent _ transition => exact transition.keepAlive

theorem Published.sentAt {packet : MPublish} {times : List MqttInstant}
    {actions : List ExpectedAction} (published : Published self packet times actions after)
    {noted : MqttInstant} (sentAt : after.connectionState.sentAt = some noted) :
    self.connectionState.sentAt = some noted ∨
      (sendTimes ⟨self, .publish packet times, actions⟩).getLast? = some noted := by
  cases published with
  | unused | stored => exact .inl sentAt
  | sent transition | storedAndSent _ transition =>
    apply (transition.sentAt sentAt).imp_right
    rintro ⟨rfl, sent, rfl⟩
    simp only [sendTimes, Operation.times, Option.toList_some, List.zip_cons_cons,
      List.zip_nil_right]
    rfl

omit [FxHasher] in
theorem Dismissed.keepAlive {packet : MDisconnect} {times : List MqttInstant}
    {actions : List ExpectedAction} (dismissed : Dismissed self packet times actions after) :
    after.data.keepAlive = self.data.keepAlive := by
  cases dismissed with
  | unused | sent | reset => rfl

-- The helper sends its DISCONNECT without a note of the time, so that the last packet
-- of a connection may be later than the one that is noted.
omit [FxHasher] in
theorem Dismissed.sentAt {packet : MDisconnect} {times : List MqttInstant}
    {actions : List ExpectedAction} (dismissed : Dismissed self packet times actions after)
    {noted : MqttInstant} (sentAt : after.connectionState.sentAt = some noted) :
    self.connectionState.sentAt = some noted := by
  cases dismissed with
  | unused | sent => exact sentAt
  | reset => cases sentAt

theorem operate_keepAlive {operation : Operation} {actions : List ExpectedAction}
    (ran : self.operate operation = .ok (actions, after)) :
    after.data.keepAlive = keepAliveStep self.data.keepAlive ⟨self, operation, actions⟩ := by
  cases MqttClientFSM.performs_of_operate ran with
  | consume transition | run transition => exact transition.keepAlive
  | publish => exact (MqttClientFSM.published_of_operate ran).keepAlive
  | disconnect called => exact (dismissed_of_drive called).keepAlive
  | handleConnect | subscribe | acknowledge | connectionLost => rfl

/-- The time that is noted is that of a packet the operation sent last, or was noted before. -/
theorem operate_sentAt {operation : Operation} {actions : List ExpectedAction}
    (ran : self.operate operation = .ok (actions, after)) {noted : MqttInstant}
    (sentAt : after.connectionState.sentAt = some noted) :
    (self.connectionState.sentAt = some noted ∧
        ∀ currentTime connect, operation ≠ .handleConnect currentTime connect) ∨
      (sendTimes ⟨self, operation, actions⟩).getLast? = some noted := by
  cases MqttClientFSM.performs_of_operate ran with
  | handleConnect => exact .inr sentAt
  | @consume packet currentTime _ _ transition =>
    rcases transition.sentAt sentAt with before | ⟨rfl, sent, rfl⟩
    · exact .inl ⟨before, fun _ _ same => nomatch same⟩
    · exact .inr rfl
  | run transition =>
    rcases transition.sentAt sentAt with before | ⟨rfl, sent, rfl⟩
    · exact .inl ⟨before, fun _ _ same => nomatch same⟩
    · exact .inr rfl
  | publish =>
    rcases (MqttClientFSM.published_of_operate ran).sentAt sentAt with before | sent
    · exact .inl ⟨before, fun _ _ same => nomatch same⟩
    · exact .inr sent
  | subscribe | acknowledge => exact .inr sentAt
  | disconnect called =>
    exact .inl ⟨(dismissed_of_drive called).sentAt sentAt, fun _ _ same => nomatch same⟩
  | connectionLost => cases sentAt

/-! ### Runs -/

theorem keepAlive_of_runs {clientPis : σ} {trace : Trace σ}
    (run : Runs (.new clientPis) trace after) :
    after.data.keepAlive = effectiveKeepAlive trace := by
  induction run with
  | done => rfl
  | next _ taken ih => rw [effectiveKeepAlive_snoc, operate_keepAlive taken, ih]

/-- What is noted is not later than the last packet of the connection. -/
theorem sentAt_of_runs {clientPis : σ} {trace : Trace σ}
    (run : Runs (.new clientPis) trace after) (chronological : Chronological trace)
    {noted : MqttInstant} (sentAt : after.connectionState.sentAt = some noted) :
    ∃ sent, lastSent trace = some sent ∧ noted.now ≤ sent.now := by
  induction run with
  | done => cases sentAt
  | @next trace before after operation actions _ taken ih =>
    obtain ⟨earlier, across⟩ := chronological_snoc chronological
    rcases operate_sentAt taken sentAt with ⟨before, later⟩ | now
    · obtain ⟨sent, last, least⟩ := ih earlier before
      rw [lastSent_snoc trace later]
      cases now : (sendTimes ⟨_, operation, actions⟩).getLast? with
      | none => exact ⟨sent, last, least⟩
      | some other =>
        have called : other ∈ operation.times :=
          sendTimes_subset _ (List.mem_of_getLast? now)
        exact ⟨other, rfl, UInt64.le_trans least
          (across sent (mem_times_of_lastSent last) other called)⟩
    · have last : lastSent (trace ++ [⟨before, operation, actions⟩]) = some noted := by
        rw [lastSent, connectionOf_snoc, connectionStep]
        split
        next => rw [List.flatMap_singleton, now]
        next => rw [List.flatMap_append, List.flatMap_singleton, List.getLast?_append, now]; rfl
      exact ⟨noted, last, UInt64.le_refl _⟩

/-- When a call of `run` on a connection with a keep alive returns, a PINGREQ is
unanswered, or the last packet was sent within the time of the keep alive. -/
def KeptAlive (front : Trace σ)
    (entry : Entry (MqttClientFSM σ) Operation (List ExpectedAction)) : Prop :=
  ∀ currentTime, entry.input = .run currentTime → entry.before.isConnected = true →
    0 < effectiveKeepAlive (front ++ [entry]) →
    Unanswered (connectionPings (front ++ [entry])) ∨
      ∃ sent, lastSent (front ++ [entry]) = some sent ∧
        currentTime.now.toNat <
          sent.now.toNat + (effectiveKeepAlive (front ++ [entry])).toNat

omit [PacketIdentifierStore σ] [FxHasher] in
theorem MqttInstant.le_add_elapsed (self currentTime : MqttInstant) :
    currentTime.now.toNat ≤ self.now.toNat + (self.elapsedSeconds currentTime).toNat := by
  unfold elapsedSeconds
  split
  next behind =>
    have least := UInt64.le_iff_toNat_le.mp (UInt64.le_of_lt behind)
    rw [UInt64.toNat_sub_of_le _ _ (UInt64.le_of_lt behind)]
    omega
  next ahead =>
    have least := UInt64.le_iff_toNat_le.mp (UInt64.not_lt.mp ahead)
    omega

omit [PacketIdentifierStore σ] [FxHasher] in
theorem MqttClientFSM.lt_of_not_pingDue {con : Connected}
    (undue : ¬ self.PingDue con currentTime) (positive : 0 < self.data.keepAlive)
    (waiting : con.pingState = .waitingForElapsed) :
    currentTime.now.toNat < con.lastTimeSent.now.toNat + self.data.keepAlive.toNat := by
  have within : con.lastTimeSent.elapsedSeconds currentTime < self.data.keepAlive.toUInt64 :=
    UInt64.not_le.mp fun elapsed => undue ⟨positive, waiting, elapsed⟩
  have fewer := UInt64.lt_iff_toNat_lt.mp within
  rw [UInt16.toNat_toUInt64] at fewer
  have least := con.lastTimeSent.le_add_elapsed currentTime
  omega

theorem keptAlive_snoc {clientPis : σ} {trace : Trace σ} {operation : Operation}
    {actions : List ExpectedAction} (run : Runs (.new clientPis) trace self)
    (ran : self.operate operation = .ok (actions, after))
    (chronological : Chronological (trace ++ [⟨self, operation, actions⟩])) :
    KeptAlive trace ⟨self, operation, actions⟩ := by
  rintro currentTime rfl isConnected positive
  have all : Runs (.new clientPis) (trace ++ [⟨self, .run currentTime, actions⟩]) after :=
    .next run ran
  have pinging := pinging_of_runs all
  have sentAt {noted : MqttInstant} (sentAt : after.connectionState.sentAt = some noted) :=
    sentAt_of_runs all chronological sentAt
  rw [← keepAlive_of_runs all] at positive ⊢
  cases MqttClientFSM.performs_of_operate ran with
  | run transition =>
    cases transition with
    | disconnected disconnected =>
      exact nomatch isConnected.symm.trans (MqttClientFSM.isConnected_of_disconnected disconnected)
    | awaited connecting =>
      exact nomatch isConnected.symm.trans (MqttClientFSM.isConnected_of_connecting connecting)
    | @elapsed con connected =>
      rcases self.ping_due con currentTime with ⟨-, pinged⟩ | ⟨undue, pinged⟩
      · rw [pinged] at pinging ⊢
        exact .inl ((pinging.waiting_iff rfl).mp (by simp))
      · rw [pinged] at pinging sentAt positive ⊢
        by_cases waiting : con.pingState = .waitingForElapsed
        · have noted : (self.ranAt currentTime).connectionState.sentAt = some con.lastTimeSent := by
            rw [MqttClientFSM.ranAt, connected]
            rfl
          obtain ⟨sent, last, least⟩ := sentAt noted
          have within := MqttClientFSM.lt_of_not_pingDue undue positive waiting
          have least := UInt64.le_iff_toNat_le.mp least
          exact .inr ⟨sent, last, Nat.lt_of_lt_of_le within (Nat.add_le_add_right least _)⟩
        · exact .inl ((pinging.waiting_iff connected).mp waiting)

/-- By a clock that does not go back, no connection that is looked after stays silent
for the time of its keep alive, unless it waits for a PINGRESP. -/
theorem keptAlive_of_runs {clientPis : σ} {trace : Trace σ}
    (run : Runs (.new clientPis) trace after) (chronological : Chronological trace) :
    EveryStep KeptAlive trace := by
  induction run with
  | done => exact .nil
  | next earlier taken ih =>
    have front := (chronological_snoc chronological).1
    exact (ih front).snoc (keptAlive_snoc earlier taken chronological)

end

section

attribute [local instance] x86_64 unhashed

theorem keptAlive_of_runs_pinged : ∃ trace final,
    Runs MqttClientFSM.default trace final ∧
      trace.map (·.input) = [.handleConnect ⟨0⟩ keptAlive, .consume accepting ⟨0⟩, .run ⟨0⟩,
        .run ⟨1⟩] ∧
      Chronological trace ∧ EveryStep KeptAlive trace := by
  have session : ∃ trace final, Runs MqttClientFSM.default trace final ∧
      trace.map (·.input) = [.handleConnect ⟨0⟩ keptAlive, .consume accepting ⟨0⟩, .run ⟨0⟩,
        .run ⟨1⟩] :=
    ⟨_, _, .next (.next (.next (.next .done rfl) rfl) rfl) rfl, rfl⟩
  obtain ⟨trace, final, run, inputs⟩ := session
  have chronological : Chronological trace := by
    rw [Chronological, ← List.flatMap_map, inputs]
    decide
  exact ⟨trace, final, run, inputs, chronological, keptAlive_of_runs run chronological⟩

end

end Core
