import Cloudmqtt.Base.Leases
import Cloudmqtt.Core.Order

/-! Which identifiers are in use, and what the callers were told about them. -/

set_option autoImplicit false

namespace Core

open Base Rust V5

variable {σ : Type}

abbrev PacketLease : Type := Lease PacketIdentifier PacketIdentifierUsage

def ExpectedAction.leases : ExpectedAction → List PacketLease
  | .storePacket id => [.take id .publish]
  | .releasePacket id => [.give id .publish]
  | .sendPacket (.subscribe packet) => [.take packet.packetIdentifier .nonPublish]
  | .disconnect => [.keep (·.isPublish)]
  | _ => []

/-- A SUBACK ends its exchange without an action. -/
def ExternalInfos.leases (connected : Bool) : ExternalInfos → List PacketLease
  | .consumePacket (.suback suback) =>
    if connected then [.give suback.packetIdentifier .nonPublish] else []
  | _ => []

theorem ExternalInfos.leases_false (infos : ExternalInfos) : infos.leases false = [] := by
  unfold ExternalInfos.leases
  split <;> rfl

def Operation.leases (connected : Bool) : Operation → List PacketLease
  | .consume packet _ => (ExternalInfos.consumePacket packet).leases connected
  | .connectionLost _ => [.keep (·.isPublish)]
  | _ => []

def leases (entry : Entry (MqttClientFSM σ) Operation (List ExpectedAction)) :
    List PacketLease :=
  entry.input.leases entry.before.isConnected ++ entry.output.flatMap ExpectedAction.leases

section

variable [PacketIdentifierStore σ] [LawfulStore σ]

def MqttClientFSM.uses (self : MqttClientFSM σ) : PacketIdentifier → Option PacketIdentifierUsage :=
  LawfulStore.usage self.clientPis

variable {self after : MqttClientFSM σ}

theorem uses_resetConnection (self : MqttClientFSM σ) :
    self.resetConnection.uses = fun id => (self.uses id).filter (·.isPublish) :=
  funext fun id => LawfulStore.releaseNonPublishSlots_usage self.clientPis id

theorem uses_releaseContained {id : PacketIdentifier}
    (ran : self.releaseContained id = .ok after) :
    self.uses id ≠ none ∧ after.uses = Function.update self.uses id none := by
  obtain ⟨clientPis, rfl, contained, released⟩ := MqttClientFSM.releaseContained_eq_ok ran
  rw [LawfulStore.contains_usage] at contained
  exact ⟨Option.isSome_iff_ne_none.mp contained, LawfulStore.release_usage released⟩

theorem uses_ping (self : MqttClientFSM σ) (con : Connected) (currentTime : MqttInstant) :
    (self.ping con currentTime).2.uses = self.uses ∧
      (self.ping con currentTime).1.toList.flatMap ExpectedAction.leases = [] := by
  rcases self.ping_cases con currentTime with pinged | pinged <;> rw [pinged] <;> exact ⟨rfl, rfl⟩

theorem uses_handleConnack [FxHasher] {conn : ConnectingWithoutAuth} {connack : MConnack}
    {action : Option ExpectedAction} (ran : self.handleConnack conn connack = .ok (action, after)) :
    after.uses = self.uses ∧ action.toList.flatMap ExpectedAction.leases = [] := by
  obtain ⟨-, -, rfl⟩ := MqttClientFSM.handleConnack_eq_ok ran
  exact ⟨rfl, MqttClientFSM.flatMap_handleConnack (fun _ => rfl) ran⟩

structure Admits
    (allowed : (PacketIdentifier → Option PacketIdentifierUsage) → PacketLease → Prop) :
    Prop where
  take (uses : PacketIdentifier → Option PacketIdentifierUsage) (id : PacketIdentifier)
    (kind : PacketIdentifierUsage) : allowed uses (.take id kind)
  keep (uses : PacketIdentifier → Option PacketIdentifierUsage) :
    allowed uses (.keep (·.isPublish))

variable {allowed : (PacketIdentifier → Option PacketIdentifierUsage) → PacketLease → Prop}

/-- Identifiers taken before a packet is sent are not seen in the packet's step. -/
theorem MqttClientFSM.Transition.moves [FxHasher] (admits : Admits allowed)
    {currentTime : MqttInstant} {infos : ExternalInfos}
    {action : Option ExpectedAction}
    (transition : self.Transition currentTime infos action after)
    (quiet : ∀ packet, infos = .publishPacket packet →
      (ExpectedAction.sendPacket packet).leases = [])
    (gives : ∀ id kind, .give id kind ∈ infos.leases self.isConnected ++
      action.toList.flatMap ExpectedAction.leases → allowed self.uses (.give id kind)) :
    Lease.MovesAll allowed self.uses
      (infos.leases self.isConnected ++ action.toList.flatMap ExpectedAction.leases)
      after.uses := by
  cases transition with
  | disconnected disconnected =>
    rw [isConnected_of_disconnected disconnected, ExternalInfos.leases_false]
    exact .nil
  | awaited => exact .nil
  | connack _ ran =>
    obtain ⟨same, none⟩ := uses_handleConnack ran
    rw [none, same]
    exact .nil
  | received => exact .nil
  | receivedOnce => exact .nil
  | disconnect =>
    rw [uses_resetConnection]
    exact .single (admits.keep _) .keep
  | puback _ ran =>
    obtain ⟨used, same⟩ := uses_releaseContained ran
    rw [same]
    exact .single (gives _ _ (by simp [ExpectedAction.leases])) (.give used)
  | pingresp => exact .nil
  | suback connected ran =>
    obtain ⟨used, same⟩ := uses_releaseContained ran
    simp only [ExternalInfos.leases, isConnected_of_connected connected, if_true] at gives ⊢
    rw [same]
    exact .single (gives _ _ (by simp)) (.give used)
  | sent =>
    have none := quiet _ rfl
    simp only [Option.toList_some, List.flatMap_cons, List.flatMap_nil, none]
    exact .nil
  | elapsed =>
    obtain ⟨same, none⟩ := uses_ping self _ currentTime
    rw [none, same]
    exact .nil

theorem publisher_moves [FxHasher] (admits : Admits allowed)
    {helper helper' : MqttClientPublisher σ}
    {currentTime : MqttInstant} {action : Option ExpectedAction}
    (ran : helper.run currentTime = .ok (action, helper')) :
    Lease.MovesAll allowed helper.client.uses (action.toList.flatMap ExpectedAction.leases)
      helper'.client.uses := by
  cases MqttClientPublisher.call_of_run ran with
  | @store packet id clientPis _ taken =>
    obtain ⟨free, same⟩ := LawfulStore.getNextFree_usage taken
    change Lease.MovesAll _ _ [.take id .publish] (LawfulStore.usage clientPis)
    rw [same]
    exact .single (admits.take _ _ _) (.take free)
  | send _ _ step =>
    obtain ⟨middle, transition, rfl⟩ := MqttClientFSM.transition_of_innerRun step
    have none : action.toList.flatMap ExpectedAction.leases = [] := by
      cases transition <;> rfl
    have moves := transition.moves admits (fun packet same => by cases same; rfl)
      (by simp [none, ExternalInfos.leases])
    exact moves
  | idle => exact .nil

def Harmless (helper : MqttClientDisconnecter σ) : Prop :=
  ∀ packet, helper.state = .disconnectPacket packet → (ExpectedAction.sendPacket packet).leases = []

theorem disconnecter_moves (admits : Admits allowed)
    {helper helper' : MqttClientDisconnecter σ} {currentTime : MqttInstant}
    {action : Option ExpectedAction} (harmless : Harmless helper)
    (ran : helper.run currentTime = .ok (action, helper')) :
    Harmless helper' ∧
      Lease.MovesAll allowed helper.client.uses (action.toList.flatMap ExpectedAction.leases)
        helper'.client.uses := by
  unfold MqttClientDisconnecter.run at ran
  split at ran
  next packet state =>
    obtain ⟨rfl, rfl⟩ := Prod.mk.inj (Except.ok.inj ran)
    refine ⟨fun _ same => by simp at same, ?_⟩
    simp only [Option.toList_some, List.flatMap_cons, List.flatMap_nil, harmless packet state]
    exact .nil
  next =>
    obtain ⟨rfl, rfl⟩ := Prod.mk.inj (Except.ok.inj ran)
    refine ⟨fun _ same => by simp at same, ?_⟩
    change Lease.MovesAll _ _ [.keep _] helper.client.resetConnection.uses
    rw [uses_resetConnection]
    exact .single (admits.keep _) .keep
  next =>
    obtain ⟨rfl, rfl⟩ := Prod.mk.inj (Except.ok.inj ran)
    exact ⟨harmless, .nil⟩

theorem Calls.moves {η : Type} {run : η → MqttInstant → Except Panic (Option ExpectedAction × η)}
    (client : η → MqttClientFSM σ) (holds : η → Prop)
    (each : ∀ {helper currentTime action helper'}, holds helper →
      run helper currentTime = .ok (action, helper') → holds helper' ∧
        Lease.MovesAll allowed (client helper).uses (action.toList.flatMap ExpectedAction.leases)
          (client helper').uses)
    {helper helper' : η} {actions : List ExpectedAction}
    (calls : Calls run helper actions helper') (initial : holds helper) :
    Lease.MovesAll allowed (client helper).uses (actions.flatMap ExpectedAction.leases)
      (client helper').uses := by
  induction calls with
  | nil => exact .nil
  | cons first _ ih =>
    obtain ⟨kept, moves⟩ := each initial first
    rw [List.flatMap_append]
    exact moves.append (ih kept)

theorem Calls.publish_moves [FxHasher] {packet : MPublish} {helper : MqttClientPublisher σ}
    {actions : List ExpectedAction}
    (calls : Calls MqttClientPublisher.run (self.publish packet) actions helper)
    (admits : Admits allowed) :
    Lease.MovesAll allowed self.uses (actions.flatMap ExpectedAction.leases) helper.client.uses :=
  calls.moves MqttClientPublisher.client (fun _ => True)
    (fun _ step => ⟨trivial, publisher_moves admits step⟩) trivial

theorem Calls.disconnect_moves {packet : MDisconnect} {helper : MqttClientDisconnecter σ}
    {actions : List ExpectedAction}
    (calls : Calls MqttClientDisconnecter.run (self.disconnect packet) actions helper)
    (admits : Admits allowed) :
    Lease.MovesAll allowed self.uses (actions.flatMap ExpectedAction.leases) helper.client.uses := by
  have harmless : Harmless (self.disconnect packet) := by
    rintro _ ⟨⟩
    rfl
  exact calls.moves MqttClientDisconnecter.client Harmless
    (fun harmless step => disconnecter_moves admits harmless step) harmless

-- What an operation shows is its input and its actions; `gives` is needed only where
-- an identifier is given back, since the machine does not compare kinds there.
theorem operate_moves [FxHasher] (admits : Admits allowed) {operation : Operation}
    {actions : List ExpectedAction}
    (ran : self.operate operation = .ok (actions, after))
    (gives : ∀ id kind, .give id kind ∈ leases ⟨self, operation, actions⟩ →
      allowed self.uses (.give id kind)) :
    Lease.MovesAll allowed self.uses (leases ⟨self, operation, actions⟩) after.uses := by
  cases MqttClientFSM.performs_of_operate ran with
  | handleConnect | acknowledge => exact .nil
  | consume transition | run transition =>
    exact transition.moves admits (fun packet same => by simp at same) gives
  | publish calls => exact calls.publish_moves admits
  | @subscribe packet currentTime id clientPis con taken =>
    obtain ⟨free, same⟩ := LawfulStore.getNextFree_usage taken
    change Lease.MovesAll _ _ [.take id .nonPublish] (LawfulStore.usage clientPis)
    rw [same]
    exact .single (admits.take _ _ _) (.take free)
  | disconnect called => exact (calls_of_drive called).disconnect_moves admits
  | connectionLost =>
    change Lease.MovesAll _ _ [.keep _] (MqttClientFSM.resetConnection _).uses
    rw [uses_resetConnection]
    exact .single (admits.keep _) .keep

inductive Acknowledges (self : MqttClientFSM σ) :
    ExternalInfos → PacketIdentifier → PacketIdentifierUsage → Prop where
  | puback {puback : MPuback} : self.isConnected = true →
      Acknowledges self (.consumePacket (.puback puback)) puback.packetIdentifier .publish
  | suback {suback : MSuback} : self.isConnected = true →
      Acknowledges self (.consumePacket (.suback suback)) suback.packetIdentifier .nonPublish

/-- Only an acknowledgement gives an identifier back, and the identifier was in use. -/
theorem MqttClientFSM.Transition.give_mem [FxHasher] {currentTime : MqttInstant}
    {infos : ExternalInfos} {action : Option ExpectedAction}
    (transition : self.Transition currentTime infos action after) {id : PacketIdentifier}
    {kind : PacketIdentifierUsage} (member : .give id kind ∈ infos.leases self.isConnected ++
      action.toList.flatMap ExpectedAction.leases) :
    Acknowledges self infos id kind ∧ self.uses id ≠ none := by
  cases transition with
  | disconnected disconnected =>
    simp [isConnected_of_disconnected disconnected, ExternalInfos.leases_false] at member
  | awaited => simp [ExternalInfos.leases] at member
  | connack _ ran => simp [ExternalInfos.leases, (uses_handleConnack ran).2] at member
  | received => simp [ExternalInfos.leases, ExpectedAction.leases] at member
  | receivedOnce => simp [ExternalInfos.leases, ExpectedAction.leases] at member
  | disconnect => simp [ExternalInfos.leases, ExpectedAction.leases] at member
  | puback connected ran =>
    simp only [ExternalInfos.leases, ExpectedAction.leases, Option.toList_some, List.flatMap_cons,
      List.flatMap_nil, List.append_nil, List.nil_append, List.mem_singleton] at member
    obtain ⟨rfl, rfl⟩ := Lease.give.inj member
    exact ⟨.puback (isConnected_of_connected connected), (uses_releaseContained ran).1⟩
  | pingresp => simp [ExternalInfos.leases] at member
  | suback connected ran =>
    simp only [ExternalInfos.leases, isConnected_of_connected connected, if_true,
      Option.toList_none, List.flatMap_nil, List.append_nil, List.mem_singleton] at member
    obtain ⟨rfl, rfl⟩ := Lease.give.inj member
    exact ⟨.suback (isConnected_of_connected connected), (uses_releaseContained ran).1⟩
  | @sent _ packet => cases packet <;> simp [ExternalInfos.leases, ExpectedAction.leases] at member
  | elapsed => simp [ExternalInfos.leases, (uses_ping self _ currentTime).2] at member

theorem give_mem_leases [FxHasher] {operation : Operation} {actions : List ExpectedAction}
    (ran : self.operate operation = .ok (actions, after)) {id : PacketIdentifier}
    {kind : PacketIdentifierUsage} (member : .give id kind ∈ leases ⟨self, operation, actions⟩) :
    ∃ packet currentTime, operation = .consume packet currentTime ∧
      Acknowledges self (.consumePacket packet) id kind ∧ self.uses id ≠ none := by
  have taking : Admits fun _ lease => ∀ id kind, lease ≠ .give id kind :=
    ⟨fun _ _ _ _ _ => by simp, fun _ _ _ => by simp⟩
  cases MqttClientFSM.performs_of_operate ran with
  | handleConnect | subscribe | acknowledge =>
    simp [leases, Operation.leases, ExpectedAction.leases] at member
  | consume transition => exact ⟨_, _, rfl, transition.give_mem member⟩
  | publish calls =>
    obtain ⟨_, no⟩ := (calls.publish_moves taking).allowed_of_mem member
    exact absurd rfl (no id kind)
  | disconnect called =>
    obtain ⟨_, no⟩ := ((calls_of_drive called).disconnect_moves taking).allowed_of_mem member
    exact absurd rfl (no id kind)
  | connectionLost => simp [leases, Operation.leases] at member
  | run transition => cases (transition.give_mem member).1

end

/-! ### Runs -/

/-- Under `publish`, the identifiers announced by `StorePacket` and not given
back by `ReleasePacket`; under `nonPublish`, those of the SUBSCRIBEs sent on
this connection and not acknowledged. -/
def ledgerOf (trace : Trace σ) : Lease.Ledger PacketIdentifier PacketIdentifierUsage :=
  (trace.flatMap leases).foldl Lease.Ledger.after fun _ => ∅

/-- An acknowledgement consumed while connected names an exchange that waits for it. -/
def Solicited (front : Trace σ)
    (entry : Entry (MqttClientFSM σ) Operation (List ExpectedAction)) : Prop :=
  entry.before.isConnected = true →
    match entry.input with
    | .consume (.puback puback) _ => puback.packetIdentifier ∈ ledgerOf front .publish
    | .consume (.suback suback) _ => suback.packetIdentifier ∈ ledgerOf front .nonPublish
    | _ => True

/-- The acknowledged exchange, where there is one, is of the acknowledgement's kind:
a PUBACK does not name a pending SUBSCRIBE, and a SUBACK does not name a stored PUBLISH. -/
def Uncrossed [PacketIdentifierStore σ] [LawfulStore σ]
    (entry : Entry (MqttClientFSM σ) Operation (List ExpectedAction)) : Prop :=
  entry.before.isConnected = true →
    match entry.input with
    | .consume (.puback puback) _ => entry.before.uses puback.packetIdentifier ≠ some .nonPublish
    | .consume (.suback suback) _ => entry.before.uses suback.packetIdentifier ≠ some .publish
    | _ => True

/-- The announcements about an identifier: `StorePacket` and `ReleasePacket`, as
whether the caller holds a packet under it afterwards. -/
def announces (id : PacketIdentifier) : ExpectedAction → Option Bool
  | .storePacket other => if other = id then some true else none
  | .releasePacket other => if other = id then some false else none
  | _ => none

def announcements (id : PacketIdentifier) (trace : Trace σ) : List Bool :=
  (trace.flatMap (·.output)).filterMap (announces id)

theorem filterMap_announcement_leases (id : PacketIdentifier) (trace : Trace σ) :
    (trace.flatMap leases).filterMap (Lease.announcement id .publish) = announcements id trace := by
  have action (action : ExpectedAction) :
      action.leases.filterMap (Lease.announcement id .publish) = (announces id action).toList := by
    cases action with
    | sendPacket packet =>
      cases packet <;> simp [ExpectedAction.leases, Lease.announcement, announces]
    | storePacket other | releasePacket other =>
      by_cases same : other = id <;>
        simp [ExpectedAction.leases, Lease.announcement, announces, same]
    | _ => rfl
  have actions (actions : List ExpectedAction) :
      (actions.flatMap ExpectedAction.leases).filterMap (Lease.announcement id .publish) =
        actions.filterMap (announces id) := by
    rw [List.filterMap_flatMap, List.filterMap_eq_flatMap_toList]
    exact List.flatMap_congr fun first _ => action first
  have silent (operation : Operation) (connected : Bool) :
      (operation.leases connected).filterMap (Lease.announcement id .publish) = [] := by
    cases operation with
    | consume packet =>
      cases packet <;> cases connected <;>
        simp [Operation.leases, ExternalInfos.leases, Lease.announcement]
    | _ => simp [Operation.leases, Lease.announcement]
  rw [announcements, List.filterMap_flatMap, List.filterMap_flatMap]
  refine List.flatMap_congr fun entry _ => ?_
  rw [leases, List.filterMap_append, silent, actions, List.nil_append]

section

variable [PacketIdentifierStore σ] [LawfulStore σ] [FxHasher]
  {allowed : (PacketIdentifier → Option PacketIdentifierUsage) → PacketLease → Prop}

/-- A run moves the identifiers by the leases of its steps, whose conditions are
checked where something is given back. -/
theorem runs_move (admits : Admits allowed) {condition : Trace σ → Entry _ _ _ → Prop}
    {start final : MqttClientFSM σ} {trace : Trace σ}
    (gives : ∀ {front before packet currentTime actions},
      Lease.MovesAll allowed start.uses (front.flatMap leases) before.uses →
      condition front ⟨before, .consume packet currentTime, actions⟩ →
      ∀ {id kind}, Acknowledges before (.consumePacket packet) id kind → before.uses id ≠ none →
        allowed before.uses (.give id kind))
    (run : Runs start trace final) (every : EveryStep condition trace) :
    Lease.MovesAll allowed start.uses (trace.flatMap leases) final.uses := by
  refine run.invariant (fun trace final =>
    Lease.MovesAll allowed start.uses (trace.flatMap leases) final.uses) .nil ?_ every
  intro trace before operation actions after moves holds ran
  rw [List.flatMap_append, List.flatMap_singleton]
  refine moves.append (operate_moves admits ran fun id kind member => ?_)
  obtain ⟨packet, currentTime, rfl, acknowledges, used⟩ := give_mem_leases ran member
  exact gives moves holds acknowledges used

end

/-! ### The store and the announcements -/

section

variable [Target] [FxHasher]

omit [FxHasher] in
theorem uses_default : MqttClientFSM.default.uses = fun _ => none :=
  funext UsizePacketIdentifierStore.new_usage

/-- While acknowledgements are solicited, the store and the announcements agree,
and no identifier is handed out while an exchange holds it. -/
theorem accounts_of_runs {final : MqttClientFSM UsizePacketIdentifierStore}
    {trace : Trace UsizePacketIdentifierStore} (run : Runs .default trace final)
    (solicited : EveryStep Solicited trace) :
    (ledgerOf trace).Accounts final.uses ∧
      Disjoint (ledgerOf trace .publish) (ledgerOf trace .nonPublish) ∧
      Lease.Ledger.HandsOutFree (fun _ => ∅) (trace.flatMap leases) := by
  have empty : Lease.Ledger.Accounts (fun _ => ∅) (MqttClientFSM.default).uses := by
    simp [Lease.Ledger.Accounts, uses_default]
  have matching : Admits Lease.Matched := ⟨fun _ _ _ => trivial, fun _ => trivial⟩
  have moves := runs_move matching (fun {front before _ _ _} moves solicited id kind acknowledges _ => by
    have accounts : (ledgerOf front).Accounts before.uses := empty.afterAll moves
    cases acknowledges with
    | puback connected => exact (accounts _ _).mpr (solicited connected)
    | suback connected => exact (accounts _ _).mpr (solicited connected)) run solicited
  have accounts : (ledgerOf trace).Accounts final.uses := empty.afterAll moves
  exact ⟨accounts, accounts.disjoint (by decide), empty.handsOutFree moves⟩

def firstPuback : MqttPacket :=
  .puback ⟨firstIdentifier, ⟨.success, success_mem_puback⟩, .new acknowledgeFields⟩

def publishSession : List Operation :=
  [.handleConnect ⟨0⟩ anonymousConnect, .consume accepting ⟨0⟩, .publish atLeastOnce [⟨0⟩, ⟨0⟩],
    .consume firstPuback ⟨0⟩]

omit [Target] [FxHasher] in
theorem accounts_of_runs_publish :
    ∃ trace final, @Runs _ _ unhashed (@MqttClientFSM.default x86_64) trace final ∧
      trace.map (·.input) = publishSession ∧ (ledgerOf trace).Accounts final.uses ∧
      Disjoint (ledgerOf trace .publish) (ledgerOf trace .nonPublish) ∧
      Lease.Ledger.HandsOutFree (fun _ => ∅) (trace.flatMap leases) := by
  refine ⟨_, _, .next (.next (.next (.next .done rfl) rfl) rfl) rfl, rfl, ?_⟩
  refine @accounts_of_runs x86_64 unhashed _ _
    (.next (.next (.next (.next .done rfl) rfl) rfl) rfl) ?_
  exact .snoc (.snoc (.snoc (.snoc .nil fun _ => trivial) fun _ => trivial) fun _ => trivial)
    fun _ => Finset.mem_insert_self firstIdentifier ∅

/-- Without crossed acknowledgements, the caller is told to store and to release
the packet of an identifier in turns, first to store it. -/
theorem announcements_alternate {final : MqttClientFSM UsizePacketIdentifierStore}
    {trace : Trace UsizePacketIdentifierStore} (run : Runs .default trace final)
    (uncrossed : EveryStep (fun _ => Uncrossed) trace) (id : PacketIdentifier) :
    (false :: announcements id trace).IsChain (· ≠ ·) := by
  have parallel : Admits (Lease.Uncrossed .publish) := ⟨fun _ _ _ => trivial, fun _ => rfl⟩
  have moves := runs_move parallel (fun {_ before _ _ _} _ uncrossed id kind acknowledges used => by
    cases acknowledges with
    | puback connected =>
      cases usage : before.uses _ with
      | none => exact absurd usage used
      | some kind =>
        cases kind with
        | publish => exact iff_of_true usage rfl
        | nonPublish => exact absurd usage (uncrossed connected)
    | suback connected => exact iff_of_false (uncrossed connected) (by decide)) run uncrossed
  have unused : decide ((MqttClientFSM.default).uses id = some .publish) = false := by
    rw [uses_default]
    rfl
  rw [← filterMap_announcement_leases, ← unused]
  exact moves.alternates

omit [Target] [FxHasher] in
theorem announcements_alternate_publish :
    ∃ trace final, @Runs _ _ unhashed (@MqttClientFSM.default x86_64) trace final ∧
      trace.map (·.input) = publishSession ∧
      (false :: announcements firstIdentifier trace).IsChain (· ≠ ·) := by
  refine ⟨_, _, .next (.next (.next (.next .done rfl) rfl) rfl) rfl, rfl, ?_⟩
  refine @announcements_alternate x86_64 unhashed _ _
    (.next (.next (.next (.next .done rfl) rfl) rfl) rfl) ?_ firstIdentifier
  exact .snoc (.snoc (.snoc (.snoc .nil fun _ => trivial) fun _ => trivial) fun _ => trivial)
    fun _ same => nomatch (show some PacketIdentifierUsage.publish = some .nonPublish from same)

def firstSuback : MqttPacket := .suback ⟨firstIdentifier, .new acknowledgeFields, []⟩

omit [Target] [FxHasher] in
/-- A PUBACK for a pending SUBSCRIBE releases a packet that was never stored; a
SUBACK for a stored PUBLISH lets its identifier be stored under again. -/
theorem crossed_acknowledgements :
    (∃ trace final, @Runs _ _ unhashed (@MqttClientFSM.default x86_64) trace final ∧
      trace.map (·.input) = [.handleConnect ⟨0⟩ anonymousConnect, .consume accepting ⟨0⟩,
        .subscribe ⟨0⟩ ⟨firstIdentifier, .new subscribeFields, ⟨[]⟩⟩, .consume firstPuback ⟨0⟩] ∧
      ¬ (false :: announcements firstIdentifier trace).IsChain (· ≠ ·)) ∧
    ∃ trace final, @Runs _ _ unhashed (@MqttClientFSM.default x86_64) trace final ∧
      trace.map (·.input) = [.handleConnect ⟨0⟩ anonymousConnect, .consume accepting ⟨0⟩,
        .publish atLeastOnce [⟨0⟩], .consume firstSuback ⟨0⟩, .publish atLeastOnce [⟨0⟩]] ∧
      ¬ (false :: announcements firstIdentifier trace).IsChain (· ≠ ·) := by
  constructor
  · refine ⟨_, _, .next (.next (.next (.next .done rfl) rfl) rfl) rfl, rfl, ?_⟩
    change ¬ [false, false].IsChain (· ≠ ·)
    simp
  · refine ⟨_, _, .next (.next (.next (.next (.next .done rfl) rfl) rfl) rfl) rfl, rfl, ?_⟩
    change ¬ [false, true, true].IsChain (· ≠ ·)
    simp

end

end Core
