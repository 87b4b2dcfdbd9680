import Cloudmqtt.Core.Accounting

/-! How long identifiers stay in use: those of SUBSCRIBEs no longer than the
connection, those of PUBLISHes until they are acknowledged.
-/

set_option autoImplicit false

namespace Core

open Base Rust V5

variable {σ : Type} [PacketIdentifierStore σ] [LawfulStore σ]

/-- Without a connection, only PUBLISHes hold identifiers. -/
def Released (self : MqttClientFSM σ) : Prop :=
  self.isConnected = false → ∀ id, self.uses id ≠ some .nonPublish

def KeepsPublishes (self after : MqttClientFSM σ) : Prop :=
  ∀ id, after.uses id = (self.uses id).filter (·.isPublish)

theorem keepsPublishes_resetConnection (self : MqttClientFSM σ) :
    KeepsPublishes self self.resetConnection :=
  fun id => congrFun (uses_resetConnection self) id

theorem KeepsPublishes.released {self after : MqttClientFSM σ}
    (keeps : KeepsPublishes self after) : Released after := by
  intro _ id used
  rw [keeps id, Option.filter_eq_some_iff] at used
  exact nomatch used.2

section

variable [FxHasher] {self after : MqttClientFSM σ} {currentTime : MqttInstant}

theorem MqttClientFSM.Transition.released {infos : ExternalInfos} {action : Option ExpectedAction}
    (transition : self.Transition currentTime infos action after) (released : Released self) :
    Released after := by
  cases transition with
  | disconnected | awaited | received | receivedOnce => exact released
  | connack _ ran =>
    obtain ⟨-, -, rfl⟩ := handleConnack_eq_ok ran
    intro unconnected
    cases unconnected
  | disconnect => exact (keepsPublishes_resetConnection self).released
  | puback connected ran | suback connected ran =>
    obtain ⟨_, rfl, -⟩ := releaseContained_eq_ok ran
    intro unconnected
    exact nomatch unconnected.symm.trans (isConnected_of_connected connected)
  | pingresp | sent =>
    intro unconnected
    cases unconnected
  | @elapsed con connected =>
    intro unconnected
    rcases self.ping_cases con currentTime with pinged | pinged
    · rw [pinged] at unconnected
      cases unconnected
    · rw [pinged] at unconnected
      exact nomatch unconnected.symm.trans (isConnected_of_connected connected)

omit [FxHasher] in
theorem released_of_taken {id : PacketIdentifier} {clientPis : σ}
    (taken : PacketIdentifierStore.getNextFree self.clientPis .publish = .ok (some id, clientPis))
    (released : Released self) : Released { self with clientPis := clientPis } := by
  intro unconnected other used
  obtain ⟨-, same⟩ := LawfulStore.getNextFree_usage taken
  change LawfulStore.usage clientPis other = some .nonPublish at used
  rw [same] at used
  by_cases equal : other = id
  · rw [equal, Function.update_self] at used
    cases used
  · rw [Function.update_of_ne equal] at used
    exact released unconnected other used

theorem Published.released {packet : MPublish} {times : List MqttInstant}
    {actions : List ExpectedAction} (published : Published self packet times actions after)
    (released : Released self) : Released after := by
  cases published with
  | unused => exact released
  | sent transition => exact transition.released released
  | stored taken => exact released_of_taken taken released
  | storedAndSent taken transition => exact transition.released (released_of_taken taken released)

omit [FxHasher] in
theorem Dismissed.released {packet : MDisconnect} {times : List MqttInstant}
    {actions : List ExpectedAction} (dismissed : Dismissed self packet times actions after)
    (released : Released self) : Released after := by
  cases dismissed with
  | unused | sent => exact released
  | reset => exact (keepsPublishes_resetConnection self).released

theorem operate_released {operation : Operation} {actions : List ExpectedAction}
    (ran : self.operate operation = .ok (actions, after)) (released : Released self) :
    Released after := by
  cases MqttClientFSM.performs_of_operate ran with
  | handleConnect disconnected =>
    intro _
    apply released
    exact MqttClientFSM.isConnected_of_disconnected disconnected
  | consume transition | run transition => exact transition.released released
  | publish => exact (MqttClientFSM.published_of_operate ran).released released
  | subscribe | acknowledge =>
    intro unconnected
    cases unconnected
  | disconnect called => exact (dismissed_of_drive called).released released
  | connectionLost => exact (keepsPublishes_resetConnection _).released

/-! ### Transitions to the disconnected state -/

/-- The step ends a connection, or says so. -/
def Ends (self : MqttClientFSM σ) (operation : Operation) (actions : List ExpectedAction)
    (after : MqttClientFSM σ) : Prop :=
  (self.connectionState ≠ .disconnected ∧ after.connectionState = .disconnected) ∨
    .disconnect ∈ actions ∨ ∃ currentTime, operation = .connectionLost currentTime

def Ended (self after : MqttClientFSM σ) : Prop :=
  after.connectionState = .disconnected ∧ KeepsPublishes self after

omit [FxHasher] in
theorem ended_resetConnection (self : MqttClientFSM σ) : Ended self self.resetConnection :=
  ⟨rfl, keepsPublishes_resetConnection self⟩

structure Lasts (before : MqttClientFSM σ) (actions : List ExpectedAction)
    (after : MqttClientFSM σ) : Prop where
  state : after.connectionState = .disconnected → before.connectionState = .disconnected
  unsaid : .disconnect ∉ actions

omit [LawfulStore σ] in
theorem MqttClientFSM.Transition.lasts {infos : ExternalInfos} {action : Option ExpectedAction}
    (transition : self.Transition currentTime infos action after)
    (unasked : ∀ disconnect, infos ≠ .consumePacket (.disconnect disconnect)) :
    Lasts self action.toList after := by
  cases transition with
  | disconnected | awaited | received | receivedOnce => exact ⟨id, by simp⟩
  | @connack _ connack _ _ _ ran =>
    obtain ⟨-, rfl, rfl⟩ := handleConnack_eq_ok ran
    refine ⟨(fun same => nomatch same), ?_⟩
    cases connack.properties.slot .assignedClientIdentifier <;> simp
  | disconnect => exact absurd rfl (unasked _)
  | puback _ ran | suback _ ran =>
    obtain ⟨_, rfl, -⟩ := releaseContained_eq_ok ran
    exact ⟨id, by simp⟩
  | pingresp | sent => exact ⟨(fun same => nomatch same), by simp⟩
  | @elapsed con =>
    rcases self.ping_cases con currentTime with pinged | pinged
    · rw [pinged]
      exact ⟨(fun same => nomatch same), by simp⟩
    · rw [pinged]
      exact ⟨id, by simp⟩

theorem MqttClientFSM.Transition.ended {infos : ExternalInfos} {action : Option ExpectedAction}
    (transition : self.Transition currentTime infos action after) :
    Lasts self action.toList after ∨ Ended self after := by
  by_cases unasked : ∀ disconnect, infos ≠ .consumePacket (.disconnect disconnect)
  · exact .inl (transition.lasts unasked)
  · obtain ⟨disconnect, asked⟩ := not_forall.mp unasked
    obtain rfl := not_not.mp asked
    cases transition with
    | disconnected => exact .inl ⟨id, by simp⟩
    | disconnect => exact .inr (ended_resetConnection self)

omit [LawfulStore σ] in
theorem Published.lasts {packet : MPublish} {times : List MqttInstant}
    {actions : List ExpectedAction} (published : Published self packet times actions after) :
    Lasts self actions after := by
  cases published with
  | unused | stored => exact ⟨id, by simp⟩
  | sent transition =>
    obtain ⟨state, unsaid⟩ := transition.lasts fun _ same => nomatch same
    exact ⟨state, unsaid⟩
  | storedAndSent _ transition =>
    obtain ⟨state, unsaid⟩ := transition.lasts fun _ same => nomatch same
    exact ⟨state, by simp [unsaid]⟩

omit [FxHasher] in
theorem Dismissed.ended {packet : MDisconnect} {times : List MqttInstant}
    {actions : List ExpectedAction} (dismissed : Dismissed self packet times actions after) :
    Lasts self actions after ∨ Ended self after := by
  cases dismissed with
  | unused | sent => exact .inl ⟨id, by simp⟩
  | reset => exact .inr (ended_resetConnection self)

omit [PacketIdentifierStore σ] [LawfulStore σ] [FxHasher] in
theorem Lasts.not_ends {operation : Operation} {actions : List ExpectedAction}
    (lasts : Lasts self actions after)
    (kept : ∀ currentTime, operation ≠ .connectionLost currentTime) :
    ¬ Ends self operation actions after := by
  rintro (⟨connected, disconnected⟩ | said | ⟨currentTime, same⟩)
  · exact connected (lasts.state disconnected)
  · exact lasts.unsaid said
  · exact kept currentTime same

theorem operate_ended {operation : Operation} {actions : List ExpectedAction}
    (ran : self.operate operation = .ok (actions, after))
    (ends : Ends self operation actions after) : Ended self after := by
  have lasting (kept : ∀ currentTime, operation ≠ .connectionLost currentTime)
      (cases : Lasts self actions after ∨ Ended self after) : Ended self after :=
    cases.resolve_left fun lasts => lasts.not_ends kept ends
  cases MqttClientFSM.performs_of_operate ran with
  | handleConnect =>
    apply lasting fun _ same => by cases same
    exact .inl ⟨(fun same => by cases same), by simp⟩
  | consume transition | run transition =>
    apply lasting fun _ same => by cases same
    rcases transition.ended with ⟨state, unsaid⟩ | ended
    · exact .inl ⟨state, unsaid⟩
    · exact .inr ended
  | publish =>
    apply lasting fun _ same => by cases same
    exact .inl (MqttClientFSM.published_of_operate ran).lasts
  | subscribe | acknowledge =>
    apply lasting fun _ same => by cases same
    exact .inl ⟨(fun same => by cases same), by simp⟩
  | disconnect called =>
    apply lasting fun _ same => by cases same
    exact (dismissed_of_drive called).ended
  | connectionLost => exact ended_resetConnection _

end

/-! ### Runs -/

section

variable [Target] [FxHasher]

/-- Identifiers of SUBSCRIBEs are in use on a connection only, and every step that
ends one keeps those of PUBLISHes. -/
theorem lifetime_of_runs {trace : Trace UsizePacketIdentifierStore}
    {final : MqttClientFSM UsizePacketIdentifierStore} (run : Runs .default trace final) :
    (final.isConnected = false → ∀ id, final.uses id ≠ some .nonPublish) ∧
      ∀ operation actions after, final.operate operation = .ok (actions, after) →
        Ends final operation actions after →
        after.connectionState = .disconnected ∧ KeepsPublishes final after := by
  constructor
  · have initial : Released (MqttClientFSM.default : MqttClientFSM UsizePacketIdentifierStore) := by
      intro _ id
      rw [uses_default]
      simp
    change Released final
    induction run with
    | done => exact initial
    | next _ taken released => exact operate_released taken released
  · intro operation actions after ran ends
    exact operate_ended ran ends

end

section

attribute [local instance] x86_64 unhashed

def anonymousSubscribe : MSubscribe := ⟨firstIdentifier, .new subscribeFields, ⟨[]⟩⟩

theorem lifetime_connectionLost : ∃ trace final,
    Runs MqttClientFSM.default trace final ∧
      trace.map (·.input) = [.handleConnect ⟨0⟩ anonymousConnect, .consume accepting ⟨0⟩,
        .subscribe ⟨0⟩ anonymousSubscribe, .publish atLeastOnce [⟨0⟩, ⟨0⟩], .connectionLost ⟨0⟩] ∧
      (final.isConnected = false → ∀ id, final.uses id ≠ some .nonPublish) ∧
      ∀ operation actions after, final.operate operation = .ok (actions, after) →
        Ends final operation actions after →
        after.connectionState = .disconnected ∧ KeepsPublishes final after := by
  have session : ∃ trace final, Runs MqttClientFSM.default trace final ∧
      trace.map (·.input) = [.handleConnect ⟨0⟩ anonymousConnect, .consume accepting ⟨0⟩,
        .subscribe ⟨0⟩ anonymousSubscribe, .publish atLeastOnce [⟨0⟩, ⟨0⟩], .connectionLost ⟨0⟩] :=
    ⟨_, _, .next (.next (.next (.next (.next .done rfl) rfl) rfl) rfl) rfl, rfl⟩
  obtain ⟨trace, final, run, inputs⟩ := session
  exact ⟨trace, final, run, inputs, lifetime_of_runs run⟩

end

end Core
