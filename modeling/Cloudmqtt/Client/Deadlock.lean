import Cloudmqtt.Client.Delivery

/-! The routing task waits for room in a subscription that nobody can poll yet, and the
call that is to return the subscription waits for the filter map that the task guards.
-/

set_option autoImplicit false

namespace Client

open Base Rust V5 Core

/-- A filter that stands before the first invalid one would wait. -/
def RoutingState.blocks {ς : Type} [DashMap] (self : RoutingState ς)
    (topicFilters : List String) : Bool :=
  (topicFilters.takeWhile fun f => (TopicFilterBuf.new f).isOk).any self.Guards

namespace RoutingState

variable {ς : Type} [DashMap] {self other : RoutingState ς} {topicFilter : String}
  {remaining : List String}

theorem guards_congr (same : other.routing = self.routing) : other.Guards = self.Guards := by
  funext topicFilter
  rw [Guards, same]
  rfl

theorem blocks_congr (same : other.routing = self.routing) : other.blocks = self.blocks := by
  funext topicFilters
  rw [blocks, guards_congr same]
  rfl

theorem blocks_invalid {e : TopicError} (invalid : TopicFilterBuf.new topicFilter = .error e) :
    self.blocks (topicFilter :: remaining) = false := by
  simp [blocks, invalid, Except.isOk, Except.toBool]

theorem blocks_cons {filter : TopicFilterBuf}
    (made : TopicFilterBuf.new topicFilter = .ok filter) :
    self.blocks (topicFilter :: remaining) =
      (self.Guards topicFilter || self.blocks remaining) := by
  simp [blocks, made, Except.isOk, Except.toBool]

theorem addSubscriptionToTopic_invalid {id : SubscriptionId} {e : TopicError}
    (invalid : TopicFilterBuf.new topicFilter = .error e) :
    self.addSubscriptionToTopic id topicFilter = some (.error .unwrapError) := by
  have free : self.Guards topicFilter = false := by
    unfold Guards
    rw [invalid]
    cases self.routing <;> rfl
  rw [addSubscriptionToTopic, free, Router.addSubscriptionToTopic, invalid]
  rfl

theorem addSubscriptionToTopic_failed {id : SubscriptionId} {p : Panic}
    (failed : self.addSubscriptionToTopic id topicFilter = some (.error p)) :
    self.blocks (topicFilter :: remaining) = false := by
  cases made : TopicFilterBuf.new topicFilter with
  | error e => exact blocks_invalid made
  | ok filter =>
    unfold addSubscriptionToTopic at failed
    rw [Router.addSubscriptionToTopic_eq_ok _ _ made] at failed
    split at failed <;> cases failed

end RoutingState

namespace Scene

variable {ς : Type} [Target]

/-- The routing task has a packet for the call's own sink, and the channel is full. -/
structure Waits (scene : Scene ς) (routing : Routing ς) (sink : ς) (remaining : List String) :
    Prop where
  call : ∃ id, scene.stage = .registering id sink remaining ∧ routing.sending = some (id, sink)
  held : scene.router.routing = some routing
  full : ∃ packet, scene.router.sinks sink = some (.live (some packet))

variable {topicFilters : List String} {before after : Scene ς} {routing : Routing ς} {sink : ς}
  {remaining : List String}

theorem Waits.no_room (waits : before.Waits routing sink remaining) : ¬ before.router.HasRoom := by
  obtain ⟨⟨id, -, sending⟩, held, packet, full⟩ := waits
  intro room
  exact room routing id sink held sending packet full

variable [FxHasher] [DashMap] [DecidableEq ς] {input : SceneEvent ς} {output : SceneOutput ς}

/-- Nothing is sent, and the call comes no further than to the guarded filter. -/
theorem Waits.step (waits : before.Waits routing sink remaining)
    (blocked : before.router.blocks remaining = true)
    (step : Steps topicFilters before input output after) :
    (∃ remaining, after.Waits routing sink remaining ∧ after.router.blocks remaining = true) ∧
      ∀ delivery, output ≠ .sent delivery := by
  have stuck := waits.no_room
  obtain ⟨⟨id, stage, sending⟩, held, packet, full⟩ := waits
  have unreturned {other : ς} (returned : before.Returned other) : other ≠ sink := by
    rintro rfl
    rw [returned id remaining stage] at blocked
    cases blocked
  have elsewhere {other : ς} {channel : Option SinkChannel} (apart : other ≠ sink) :
      Function.update before.router.sinks other channel sink = some (.live (some packet)) := by
    rw [Function.update_of_ne apart.symm]
    exact full
  have quiet (delivery : Option (Delivery ς)) : SceneOutput.quiet ≠ .sent delivery := nofun
  cases step with
  | hand packed => cases stage.symm.trans packed
  | refuse packed => cases stage.symm.trans packed
  | addSink _ handed => cases stage.symm.trans handed
  | @addFilter id' sink' topicFilter rest router stage' added =>
    obtain ⟨rfl, rfl, rfl⟩ := Stage.registering.inj (stage.symm.trans stage')
    obtain ⟨free, router, -, rfl⟩ := RoutingState.addSubscriptionToTopic_eq_ok added
    refine ⟨⟨rest, ⟨⟨id, rfl, sending⟩, held, packet, full⟩, ?_⟩, quiet⟩
    cases made : TopicFilterBuf.new topicFilter with
    | error e =>
      rw [RoutingState.blocks_invalid made] at blocked
      cases blocked
    | ok filter =>
      rw [RoutingState.blocks_cons made, free, Bool.false_or] at blocked
      exact blocked
  | unwind stage' failed =>
    obtain ⟨-, -, rfl⟩ := Stage.registering.inj (stage.symm.trans stage')
    rw [RoutingState.addSubscriptionToTopic_failed failed] at blocked
    cases blocked
  | client ran room =>
    refine ⟨⟨remaining, ⟨⟨id, stage, sending⟩, held, packet, full⟩, blocked⟩, ?_⟩
    intro delivery same
    cases same
  | register registers =>
    refine ⟨⟨remaining, ?_, RoutingState.blocks_congr registers.router.2 ▸ blocked⟩, quiet⟩
    cases registers with
    | sink other fresh =>
      have apart : other ≠ sink := by
        rintro rfl
        cases full.symm.trans fresh
      exact ⟨⟨id, stage, sending⟩, held, packet, elsewhere apart⟩
    | topic _ _ _ added =>
      obtain ⟨-, router, -, rfl⟩ := RoutingState.addSubscriptionToTopic_eq_ok added
      exact ⟨⟨id, stage, sending⟩, held, packet, full⟩
  | receive idle => cases held.symm.trans idle
  | advance ran =>
    refine absurd ((RoutingState.advance_isSome_iff held).mp ?_) stuck
    rw [ran]
    rfl
  | poll returned polled =>
    obtain ⟨-, rfl⟩ := RoutingState.pollNext_eq_some polled
    refine ⟨⟨remaining, ⟨⟨id, stage, sending⟩, held, packet, ?_⟩, blocked⟩, quiet⟩
    exact elsewhere (unreturned returned)
  | drop returned =>
    refine ⟨⟨remaining, ⟨⟨id, stage, sending⟩, held, packet, ?_⟩, blocked⟩, quiet⟩
    exact elsewhere (unreturned returned)

/-- Where nothing is in the way, the call returns and the subscription is polled, or the
call unwinds and the receiver goes with it. -/
theorem Waits.run (waits : before.Waits routing sink remaining)
    (free : before.router.blocks remaining = false) : ∃ trace final,
      SceneRuns topicFilters before trace final ∧ final.router.HasRoom := by
  induction remaining generalizing before with
  | nil =>
    obtain ⟨⟨id, stage, sending⟩, held, packet, full⟩ := waits
    have polled : before.router.pollNext sink = some (packet, { before.router with
        sinks := Function.update before.router.sinks sink (some (.live none)) }) := by
      rw [RoutingState.pollNext, full]
    refine ⟨_, _, .next .done (.poll (fun _ _ returned => ?_) polled), ?_⟩
    · obtain ⟨-, -, rfl⟩ := Stage.registering.inj (stage.symm.trans returned)
      rfl
    · intro other _ _ held' sending' packet'
      obtain rfl := Option.some.inj (held.symm.trans held')
      obtain ⟨-, rfl⟩ := Prod.mk.inj (Option.some.inj (sending.symm.trans sending'))
      simp
  | cons topicFilter remaining ih =>
    obtain ⟨⟨id, stage, sending⟩, held, packet, full⟩ := waits
    cases made : TopicFilterBuf.new topicFilter with
    | error e =>
      have failed : before.router.addSubscriptionToTopic id topicFilter =
          some (.error .unwrapError) := RoutingState.addSubscriptionToTopic_invalid made
      refine ⟨_, _, .next .done (.unwind stage failed), ?_⟩
      intro other _ _ held' sending' packet'
      obtain rfl := Option.some.inj (held.symm.trans held')
      obtain ⟨-, rfl⟩ := Prod.mk.inj (Option.some.inj (sending.symm.trans sending'))
      simp [RoutingState.drop]
    | ok filter =>
      rw [RoutingState.blocks_cons made, Bool.or_eq_false_iff] at free
      obtain ⟨router, added⟩ : ∃ router, before.router.addSubscriptionToTopic id topicFilter =
          some (.ok { before.router with router }) := by
        rw [RoutingState.addSubscriptionToTopic, free.1,
          Router.addSubscriptionToTopic_eq_ok _ _ made]
        exact ⟨_, rfl⟩
      let next : Scene ς := { before with
        router := { before.router with router }
        stage := .registering id sink remaining }
      have waits : next.Waits routing sink remaining :=
        ⟨⟨id, rfl, sending⟩, held, packet, full⟩
      obtain ⟨trace, final, run, room⟩ := ih waits free.2
      exact ⟨_, final, (Run.next .done (.addFilter stage added)).append run, room⟩

/-- The two wait for each other for good exactly when the call still has to register a
filter that is guarded. -/
theorem deadlock_iff (waits : before.Waits routing sink remaining) :
    ((∃ trace final, SceneRuns topicFilters before trace final ∧ final.router.HasRoom) ↔
      before.router.blocks remaining = false) ∧
    (before.router.blocks remaining = true → ∀ trace final,
      SceneRuns topicFilters before trace final →
        (∃ remaining, remaining ≠ [] ∧ final.Waits routing sink remaining) ∧
          ∀ entry ∈ trace, ∀ delivery, entry.output ≠ .sent delivery) := by
  have stuck {trace : List (SceneEntry ς)} {final : Scene ς}
      (blocked : before.router.blocks remaining = true)
      (run : SceneRuns topicFilters before trace final) :
      (∃ remaining, final.Waits routing sink remaining ∧
        final.router.blocks remaining = true) ∧
          ∀ entry ∈ trace, ∀ delivery, entry.output ≠ .sent delivery := by
    induction run with
    | done => exact ⟨⟨remaining, waits, blocked⟩, by simp⟩
    | next _ taken ih =>
      obtain ⟨⟨_, waits, blocked⟩, silent⟩ := ih
      obtain ⟨still, quiet⟩ := waits.step blocked taken
      refine ⟨still, fun entry member => ?_⟩
      rcases List.mem_append.mp member with member | member
      · exact silent entry member
      · rw [List.mem_singleton.mp member]
        exact quiet
  constructor
  · constructor
    · rintro ⟨trace, final, run, room⟩
      by_contra blocked
      obtain ⟨⟨_, waits, -⟩, -⟩ := stuck (Bool.eq_true_of_not_eq_false blocked) run
      exact waits.no_room room
    · exact waits.run
  · intro blocked trace final run
    obtain ⟨⟨remaining, waits, blocked⟩, silent⟩ := stuck blocked run
    refine ⟨⟨remaining, ?_, waits⟩, silent⟩
    rintro rfl
    cases blocked

end Scene

/-! ### A filter that is asked for twice -/

namespace Scene

attribute [local instance] development x86_64 unhashed oneShard

/-- Two messages come between the two registrations. -/
theorem deadlock_repeated : ∃ (start self : Scene Nat) (trace : List (SceneEntry Nat))
    (routing : Routing Nat), start.Initial ["a", "a"] ∧
      SceneRuns ["a", "a"] start trace self ∧
      trace.map (·.input) = retained ++ [.addSink 10, .addFilter, .receive registeredA, .advance,
        .advance, .advance, .client message, .receive registeredA, .advance] ∧
      self.Waits routing 10 ["a"] ∧ self.router.blocks ["a"] = true ∧
      ((∃ trace final, SceneRuns ["a", "a"] self trace final ∧ final.router.HasRoom) ↔
        self.router.blocks ["a"] = false) ∧
      (self.router.blocks ["a"] = true → ∀ trace final,
        SceneRuns ["a", "a"] self trace final →
          (∃ remaining, remaining ≠ [] ∧ final.Waits routing 10 remaining) ∧
            ∀ entry ∈ trace, ∀ delivery, entry.output ≠ .sent delivery) := by
  obtain ⟨request, packed⟩ : ∃ request, subscribePacket ["a", "a"] = .ok (.subscribe request) :=
    ⟨_, rfl⟩
  obtain ⟨start, trace, coreClient, initial, run, inputs, -, -, again, passes⟩ :=
    retained_run packed List.mem_cons_self
  have registered : SceneRuns ["a", "a"] start _ _ := .next (.next run (.addSink 10 rfl rfl))
    (.addFilter rfl (RoutingState.addSubscriptionToTopic_idle rfl
      (Router.addSubscriptionToTopic_eq_ok _ _ filter_a)))
  have filled : SceneRuns ["a", "a"] start _ _ := .next (.next (.next (.next registered
    (.receive rfl rfl (.refl registeredA) rfl)) (.advance rfl)) (.advance rfl)) (.advance rfl)
  have waiting : SceneRuns ["a", "a"] start _ _ := .next (.next (.next filled
    (.client passes (.inl (Nat.le_refl 1)))) (.receive rfl rfl (.refl registeredA) rfl))
    (.advance rfl)
  let routing : Routing Nat :=
    ⟨.publish (publishTo "a"), ⟨[.path levelA], false⟩, some (⟨0⟩, 10), []⟩
  refine ⟨start, _, _, routing, initial, waiting, by simp [inputs], ?_⟩
  refine ⟨⟨⟨⟨0⟩, rfl, rfl⟩, rfl, _, rfl⟩, rfl, ?_⟩
  exact deadlock_iff ⟨⟨⟨0⟩, rfl, rfl⟩, rfl, _, rfl⟩

end Scene

end Client
