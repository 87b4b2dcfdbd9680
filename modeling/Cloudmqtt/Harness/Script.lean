import Cloudmqtt.Harness.TestHarness

/-! Test cases line by line, between the steps of the clients and brokers they started: the
names that a line knows are those of the lines before it.
-/

set_option autoImplicit false

namespace Harness

open Base Rust V5 Core Client

-- Sleeping is left out: the steps it lets happen are steps of a run.
inductive Verb where
  | startBroker (name : String)
  | createClient (name : String)
  | connectToBroker (client broker : String)
  | publish (client payload topic : String)
  | publishToClient (broker client payload topic : String)
  | connectReceivedOnBroker (broker client clientIdentifier : String)
  | publishReceivedOnBroker (broker client payload topic : String)

section

variable {ς : Type} [Target] [Build]

/-- A condition answers; a verb that returns answers that it did. -/
def TestHarness.perform (self : TestHarness ς) :
    Verb → Option (Except HarnessFault Bool × TestHarness ς)
  | .startBroker name => some (.ok true, self.startBroker name)
  | .createClient name => some (.ok true, self.createClient name)
  | .connectToBroker client broker => (self.connectClientToBroker client broker).map returned
  | .publish client payload topic => (self.publish client payload topic).map returned
  | .publishToClient broker client payload topic =>
    (self.publishToClient broker client payload topic).map returned
  | .connectReceivedOnBroker broker client clientIdentifier =>
    some ((self.checkForConnectOnBroker broker client clientIdentifier).mapError .error, self)
  | .publishReceivedOnBroker broker client payload topic =>
    some ((self.checkForPublishOnBroker broker client payload topic).mapError .error, self)
where
  returned : Except HarnessFault Unit × TestHarness ς → Except HarnessFault Bool × TestHarness ς
    | (result, after) => (result.map fun () => true, after)

inductive ScriptEvent where
  | call (verb : Verb)
  | client (name : String) (event : ClientEvent)
  | broker (name client : String) (event : BrokerEvent)

/-- A line that returned, or a step of a client or of a connection of a broker. A line that
fails ends the test case. -/
inductive ScriptSteps [FxHasher] (before : TestHarness ς) :
    ScriptEvent → Option Bool → TestHarness ς → Prop where
  | call {verb : Verb} {answer : Bool} {after : TestHarness ς} :
      before.perform verb = some (.ok answer, after) →
      ScriptSteps before (.call verb) (some answer) after
  | client {name : String} {client : TestClient ς} {event : ClientEvent} {output : ClientOutput}
      {coreClient : CoreClient} : before.clients.lookup name = some client →
      CoreClient.Steps client.client.coreClient event output coreClient →
      ScriptSteps before (.client name event) none
        (before.updateClient name { client with client := { client.client with coreClient } })
  | broker {name client : String} {broker : Broker} {event : BrokerEvent} {output : BrokerOutput}
      {connection after : ConnectionState} : before.brokers.lookup name = some broker →
      broker.connections.lookup client = some connection →
      BrokerSteps connection event output after →
      ScriptSteps before (.broker name client event) none (before.updateBroker name
        { broker with connections := broker.connections.insert client after })

end

abbrev ScriptTrace (ς : Type) [Target] : Type :=
  List (Entry (TestHarness ς) ScriptEvent (Option Bool))

abbrev ScriptRuns {ς : Type} [Target] [Build] [FxHasher] : ScriptTrace ς → TestHarness ς → Prop :=
  Run ScriptSteps .new

/-! ### Names -/

/-- What the lines so far have named: the connections by client and broker. -/
structure Names where
  brokers : List String
  clients : List String
  connections : List (String × String)

namespace Names

-- A broker that is started again has no connections.
def after (self : Names) : ScriptEvent → Names
  | .call (.startBroker name) =>
    { self with
      brokers := name :: self.brokers
      connections := self.connections.filter (·.2 ≠ name) }
  | .call (.createClient name) => { self with clients := name :: self.clients }
  | .call (.connectToBroker client broker) =>
    { self with connections := (client, broker) :: self.connections }
  | _ => self

def missingConnection (self : Names) (broker client : String) : Option TestHarnessError :=
  if broker ∉ self.brokers then some (.brokerNotFound broker)
  else if (client, broker) ∉ self.connections then some (.clientNotFound client)
  else none

def missing (self : Names) : Verb → Option TestHarnessError
  | .startBroker _ | .createClient _ => none
  | .connectToBroker client broker =>
    if broker ∉ self.brokers then some (.brokerNotFound broker)
    else if client ∉ self.clients then some (.clientNotFound client)
    else none
  | .publish client _ _ => if client ∉ self.clients then some (.clientNotFound client) else none
  | .publishToClient broker client _ _ | .connectReceivedOnBroker broker client _
  | .publishReceivedOnBroker broker client _ _ => self.missingConnection broker client

end Names

def namesOf {ς : Type} [Target] (trace : ScriptTrace ς) : Names :=
  (trace.map (·.input)).foldl Names.after ⟨[], [], []⟩

def TestHarnessError.isNotFound : TestHarnessError → Bool
  | .brokerNotFound _ | .clientNotFound _ => true
  | _ => false

section

variable {ς : Type} [Target] {names : Names} {before after : TestHarness ς}

structure Names.Knows (names : Names) (harness : TestHarness ς) : Prop where
  brokers : ∀ name, name ∈ harness.brokers ↔ name ∈ names.brokers
  clients : ∀ name, name ∈ harness.clients ↔ name ∈ names.clients
  named : ∀ name client, harness.clients.lookup name = some client → client.name = name
  connections : ∀ name broker, harness.brokers.lookup name = some broker →
    ∀ client, client ∈ broker.connections ↔ (client, name) ∈ names.connections

omit [Target] in
theorem mem_insert_of_lookup {β : Type} {map : AList fun _ : String => β} {name : String} {b b' : β}
    (found : map.lookup name = some b) (other : String) :
    other ∈ map.insert name b' ↔ other ∈ map := by
  rw [AList.mem_insert]
  refine or_iff_right_of_imp ?_
  rintro rfl
  exact AList.lookup_isSome.mp (by rw [found]; rfl)

theorem Names.Knows.updateClient (knows : names.Knows before) {name : String}
    {client client' : TestClient ς} (found : before.clients.lookup name = some client)
    (same : client'.name = client.name) :
    names.Knows (before.updateClient name client') := by
  refine ⟨knows.brokers, fun other => ?_, fun other found' => ?_, knows.connections⟩
  · exact (mem_insert_of_lookup found other).trans (knows.clients other)
  · intro looked
    change (before.clients.insert name client').lookup other = some found' at looked
    by_cases here : other = name
    · subst here
      rw [AList.lookup_insert] at looked
      rw [← Option.some.inj looked, same]
      exact knows.named other client found
    · rw [AList.lookup_insert_ne here] at looked
      exact knows.named other found' looked

theorem Names.Knows.updateBroker (knows : names.Knows before) {name : String}
    {broker broker' : Broker} (found : before.brokers.lookup name = some broker)
    (same : ∀ client, client ∈ broker'.connections ↔ client ∈ broker.connections) :
    names.Knows (before.updateBroker name broker') := by
  refine ⟨fun other => ?_, knows.clients, knows.named, fun other found' looked client => ?_⟩
  · exact (mem_insert_of_lookup found other).trans (knows.brokers other)
  · change (before.brokers.insert name broker').lookup other = some found' at looked
    by_cases here : other = name
    · subst here
      rw [AList.lookup_insert] at looked
      obtain rfl := Option.some.inj looked
      exact (same client).trans (knows.connections other broker found client)
    · rw [AList.lookup_insert_ne here] at looked
      exact knows.connections other found' looked client

theorem Names.Knows.startBroker (knows : names.Knows before) (name : String) :
    (names.after (.call (.startBroker name))).Knows (before.startBroker name) := by
  refine ⟨fun other => ?_, knows.clients, knows.named, fun other broker looked client => ?_⟩
  · exact (AList.mem_insert _).trans ((or_congr_right (knows.brokers other)).trans
      List.mem_cons.symm)
  · change (before.brokers.insert name (Broker.new name)).lookup other = some broker at looked
    change _ ↔ (client, other) ∈ names.connections.filter _
    rw [List.mem_filter, decide_eq_true_iff]
    by_cases here : other = name
    · subst here
      rw [AList.lookup_insert] at looked
      obtain rfl := Option.some.inj looked
      exact iff_of_false (AList.notMem_empty client) fun both => both.2 rfl
    · rw [AList.lookup_insert_ne here] at looked
      rw [knows.connections other broker looked, and_iff_left here]

theorem Names.Knows.createClient (knows : names.Knows before) (name : String) :
    (names.after (.call (.createClient name))).Knows (before.createClient name) := by
  refine ⟨knows.brokers, fun other => ?_, fun other client looked => ?_, knows.connections⟩
  · exact (AList.mem_insert _).trans ((or_congr_right (knows.clients other)).trans
      List.mem_cons.symm)
  · change (before.clients.insert name ⟨.new, name⟩).lookup other = some client at looked
    by_cases here : other = name
    · subst here
      rw [AList.lookup_insert] at looked
      rw [← Option.some.inj looked]
    · rw [AList.lookup_insert_ne here] at looked
      exact knows.named other client looked

theorem Names.Knows.connect (knows : names.Knows before) {name : String} {broker : Broker}
    (found : before.brokers.lookup name = some broker) (clientName : String) :
    (names.after (.call (.connectToBroker clientName name))).Knows
      (before.updateBroker name (broker.greets clientName)) := by
  refine ⟨fun other => ?_, knows.clients, knows.named, fun other broker' looked client => ?_⟩
  · exact (mem_insert_of_lookup found other).trans (knows.brokers other)
  · change (before.brokers.insert name _).lookup other = some broker' at looked
    change _ ↔ (client, other) ∈ (clientName, name) :: names.connections
    rw [List.mem_cons, Prod.mk.injEq]
    by_cases here : other = name
    · subst here
      rw [AList.lookup_insert] at looked
      obtain rfl := Option.some.inj looked
      rw [and_iff_left rfl, ← knows.connections other broker found]
      exact AList.mem_insert _
    · rw [AList.lookup_insert_ne here] at looked
      rw [knows.connections other broker' looked, or_iff_right fun both => here both.2]

section

variable [Build]

theorem connectClientToBroker_eq_ok {clientName brokerName : String}
    (returned : before.connectClientToBroker clientName brokerName = some (.ok (), after)) :
    ∃ broker client client', before.brokers.lookup brokerName = some broker ∧
      before.clients.lookup clientName = some client ∧ client'.name = client.name ∧
      after = (before.updateBroker brokerName (broker.greets client.name)).updateClient clientName
        client' := by
  unfold TestHarness.connectClientToBroker at returned
  split at returned
  next => cases returned
  next => cases returned
  next broker client found known =>
    obtain ⟨⟨result, client', broker'⟩, ran, same⟩ := Option.map_eq_some_iff.mp returned
    obtain ⟨rfl, rfl⟩ := Prod.mk.inj same
    rcases client.connectToAndAck_cases broker with ⟨_, made, -, connects⟩ | ⟨_, _, -, unwinds⟩
    · obtain ⟨-, rfl, rfl⟩ := Prod.mk.inj (Option.some.inj (ran.symm.trans connects))
      exact ⟨broker, client, { client with client := made }, found, known, rfl, rfl⟩
    · cases (Prod.mk.inj (Option.some.inj (ran.symm.trans unwinds))).1

theorem publish_eq_ok {clientName payload topic : String}
    (returned : before.publish clientName payload topic = some (.ok (), after)) :
    ∃ client client', before.clients.lookup clientName = some client ∧
      client'.name = client.name ∧ after = before.updateClient clientName client' := by
  unfold TestHarness.publish at returned
  split at returned
  next => cases returned
  next client found =>
    obtain ⟨⟨result, client'⟩, ran, same⟩ := Option.map_eq_some_iff.mp returned
    obtain ⟨-, rfl⟩ := Prod.mk.inj same
    exact ⟨client, { client with client := client' }, found, rfl, rfl⟩

omit [Build] in
theorem returned_eq_ok {call : Option (Except HarnessFault Unit × TestHarness ς)} {answer : Bool}
    (ran : call.map TestHarness.perform.returned = some (.ok answer, after)) :
    call = some (.ok (), after) := by
  obtain ⟨⟨result, state⟩, called, same⟩ := Option.map_eq_some_iff.mp ran
  obtain ⟨returned, rfl⟩ := Prod.mk.inj same
  cases result with
  | error => cases returned
  | ok => exact called

theorem Names.Knows.call (knows : names.Knows before) {verb : Verb} {answer : Bool}
    (ran : before.perform verb = some (.ok answer, after)) :
    (names.after (.call verb)).Knows after := by
  cases verb with
  | startBroker name =>
    obtain ⟨-, rfl⟩ := Prod.mk.inj (Option.some.inj ran)
    exact knows.startBroker name
  | createClient name =>
    obtain ⟨-, rfl⟩ := Prod.mk.inj (Option.some.inj ran)
    exact knows.createClient name
  | connectToBroker clientName name =>
    obtain ⟨broker, client, client', found, known, same, rfl⟩ :=
      connectClientToBroker_eq_ok (returned_eq_ok ran)
    rw [knows.named clientName client known]
    exact (knows.connect found clientName).updateClient known same
  | publish clientName =>
    obtain ⟨client, client', known, same, rfl⟩ := publish_eq_ok (returned_eq_ok ran)
    exact knows.updateClient known same
  | publishToClient name clientName =>
    obtain ⟨broker, broker', found, sent, rfl⟩ := publishToClient_eq_ok (returned_eq_ok ran)
    obtain ⟨state, made, connected, -, rfl⟩ := send_eq_ok sent
    exact knows.updateBroker found (mem_insert_of_lookup connected)
  | connectReceivedOnBroker | publishReceivedOnBroker =>
    obtain ⟨-, rfl⟩ := Prod.mk.inj (Option.some.inj ran)
    exact knows

theorem Names.Knows.step [FxHasher] (knows : names.Knows before) {event : ScriptEvent}
    {answer : Option Bool} (step : ScriptSteps before event answer after) :
    (names.after event).Knows after := by
  cases step with
  | call ran => exact knows.call ran
  | client found => exact knows.updateClient found rfl
  | broker found connected => exact knows.updateBroker found (mem_insert_of_lookup connected)

/-- Whatever the tasks did in between, the names are those of the lines. -/
theorem knows_of_runs [FxHasher] {trace : ScriptTrace ς} {harness : TestHarness ς}
    (run : ScriptRuns trace harness) : (namesOf trace).Knows harness := by
  induction run with
  | done =>
    refine ⟨fun name => ?_, fun name => ?_, fun name client found => ?_,
      fun name broker found => ?_⟩
    · exact iff_of_false (AList.notMem_empty name) List.not_mem_nil
    · exact iff_of_false (AList.notMem_empty name) List.not_mem_nil
    · cases found
    · cases found
  | next _ step ih =>
    rw [namesOf, List.map_append, List.foldl_append]
    exact ih.step step

/-! ### Calls that fail for a name -/

omit [Build] in
theorem Names.Knows.noBroker (knows : names.Knows before) {name : String}
    (unknown : name ∉ names.brokers) : before.brokers.lookup name = none :=
  AList.lookup_eq_none.mpr fun member => unknown ((knows.brokers name).mp member)

omit [Build] in
theorem Names.Knows.broker (knows : names.Knows before) {name : String}
    (known : name ∈ names.brokers) : ∃ broker, before.brokers.lookup name = some broker :=
  Option.isSome_iff_exists.mp (AList.lookup_isSome.mpr ((knows.brokers name).mpr known))

omit [Build] in
theorem Names.Knows.noClient (knows : names.Knows before) {name : String}
    (unknown : name ∉ names.clients) : before.clients.lookup name = none :=
  AList.lookup_eq_none.mpr fun member => unknown ((knows.clients name).mp member)

omit [Build] in
theorem Names.Knows.client (knows : names.Knows before) {name : String}
    (known : name ∈ names.clients) : ∃ client, before.clients.lookup name = some client :=
  Option.isSome_iff_exists.mp (AList.lookup_isSome.mpr ((knows.clients name).mpr known))

inductive FindsConnection (harness : TestHarness ς) (name clientName : String) :
    Option TestHarnessError → Prop where
  | noBroker : harness.brokers.lookup name = none →
      FindsConnection harness name clientName (some (.brokerNotFound name))
  | noConnection {broker : Broker} : harness.brokers.lookup name = some broker →
      broker.connections.lookup clientName = none →
      FindsConnection harness name clientName (some (.clientNotFound clientName))
  | connection {broker : Broker} {connection : ConnectionState} :
      harness.brokers.lookup name = some broker →
      broker.connections.lookup clientName = some connection →
      FindsConnection harness name clientName none

omit [Build] in
theorem Names.Knows.findsConnection (knows : names.Knows before) (name clientName : String) :
    FindsConnection before name clientName (names.missingConnection name clientName) := by
  unfold missingConnection
  split
  next unknown => exact .noBroker (knows.noBroker unknown)
  next known =>
    obtain ⟨broker, found⟩ := knows.broker (not_not.mp known)
    have member := knows.connections name broker found clientName
    split
    next unknown =>
      exact .noConnection found (AList.lookup_eq_none.mpr fun there => unknown (member.mp there))
    next known =>
      obtain ⟨connection, connected⟩ := Option.isSome_iff_exists.mp
        (AList.lookup_isSome.mpr (member.mpr (not_not.mp known)))
      exact .connection found connected

/-- A line fails for the name it misses, and otherwise for none. -/
inductive Answers (names : Names) (harness : TestHarness ς) (verb : Verb) : Prop where
  | missing (e : TestHarnessError) : names.missing verb = some e → e.isNotFound = true →
      (∃ after, harness.perform verb = some (.error (.error e), after)) →
      Answers names harness verb
  | found : names.missing verb = none → (∀ e after,
      harness.perform verb = some (.error (.error e), after) → e.isNotFound = false) →
      Answers names harness verb

omit [Build] in
theorem returned_eq_error {call : Option (Except HarnessFault Unit × TestHarness ς)}
    {e : TestHarnessError}
    (ran : call.map TestHarness.perform.returned = some (.error (.error e), after)) :
    call = some (.error (.error e), after) := by
  obtain ⟨⟨result, state⟩, called, same⟩ := Option.map_eq_some_iff.mp ran
  obtain ⟨returned, rfl⟩ := Prod.mk.inj same
  cases result with
  | error fault =>
    obtain rfl : fault = .error e := Except.error.inj returned
    exact called
  | ok => cases returned

theorem Names.Knows.connectToBroker (knows : names.Knows before) (clientName name : String) :
    Answers names before (.connectToBroker clientName name) := by
  by_cases known : name ∈ names.brokers
  · obtain ⟨broker, found⟩ := knows.broker known
    by_cases created : clientName ∈ names.clients
    · obtain ⟨client, looked⟩ := knows.client created
      refine .found (by simp [missing, known, created]) fun e after ran => ?_
      have called := returned_eq_error ran
      simp only [TestHarness.connectClientToBroker, found, looked] at called
      rcases client.connectToAndAck_cases broker with ⟨_, _, -, connects⟩ | ⟨_, _, -, unwinds⟩
      · simp [connects] at called
      · simp [unwinds] at called
    · refine .missing (.clientNotFound clientName) (by simp [missing, known, created]) rfl ?_
      simp only [TestHarness.perform, TestHarness.connectClientToBroker, found,
        knows.noClient created]
      exact ⟨_, rfl⟩
  · refine .missing (.brokerNotFound name) (by simp [missing, known]) rfl ?_
    simp only [TestHarness.perform, TestHarness.connectClientToBroker, knows.noBroker known]
    exact ⟨_, rfl⟩

theorem Names.Knows.publish (knows : names.Knows before) (clientName payload topic : String) :
    Answers names before (.publish clientName payload topic) := by
  by_cases created : clientName ∈ names.clients
  · obtain ⟨client, looked⟩ := knows.client created
    refine .found (by simp [missing, created]) fun e after ran => ?_
    have called := returned_eq_error ran
    simp only [TestHarness.publish, looked] at called
    obtain ⟨⟨result, _⟩, -, same⟩ := Option.map_eq_some_iff.mp called
    obtain ⟨failed, -⟩ := Prod.mk.inj same
    cases result with
    | ok => cases failed
    | error fault =>
      cases fault with
      | panic => cases failed
      | error => cases failed; rfl
  · refine .missing (.clientNotFound clientName) (by simp [missing, created]) rfl ?_
    simp only [TestHarness.perform, TestHarness.publish, knows.noClient created]
    exact ⟨_, rfl⟩

omit [Target] in
theorem send_failed {broker after : Broker} {clientName : String} {connection : ConnectionState}
    (connected : broker.connections.lookup clientName = some connection) {packet : MqttPacket}
    {e : TestHarnessError}
    (sent : broker.send clientName packet = some (.error (.error e), after)) : e = .channel := by
  unfold Broker.send at sent
  rw [connected] at sent
  dsimp only at sent
  split at sent
  next => cases sent
  next =>
    obtain ⟨result, -, same⟩ := Option.map_eq_some_iff.mp sent
    cases result with
    | ok => cases same
    | error => cases same; rfl

theorem Names.Knows.publishToClient (knows : names.Knows before)
    (name clientName payload topic : String) :
    Answers names before (.publishToClient name clientName payload topic) := by
  have finds := knows.findsConnection name clientName
  generalize missed : names.missingConnection name clientName = missing at finds
  cases finds with
  | noBroker none =>
    refine .missing _ missed rfl ?_
    simp only [TestHarness.perform, TestHarness.publishToClient, none]
    exact ⟨_, rfl⟩
  | noConnection found none =>
    refine .missing _ missed rfl ?_
    simp only [TestHarness.perform, TestHarness.publishToClient, found, Broker.send, none]
    exact ⟨_, rfl⟩
  | connection found connected =>
    refine .found missed fun e after ran => ?_
    have called := returned_eq_error ran
    simp only [TestHarness.publishToClient, found] at called
    obtain ⟨⟨result, _⟩, sent, same⟩ := Option.map_eq_some_iff.mp called
    obtain ⟨rfl, -⟩ := Prod.mk.inj same
    rw [send_failed connected sent]
    rfl

theorem Names.Knows.checks (knows : names.Knows before) {name clientName : String} {verb : Verb}
    (asks : names.missing verb = names.missingConnection name clientName)
    {func : MqttPacket → Except TestHarnessError Bool}
    (performs : before.perform verb = some (Except.mapError HarnessFault.error
      (match before.brokers.lookup name with
        | none => .error (.brokerNotFound name)
        | some broker => broker.hasReceivedPacket clientName func), before))
    (other : ∀ (packets : List MqttPacket) (e : TestHarnessError),
      packets.anyM func = .error e → e.isNotFound = false) :
    Answers names before verb := by
  have finds := knows.findsConnection name clientName
  rw [← asks] at finds
  generalize missed : names.missing verb = missing at finds
  cases finds with
  | noBroker none =>
    rw [none] at performs
    exact .missing _ missed rfl ⟨_, performs⟩
  | noConnection found none =>
    simp only [found, Broker.hasReceivedPacket, none] at performs
    exact .missing _ missed rfl ⟨_, performs⟩
  | @connection _ connection found connected =>
    simp only [found, Broker.hasReceivedPacket, connected] at performs
    refine .found missed fun e after ran => ?_
    obtain ⟨failed, -⟩ := Prod.mk.inj (Option.some.inj (performs.symm.trans ran))
    cases recorded : connection.receivedPackets.anyM func with
    | ok => rw [recorded] at failed; cases failed
    | error e' =>
      rw [recorded] at failed
      cases failed
      exact other _ _ recorded

omit [Target] [Build] in
theorem greetingVerdict_error {clientIdentifier : String} {identifiers : List String}
    {e : TestHarnessError} (failed : greetingVerdict clientIdentifier identifiers = .error e) :
    e.isNotFound = false := by
  cases identifiers with
  | nil => cases failed
  | cons got =>
    rw [greetingVerdict] at failed
    split at failed
    next => cases failed
    next => cases failed; rfl

omit [Target] [Build] in
theorem verdict_error {topic : String} {messages : List (String × List UInt8)}
    {e : TestHarnessError} (failed : verdict topic messages = .error e) :
    e.isNotFound = false := by
  cases messages with
  | nil => cases failed
  | cons message =>
    rw [verdict] at failed
    split at failed
    next => cases failed; rfl
    next =>
      split at failed
      next => cases failed
      next => cases failed; rfl

theorem Names.Knows.answers (knows : names.Knows before) (verb : Verb) :
    Answers names before verb := by
  cases verb with
  | startBroker | createClient =>
    refine .found rfl fun e after ran => ?_
    cases (Prod.mk.inj (Option.some.inj ran)).1
  | connectToBroker clientName name => exact knows.connectToBroker clientName name
  | publish clientName payload topic => exact knows.publish clientName payload topic
  | publishToClient name clientName payload topic =>
    exact knows.publishToClient name clientName payload topic
  | connectReceivedOnBroker name clientName clientIdentifier =>
    refine knows.checks rfl rfl fun packets e failed => ?_
    rw [anyM_checkConnect] at failed
    exact greetingVerdict_error failed
  | publishReceivedOnBroker name clientName payload topic =>
    refine knows.checks rfl rfl fun packets e failed => ?_
    rw [anyM_checkPublish] at failed
    exact verdict_error failed

/-- In every test case, and whatever its tasks have done so far, a line fails for a broker
that no line before it started, a client that none created, or a connection that none made
since the broker was started last; it fails so for no other reason. -/
theorem notFound_of_runs [FxHasher] {trace : ScriptTrace ς} {harness : TestHarness ς}
    (run : ScriptRuns trace harness) (verb : Verb) {e : TestHarnessError}
    (notFound : e.isNotFound = true) :
    (∃ after, harness.perform verb = some (.error (.error e), after)) ↔
      (namesOf trace).missing verb = some e := by
  cases (knows_of_runs run).answers verb with
  | missing e' missing _ fails =>
    obtain ⟨after, fails⟩ := fails
    rw [missing, Option.some.injEq]
    constructor
    · rintro ⟨after', failed⟩
      cases failed.symm.trans fails
      rfl
    · rintro rfl
      exact ⟨after, fails⟩
  | found present others =>
    rw [present]
    refine iff_of_false ?_ nofun
    rintro ⟨after, failed⟩
    cases (others e after failed).symm.trans notFound

end

end

/-! ### A broker that is started again -/

section

attribute [local instance] development x86_64 unhashed

theorem notFound_of_runs_restarted : ∃ (trace : ScriptTrace Nat) (harness : TestHarness Nat),
    ScriptRuns trace harness ∧ trace.map (·.input) = [.call (.startBroker "b1"),
      .call (.createClient "c1"), .call (.connectToBroker "c1" "b1"), .call (.startBroker "b1")] ∧
    ((∃ after, harness.perform (.publishToClient "b1" "c1" "x" "a") =
        some (.error (.error (.clientNotFound "c1")), after)) ↔
      (namesOf trace).missing (.publishToClient "b1" "c1" "x" "a") =
        some (.clientNotFound "c1")) := by
  let started : TestHarness Nat := TestHarness.new.startBroker "b1"
  let named := started.createClient "c1"
  obtain ⟨connected, connects⟩ : ∃ connected,
      named.perform (.connectToBroker "c1" "b1") = some (.ok true, connected) := ⟨_, rfl⟩
  have start : ScriptSteps TestHarness.new (.call (.startBroker "b1")) (some true) started :=
    .call rfl
  have create : ScriptSteps started (.call (.createClient "c1")) (some true) named := .call rfl
  have restart : ScriptSteps connected (.call (.startBroker "b1")) (some true)
    (connected.startBroker "b1") := .call rfl
  have run : ScriptRuns _ _ :=
    .next (.next (.next (.next .done start) create) (.call connects)) restart
  exact ⟨_, _, run, rfl, notFound_of_runs run (.publishToClient "b1" "c1" "x" "a") rfl⟩

end

end Harness
