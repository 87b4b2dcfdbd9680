import Mathlib.Data.List.Basic

/-! Runs of a state machine, and what holds in every state they reach. -/

set_option autoImplicit false

namespace Base

structure Entry (σ ι ο : Type) where
  before : σ
  input : ι
  output : ο

variable {σ ι ο : Type}

inductive Run (step : σ → ι → ο → σ → Prop) (start : σ) : List (Entry σ ι ο) → σ → Prop where
  | done : Run step start [] start
  | next {trace : List (Entry σ ι ο)} {before after : σ} {input : ι} {output : ο} :
      Run step start trace before → step before input output after →
      Run step start (trace ++ [⟨before, input, output⟩]) after

/-- Every step of a trace satisfies a condition on the steps before it and on itself. -/
def EveryStep (condition : List (Entry σ ι ο) → Entry σ ι ο → Prop)
    (trace : List (Entry σ ι ο)) : Prop :=
  ∀ front entry back, trace = front ++ entry :: back → condition front entry

theorem EveryStep.nil {condition : List (Entry σ ι ο) → Entry σ ι ο → Prop} :
    EveryStep condition [] := by
  intro front entry back same
  simp at same

theorem everyStep_snoc {condition : List (Entry σ ι ο) → Entry σ ι ο → Prop}
    {trace : List (Entry σ ι ο)} {entry : Entry σ ι ο} :
    EveryStep condition (trace ++ [entry]) ↔ EveryStep condition trace ∧ condition trace entry := by
  constructor
  · intro every
    refine ⟨fun front other back same => ?_, every trace entry [] rfl⟩
    exact every front other (back ++ [entry]) (by simp [same])
  · rintro ⟨every, last⟩ front other back same
    rcases List.eq_nil_or_concat back with rfl | ⟨back, final, rfl⟩
    · obtain ⟨rfl, single⟩ := List.append_inj' same rfl
      obtain rfl := (List.cons.inj single).1
      exact last
    · rw [List.concat_eq_append, ← List.cons_append, ← List.append_assoc] at same
      exact every front other back (List.append_inj' same rfl).1

theorem EveryStep.snoc {condition : List (Entry σ ι ο) → Entry σ ι ο → Prop}
    {trace : List (Entry σ ι ο)} {entry : Entry σ ι ο} (every : EveryStep condition trace)
    (last : condition trace entry) : EveryStep condition (trace ++ [entry]) :=
  everyStep_snoc.mpr ⟨every, last⟩

theorem EveryStep.imp {condition other : List (Entry σ ι ο) → Entry σ ι ο → Prop}
    {trace : List (Entry σ ι ο)} (imp : ∀ front entry, condition front entry → other front entry)
    (every : EveryStep condition trace) : EveryStep other trace :=
  fun front entry back same => imp front entry (every front entry back same)

/-- What is given is passed on in order where it is kept; where not, some of it is lost. -/
structure Balances {τ : Type} (kept : Prop) (given passed : List τ) : Prop where
  keeps : kept → given = passed
  loses : ¬ kept → passed.length < given.length

namespace Balances

variable {τ : Type} {kept kept' : Prop} {given middle passed : List τ}

theorem of_kept (holds : kept) (same : given = passed) : Balances kept given passed :=
  ⟨fun _ => same, fun lost => absurd holds lost⟩

theorem of_lost (lost : ¬ kept) (fewer : passed.length < given.length) :
    Balances kept given passed :=
  ⟨fun holds => absurd holds lost, fun _ => fewer⟩

theorem length_le (balances : Balances kept given passed) : passed.length ≤ given.length := by
  by_cases holds : kept
  · exact Nat.le_of_eq (congrArg List.length (balances.keeps holds)).symm
  · exact Nat.le_of_lt (balances.loses holds)

theorem append_right (balances : Balances kept given passed) (more : List τ) :
    Balances kept (given ++ more) (passed ++ more) := by
  refine ⟨fun holds => by rw [balances.keeps holds], fun lost => ?_⟩
  simpa using balances.loses lost

theorem append_left (balances : Balances kept given passed) (more : List τ) :
    Balances kept (more ++ given) (more ++ passed) := by
  refine ⟨fun holds => by rw [balances.keeps holds], fun lost => ?_⟩
  simpa using balances.loses lost

/-- A loss is not made up for. -/
theorem trans (first : Balances kept given middle) (second : Balances kept' middle passed) :
    Balances (kept ∧ kept') given passed := by
  constructor
  · rintro ⟨holds, holds'⟩
    exact (first.keeps holds).trans (second.keeps holds')
  · intro lost
    by_cases holds : kept
    · rw [first.keeps holds]
      exact second.loses fun holds' => lost ⟨holds, holds'⟩
    · exact Nat.lt_of_le_of_lt second.length_le (first.loses holds)

theorem iff (balances : Balances kept given passed) : given = passed ↔ kept := by
  constructor
  · intro same
    by_contra lost
    exact Nat.ne_of_gt (balances.loses lost) (congrArg List.length same)
  · exact balances.keeps

end Balances

namespace Run

variable {step : σ → ι → ο → σ → Prop} {start : σ}
  {condition : List (Entry σ ι ο) → Entry σ ι ο → Prop}

theorem append {front back : List (Entry σ ι ο)} {middle final : σ}
    (first : Run step start front middle)
    (second : Run step middle back final) : Run step start (front ++ back) final := by
  induction second with
  | done =>
    rw [List.append_nil]
    exact first
  | next _ taken ih =>
    rw [← List.append_assoc]
    exact .next ih taken

theorem of_snoc {trace : List (Entry σ ι ο)} {entry : Entry σ ι ο} {final : σ}
    (run : Run step start (trace ++ [entry]) final) :
    Run step start trace entry.before ∧ step entry.before entry.input entry.output final := by
  generalize same : trace ++ [entry] = all at run
  cases run with
  | done => simp at same
  | next earlier taken =>
    obtain ⟨rfl, single⟩ := List.append_inj' same rfl
    obtain rfl := (List.cons.inj single).1
    exact ⟨earlier, taken⟩

theorem of_append {front back : List (Entry σ ι ο)} {final : σ}
    (run : Run step start (front ++ back) final) :
    ∃ middle, Run step start front middle ∧ Run step middle back final := by
  generalize same : front ++ back = trace at run
  induction run generalizing back with
  | done =>
    obtain ⟨rfl, rfl⟩ := List.append_eq_nil_iff.mp same
    exact ⟨start, .done, .done⟩
  | @next trace before after input output earlier taken ih =>
    rcases List.eq_nil_or_concat back with rfl | ⟨back, last, rfl⟩
    · rw [List.append_nil] at same
      subst same
      exact ⟨after, .next earlier taken, .done⟩
    · rw [List.concat_eq_append, ← List.append_assoc] at same
      obtain ⟨sameFront, single⟩ := List.append_inj' same rfl
      obtain rfl := (List.cons.inj single).1
      obtain ⟨middle, first, second⟩ := ih sameFront
      rw [List.concat_eq_append]
      exact ⟨middle, first, .next second taken⟩

theorem of_entry {front back : List (Entry σ ι ο)} {entry : Entry σ ι ο} {final : σ}
    (run : Run step start (front ++ entry :: back) final) :
    Run step start front entry.before ∧ ∃ after,
      step entry.before entry.input entry.output after ∧ Run step after back final := by
  rw [← List.singleton_append, ← List.append_assoc] at run
  obtain ⟨after, first, second⟩ := run.of_append
  obtain ⟨earlier, taken⟩ := first.of_snoc
  exact ⟨earlier, after, taken, second⟩

/-- What holds at the start and is kept by every step that meets the condition
holds after every run whose steps meet it. -/
theorem invariant (holds : List (Entry σ ι ο) → σ → Prop) (initial : holds [] start)
    (preserved : ∀ {trace before input output after}, holds trace before →
      condition trace ⟨before, input, output⟩ → step before input output after →
      holds (trace ++ [⟨before, input, output⟩]) after)
    {trace : List (Entry σ ι ο)} {final : σ} (run : Run step start trace final)
    (every : EveryStep condition trace) : holds trace final := by
  induction run with
  | done => exact initial
  | next _ taken ih =>
    obtain ⟨earlier, last⟩ := everyStep_snoc.mp every
    exact preserved (ih earlier) last taken

/-- What holds at the start and is kept by every step holds after every run. -/
theorem always (holds : List (Entry σ ι ο) → σ → Prop) (initial : holds [] start)
    (preserved : ∀ {trace before input output after}, holds trace before →
      step before input output after → holds (trace ++ [⟨before, input, output⟩]) after)
    {trace : List (Entry σ ι ο)} {final : σ} (run : Run step start trace final) :
    holds trace final := by
  induction run with
  | done => exact initial
  | next _ taken ih => exact preserved ih taken

/-- What a step keeps up exactly when it meets a condition holds after exactly the
runs whose steps meet it. -/
theorem holds_iff {holds : σ → Prop} {keeps : Entry σ ι ο → Prop} (initial : holds start)
    (exact : ∀ {before input output after}, step before input output after →
      (holds after ↔ holds before ∧ keeps ⟨before, input, output⟩))
    {trace : List (Entry σ ι ο)} {final : σ} (run : Run step start trace final) :
    holds final ↔ EveryStep (fun _ => keeps) trace := by
  induction run with
  | done => exact iff_of_true initial .nil
  | next _ taken ih => rw [exact taken, ih, everyStep_snoc]

/-- Items come in and go out along a run, and are held in between. A step that
keeps passes them on in order; any other step loses some. -/
theorem balances {τ : Type} {received delivered : Entry σ ι ο → List τ} {held : σ → List τ}
    {keeps : Entry σ ι ο → Prop}
    (balance : ∀ {before input output after}, step before input output after →
      Balances (keeps ⟨before, input, output⟩)
        (held before ++ received ⟨before, input, output⟩)
        (delivered ⟨before, input, output⟩ ++ held after))
    (empty : held start = []) {trace : List (Entry σ ι ο)} {final : σ}
    (run : Run step start trace final) :
    Balances (EveryStep (fun _ => keeps) trace) (trace.flatMap received)
      (trace.flatMap delivered ++ held final) := by
  induction run with
  | done => exact .of_kept .nil (by simp [empty])
  | @next trace before after input output _ taken ih =>
    -- what came in before the step, then what the step adds
    have earlier := ih.append_right (received ⟨before, input, output⟩)
    have now := (balance taken).append_left (trace.flatMap delivered)
    rw [List.append_assoc] at earlier
    rw [everyStep_snoc, List.flatMap_append, List.flatMap_append, List.flatMap_singleton,
      List.flatMap_singleton, List.append_assoc]
    exact earlier.trans now

/-- Steps that lower a measure are at most as many as it says, while no other raises it. -/
theorem countP_le (measure : σ → Nat) (counts : Entry σ ι ο → Bool) {keeps : Entry σ ι ο → Prop}
    (lowers : ∀ {before input output after}, step before input output after →
      keeps ⟨before, input, output⟩ →
      (if counts ⟨before, input, output⟩ then 1 else 0) + measure after ≤ measure before)
    {trace : List (Entry σ ι ο)} {final : σ} (run : Run step start trace final)
    (every : EveryStep (fun _ => keeps) trace) :
    trace.countP counts + measure final ≤ measure start := by
  induction run with
  | done => simp
  | next _ taken ih =>
    obtain ⟨earlier, last⟩ := everyStep_snoc.mp every
    have before := ih earlier
    have now := lowers taken last
    rw [List.countP_append, List.countP_singleton]
    omega

theorem unique (deterministic : ∀ {before input output output' after after'},
      step before input output after → step before input output' after' →
        output = output' ∧ after = after') {trace trace' : List (Entry σ ι ο)} {final final' : σ}
    (run : Run step start trace final) (run' : Run step start trace' final')
    (same : trace.map (·.input) = trace'.map (·.input)) : trace = trace' ∧ final = final' := by
  induction run generalizing trace' final' with
  | done =>
    cases run' with
    | done => exact ⟨rfl, rfl⟩
    | next => simp at same
  | next _ taken ih =>
    cases run' with
    | done => simp at same
    | next earlier' taken' =>
      rw [List.map_append, List.map_append] at same
      obtain ⟨sameFront, sameLast⟩ := List.append_inj' same rfl
      obtain ⟨rfl, rfl⟩ := ih earlier' sameFront
      obtain rfl := (List.cons.inj sameLast).1
      obtain ⟨rfl, rfl⟩ := deterministic taken taken'
      exact ⟨rfl, rfl⟩

end Run

/-! ### Machines that answer -/

def answerAll {ε : Type} (answer : σ → ι → Except ε (ο × σ)) : σ → List ι → Except ε (List ο × σ)
  | state, [] => .ok ([], state)
  | state, request :: more =>
    match answer state request with
    | .error e => .error e
    | .ok (response, next) =>
      match answerAll answer next more with
      | .error e => .error e
      | .ok (responses, final) => .ok (response :: responses, final)

/-- A machine whose every answer is one of the abstract machine's runs as that does. -/
theorem answerAll_refines {ε τ : Type} {answer : σ → ι → Except ε (ο × σ)}
    (step : τ → ι → ο → τ → Prop) (view : σ → τ) {allowed : ι → Prop}
    (refines : ∀ state request, allowed request → ∃ response next,
      answer state request = .ok (response, next) ∧
        step (view state) request response (view next))
    (state : σ) {requests : List ι} (all : ∀ request ∈ requests, allowed request) :
    ∃ trace final, answerAll answer state requests = .ok (trace.map (·.output), final) ∧
      Run step (view state) trace (view final) ∧ trace.map (·.input) = requests := by
  induction requests generalizing state with
  | nil => exact ⟨[], state, rfl, .done, rfl⟩
  | cons request more ih =>
    obtain ⟨now, later⟩ := List.forall_mem_cons.mp all
    obtain ⟨response, next, answered, taken⟩ := refines state request now
    obtain ⟨trace, final, rest, run, inputs⟩ := ih next later
    have first : Run step (view state) ([] ++ [⟨view state, request, response⟩]) (view next) :=
      .next .done taken
    refine ⟨⟨view state, request, response⟩ :: trace, final, ?_, first.append run, ?_⟩
    · rw [answerAll, answered]
      simp only [rest, List.map_cons]
    · rw [List.map_cons, inputs]

end Base
