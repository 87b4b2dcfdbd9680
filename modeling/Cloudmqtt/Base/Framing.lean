import Mathlib.Data.List.Basic

/-! Decoders that take frames off the front of a growing buffer. -/

set_option autoImplicit false

namespace Base

abbrev Decoder (ε α β : Type) : Type := List β → Except ε (Option α) × List β

structure Polled (ε α β : Type) where
  items : List α
  failure : Option ε
  left : List β

variable {ε α β : Type}

namespace Polled

def cons (a : α) (rest : Polled ε α β) : Polled ε α β := { rest with items := a :: rest.items }

def andThen (first second : Polled ε α β) : Polled ε α β :=
  { second with items := first.items ++ second.items }

/-- The same items and failure; the buffer matters only without a failure. -/
structure Agrees (first second : Polled ε α β) : Prop where
  items : first.items = second.items
  failure : first.failure = second.failure
  left : first.failure = none → first.left = second.left

theorem Agrees.symm {first second : Polled ε α β} (agrees : first.Agrees second) :
    second.Agrees first :=
  ⟨agrees.items.symm, agrees.failure.symm,
    fun none => (agrees.left (agrees.failure.trans none)).symm⟩

theorem Agrees.trans {first second third : Polled ε α β} (agrees : first.Agrees second)
    (more : second.Agrees third) : first.Agrees third :=
  ⟨agrees.items.trans more.items, agrees.failure.trans more.failure,
    fun none => (agrees.left none).trans (more.left (agrees.failure.symm.trans none))⟩

end Polled

/-- Call a decoder until it waits or fails. The bound counts calls. -/
def pollUpTo (decode : Decoder ε α β) : Nat → List β → Polled ε α β
  | 0, buffer => ⟨[], none, buffer⟩
  | bound + 1, buffer =>
    match decode buffer with
    | (.error e, left) => ⟨[], some e, left⟩
    | (.ok none, left) => ⟨[], none, left⟩
    | (.ok (some a), left) => (pollUpTo decode bound left).cons a

/-- Every item takes something off the buffer, so this many calls are enough. -/
def poll (decode : Decoder ε α β) (buffer : List β) : Polled ε α β :=
  pollUpTo decode (buffer.length + 1) buffer

def push (decode : Decoder ε α β) (sofar : Polled ε α β) (chunk : List β) : Polled ε α β :=
  match sofar.failure with
  | some _ => sofar
  | none => sofar.andThen (poll decode (sofar.left ++ chunk))

def feed (decode : Decoder ε α β) (chunks : List (List β)) : Polled ε α β :=
  chunks.foldl (push decode) ⟨[], none, []⟩

inductive Polls (decode : Decoder ε α β) : List β → Polled ε α β → Prop where
  | wait {buffer left : List β} : decode buffer = (.ok none, left) →
      Polls decode buffer ⟨[], none, left⟩
  | fail {buffer left : List β} {e : ε} : decode buffer = (.error e, left) →
      Polls decode buffer ⟨[], some e, left⟩
  | item {buffer left : List β} {a : α} {rest : Polled ε α β} :
      decode buffer = (.ok (some a), left) → Polls decode left rest →
      Polls decode buffer (rest.cons a)

/-- A wait changes nothing, and every other decision holds for each longer buffer. -/
structure Incremental (decode : Decoder ε α β) : Prop where
  empty : decode [] = (.ok none, [])
  wait {buffer left : List β} : decode buffer = (.ok none, left) → left = buffer
  item {buffer left : List β} {a : α} : decode buffer = (.ok (some a), left) →
    left.length < buffer.length ∧ ∀ more, decode (buffer ++ more) = (.ok (some a), left ++ more)
  fail {buffer left : List β} {e : ε} : decode buffer = (.error e, left) →
    ∀ more, decode (buffer ++ more) = (.error e, left ++ more)

namespace Incremental

variable {decode : Decoder ε α β}

theorem polls_upTo (incremental : Incremental decode) {bound : Nat} {buffer : List β}
    (enough : buffer.length < bound) : Polls decode buffer (pollUpTo decode bound buffer) := by
  induction bound generalizing buffer with
  | zero => exact absurd enough (Nat.not_lt_zero _)
  | succ bound ih =>
    unfold pollUpTo
    split
    next call => exact .fail call
    next call => exact .wait call
    next call =>
      have shorter := (incremental.item call).1
      exact .item call (ih (by omega))

theorem polls (incremental : Incremental decode) (buffer : List β) :
    Polls decode buffer (poll decode buffer) :=
  incremental.polls_upTo (Nat.lt_succ_self _)

end Incremental

namespace Polls

variable {decode : Decoder ε α β} {buffer more : List β}

theorem unique {first second : Polled ε α β} (calls : Polls decode buffer first)
    (others : Polls decode buffer second) : first = second := by
  induction calls generalizing second with
  | wait call =>
    cases others with
    | wait call' => rw [(Prod.mk.inj (call.symm.trans call')).2]
    | fail call' | item call' => simp [call] at call'
  | fail call =>
    cases others with
    | fail call' =>
      obtain ⟨same, rfl⟩ := Prod.mk.inj (call.symm.trans call')
      rw [Except.error.inj same]
    | wait call' | item call' => simp [call] at call'
  | item call _ ih =>
    cases others with
    | item call' rest =>
      obtain ⟨same, rfl⟩ := Prod.mk.inj (call.symm.trans call')
      obtain rfl := Option.some.inj (Except.ok.inj same)
      rw [ih rest]
    | wait call' | fail call' => simp [call] at call'

/-- Without a failure, a longer buffer is polled on from where the shorter one waited. -/
theorem append {first second : Polled ε α β} (incremental : Incremental decode)
    (calls : Polls decode buffer first) (none : first.failure = none)
    (rest : Polls decode (first.left ++ more) second) :
    Polls decode (buffer ++ more) (first.andThen second) := by
  induction calls with
  | wait call =>
    obtain rfl := incremental.wait call
    exact rest
  | fail => simp at none
  | item call _ ih => exact .item ((incremental.item call).2 more) (ih none rest)

theorem append_failed {first : Polled ε α β} {e : ε} (incremental : Incremental decode)
    (calls : Polls decode buffer first) (failed : first.failure = some e) (more : List β) :
    Polls decode (buffer ++ more) { first with left := first.left ++ more } := by
  induction calls with
  | wait => simp at failed
  | fail call => exact .fail (incremental.fail call more)
  | item call _ ih => exact .item ((incremental.item call).2 more) (ih failed)

end Polls

namespace Incremental

variable {decode : Decoder ε α β}

theorem push_agrees (incremental : Incremental decode) {sofar : Polled ε α β} {buffer : List β}
    (agrees : sofar.Agrees (poll decode buffer)) (chunk : List β) :
    (push decode sofar chunk).Agrees (poll decode (buffer ++ chunk)) := by
  have calls := incremental.polls buffer
  have whole := incremental.polls (buffer ++ chunk)
  unfold push
  split
  next e failed =>
    rw [← (calls.append_failed incremental (agrees.failure.symm.trans failed) chunk).unique whole]
    exact ⟨agrees.items, agrees.failure, fun none => absurd (failed.symm.trans none) (by simp)⟩
  next none =>
    rw [agrees.left none]
    have rest := incremental.polls ((poll decode buffer).left ++ chunk)
    have same := calls.append incremental (agrees.failure.symm.trans none) rest
    rw [← same.unique whole]
    exact ⟨by simp only [Polled.andThen, agrees.items], rfl, fun _ => rfl⟩

-- Induction on the chunks; the buffered bytes and what was decided so far are carried.
theorem foldl_push_agrees (incremental : Incremental decode) {sofar : Polled ε α β}
    {buffer : List β} (agrees : sofar.Agrees (poll decode buffer)) (chunks : List (List β)) :
    (chunks.foldl (push decode) sofar).Agrees (poll decode (buffer ++ chunks.flatten)) := by
  induction chunks generalizing sofar buffer with
  | nil => simpa using agrees
  | cons chunk chunks ih =>
    rw [List.foldl_cons, List.flatten_cons, ← List.append_assoc]
    exact ih (incremental.push_agrees agrees chunk)

/-- Chunk by chunk is the same as all at once. -/
theorem feed_agrees (incremental : Incremental decode) (chunks : List (List β)) :
    (feed decode chunks).Agrees (poll decode chunks.flatten) := by
  have nothing : (⟨[], none, []⟩ : Polled ε α β) = poll decode [] :=
    (Polls.wait incremental.empty).unique (incremental.polls [])
  exact incremental.foldl_push_agrees
    ⟨by rw [← nothing], by rw [← nothing], by rw [← nothing]; simp⟩
    chunks

theorem feed_congr (incremental : Incremental decode) {first second : List (List β)}
    (same : first.flatten = second.flatten) : (feed decode first).Agrees (feed decode second) :=
  (incremental.feed_agrees first).trans (same ▸ (incremental.feed_agrees second).symm)

end Incremental

end Base
