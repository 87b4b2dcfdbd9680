import Cloudmqtt.Base.Framing

/-! Frames in a row, and how far a decoder has come in them. -/

set_option autoImplicit false

namespace Base

variable {ε α β : Type}

/-- A front of the first frame that is not all of it; there is nothing behind the last frame. -/
def Unfinished (left : List β) : List (List β) → Prop
  | [] => left = []
  | frame :: _ => left <+: frame ∧ left ≠ frame

/-- A front of some frames in a row ends inside one of them, or behind the last. -/
theorem exists_unfinished {buffer : List β} (frames : List (List β))
    (front : buffer <+: frames.flatten) : ∃ read pending left, frames = read ++ pending ∧
      buffer = read.flatten ++ left ∧ Unfinished left pending := by
  induction frames generalizing buffer with
  | nil =>
    have empty := List.prefix_nil.mp front
    exact ⟨[], [], buffer, rfl, rfl, empty⟩
  | cons frame frames ih =>
    rw [List.flatten_cons] at front
    by_cases whole : frame <+: buffer
    · obtain ⟨behind, rfl⟩ := whole
      have more := (List.prefix_append_right_inj frame).mp front
      obtain ⟨read, pending, left, rfl, rfl, unfinished⟩ := ih more
      refine ⟨frame :: read, pending, left, rfl, ?_, unfinished⟩
      rw [List.flatten_cons, List.append_assoc]
    · refine ⟨[], frame :: frames, buffer, rfl, rfl, ?_, ?_⟩
      · have within := List.prefix_append frame frames.flatten
        exact (List.prefix_or_prefix_of_prefix front within).resolve_right whole
      · intro same
        exact whole (same ▸ List.prefix_rfl)

theorem Unfinished.eq_nil {read pending : List (List β)} {left : List β}
    (unfinished : Unfinished left pending)
    (all : read.flatten ++ left = (read ++ pending).flatten) : pending = [] := by
  rw [List.flatten_append, List.append_cancel_left_eq] at all
  cases pending with
  | nil => rfl
  | cons frame pending =>
    obtain ⟨front, part⟩ := unfinished
    rw [List.flatten_cons] at all
    have lengths := congrArg List.length all
    rw [List.length_append] at lengths
    have shorter : left.length < frame.length := by
      apply Nat.lt_of_le_of_ne front.length_le
      intro same
      exact part (front.eq_of_length same)
    omega

theorem Polled.Agrees.eq {first second : Polled ε α β} (agrees : first.Agrees second)
    (none : second.failure = none) : first = second := by
  have failure := agrees.failure
  have left := agrees.left (failure.trans none)
  have items := agrees.items
  cases first
  cases second
  cases items
  cases failure
  cases left
  rfl

theorem feed_items_front (decode : Decoder ε α β) (chunks more : List (List β)) :
    (feed decode chunks).items <+: (feed decode (chunks ++ more)).items := by
  rw [feed, feed, List.foldl_append]
  generalize chunks.foldl (push decode) ⟨[], none, []⟩ = sofar
  induction more generalizing sofar with
  | nil => exact List.prefix_rfl
  | cons chunk more ih =>
    have grown : sofar.items <+: (push decode sofar chunk).items := by
      unfold push
      split
      · exact List.prefix_rfl
      · exact List.prefix_append _ _
    exact grown.trans (ih _)

theorem feed_concat (decode : Decoder ε α β) (chunks : List (List β)) (chunk : List β) :
    feed decode (chunks ++ [chunk]) = push decode (feed decode chunks) chunk := by
  rw [feed, List.foldl_append]
  rfl

namespace Incremental

variable {decode : Decoder ε α β}

theorem poll_of_wait (incremental : Incremental decode) {buffer left : List β}
    (call : decode buffer = (.ok none, left)) : poll decode buffer = ⟨[], none, buffer⟩ := by
  obtain rfl := incremental.wait call
  exact (incremental.polls left).unique (.wait call)

theorem poll_of_item (incremental : Incremental decode) {buffer left : List β} {a : α}
    (call : decode buffer = (.ok (some a), left)) :
    poll decode buffer = (poll decode left).cons a :=
  (incremental.polls buffer).unique (.item call (incremental.polls left))

theorem waits (incremental : Incremental decode) {frame front : List β} {a : α}
    (whole : decode frame = (.ok (some a), [])) (isFront : front <+: frame) (part : front ≠ frame) :
    decode front = (.ok none, front) := by
  obtain ⟨more, rfl⟩ := isFront
  cases call : decode front with
  | mk outcome left =>
    cases outcome with
    | error e =>
      rw [incremental.fail call more] at whole
      cases congrArg Prod.fst whole
    | ok item =>
      cases item with
      | none => rw [incremental.wait call]
      | some b =>
        -- an item decided on the front would leave the rest of the frame behind
        rw [(incremental.item call).2 more] at whole
        obtain ⟨-, nothing⟩ := List.append_eq_nil_iff.mp (congrArg Prod.snd whole)
        rw [nothing, List.append_nil] at part
        exact absurd rfl part

/-- Of frames in a row, those that are complete have been read. -/
theorem polls_frames (incremental : Incremental decode) {read pending : List (List β × α)}
    {left : List β} (whole : ∀ f ∈ read ++ pending, decode f.1 = (.ok (some f.2), []))
    (unfinished : Unfinished left (pending.map Prod.fst)) :
    Polls decode ((read.map Prod.fst).flatten ++ left) ⟨read.map Prod.snd, none, left⟩ := by
  induction read with
  | nil =>
    cases pending with
    | nil =>
      rw [unfinished]
      exact .wait incremental.empty
    | cons f pending =>
      obtain ⟨front, part⟩ := unfinished
      exact .wait (incremental.waits (whole f List.mem_cons_self) front part)
  | cons f read ih =>
    have rest := ih fun g member => whole g (List.mem_cons_of_mem f member)
    have call := (incremental.item (whole f List.mem_cons_self)).2
      ((read.map Prod.fst).flatten ++ left)
    rw [List.map_cons, List.flatten_cons, List.append_assoc]
    exact .item call rest

/-- However a front of the frames arrives, the complete ones have been read, and
the bytes behind them wait. -/
theorem feed_frames (incremental : Incremental decode) {frames : List (List β × α)}
    (whole : ∀ f ∈ frames, decode f.1 = (.ok (some f.2), [])) {chunks : List (List β)}
    (arrived : chunks.flatten <+: (frames.map Prod.fst).flatten) :
    ∃ read pending left, frames = read ++ pending ∧
      chunks.flatten = (read.map Prod.fst).flatten ++ left ∧
      Unfinished left (pending.map Prod.fst) ∧
      feed decode chunks = ⟨read.map Prod.snd, none, left⟩ := by
  obtain ⟨_, _, left, cut, same, unfinished⟩ := exists_unfinished _ arrived
  obtain ⟨read, pending, rfl, rfl, rfl⟩ := List.map_eq_append_iff.mp cut
  have calls := incremental.polls_frames whole unfinished
  have agrees := incremental.feed_agrees chunks
  rw [same, ← calls.unique (incremental.polls _)] at agrees
  exact ⟨read, pending, left, rfl, same, unfinished, agrees.eq rfl⟩

end Incremental

end Base
