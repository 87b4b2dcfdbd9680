import Cloudmqtt.V5.Packets.Subscribe

/-! Slices of items and the lists that are iterated over. -/

set_option autoImplicit false

namespace V5

open Base Rust

namespace ItemSlice

variable {α : Type}

/-- The slice that `parse` makes of a whole body. -/
def parseComplete (item : MParser α) (input : List UInt8) : Except ErrMode (ItemSlice α) :=
  (parse item input).map Prod.fst

/-- The slice holds the items: they are what it is iterated over as, and what it is
written as. Its bytes are counted in 32 bits. -/
structure Represents (item : MParser α) (writeItem : α → WResult) (self : ItemSlice α)
    (as : List α) : Prop where
  written : (Emit.each writeItem as).Emits self.start ()
  iterated : Yields (next item) self.start as
  rewritten : (write item writeItem self).Emits self.start ()
  size : ∃ k, self.binarySize = .ok k ∧ k.toNat = self.start.length % 2 ^ 32

/-- Lists of items and the bytes that `parseComplete` accepts are the same thing. -/
structure OneToOne (item : MParser α) (writeItem : α → WResult) (fits : α → Prop) : Prop where
  ofList : ∀ as, as ≠ [] → (∀ a ∈ as, fits a) → ∃ self,
    parseComplete item (as.flatMap fun a => (writeItem a).emitted) = .ok self ∧
      self.start = (as.flatMap fun a => (writeItem a).emitted) ∧ Represents item writeItem self as
  ofBytes : ∀ input self, parseComplete item input = .ok self → input ≠ [] ∧ ∃ as,
    input = (as.flatMap fun a => (writeItem a).emitted) ∧ (∀ a ∈ as, fits a) ∧
      Represents item writeItem self as

variable {item : MParser α} {writeItem : α → WResult} {fits : α → Prop} {bytes : α → List UInt8}

namespace OneEncoding

variable (encoding : OneEncoding item writeItem fits bytes)

include encoding

theorem flatMap_emitted {as : List α} (ok : ∀ a ∈ as, fits a) :
    (as.flatMap fun a => (writeItem a).emitted) = as.flatMap bytes := by
  apply List.flatMap_congr
  intro a member
  exact (Emit.emits_iff.mp ((encoding.writes a _).mpr ⟨ok a member, rfl⟩)).1

theorem each_emits {as : List α} (ok : ∀ a ∈ as, fits a) :
    (Emit.each writeItem as).Emits (as.flatMap bytes) () := by
  rw [← encoding.flatMap_emitted ok]
  apply Emit.each_emits.mpr
  constructor
  · intro a member
    have emits := (encoding.writes a _).mpr ⟨ok a member, rfl⟩
    rwa [(Emit.emits_iff.mp emits).1]
  · rfl

theorem represents {self : ItemSlice α} {as : List α} (ok : ∀ a ∈ as, fits a)
    (start : self.start = as.flatMap bytes) : Represents item writeItem self as := by
  have read : Parser.Items item self.start as :=
    (encoding.parses.items_iff encoding.nonempty).mpr ⟨ok, start⟩
  constructor
  · rw [start]
    exact encoding.each_emits ok
  · exact yields read
  · exact write_emits encoding.shrinks encoding.canonical read
  · exact ⟨_, rfl, UInt32.toNat_ofNat⟩

/-- What is accepted is the encodings of a nonempty list, in a row. -/
theorem parseComplete_eq_ok {input : List UInt8} {self : ItemSlice α} :
    parseComplete item input = .ok self ↔
      self.start = input ∧ ∃ as, as ≠ [] ∧ (∀ a ∈ as, fits a) ∧ input = as.flatMap bytes := by
  simp only [parseComplete, except_map_eq_ok, Prod.exists,
    parse_eq_ok encoding.shrinks, encoding.parses.items_iff encoding.nonempty]
  constructor
  · rintro ⟨_, _, ⟨start, -, as, ⟨ok, split⟩, least⟩, rfl⟩
    exact ⟨start, as, List.length_pos_iff.mp least, ok, split⟩
  · rintro ⟨start, as, more, ok, split⟩
    exact ⟨self, [], ⟨start, rfl, as, ⟨ok, split⟩, List.length_pos_iff.mpr more⟩, rfl⟩

theorem oneToOne : OneToOne item writeItem fits where
  ofList as more ok := by
    rw [encoding.flatMap_emitted ok]
    exact ⟨⟨as.flatMap bytes⟩, encoding.parseComplete_eq_ok.mpr ⟨rfl, as, more, ok, rfl⟩, rfl,
      encoding.represents ok rfl⟩
  ofBytes input self run := by
    obtain ⟨start, as, more, ok, rfl⟩ := encoding.parseComplete_eq_ok.mp run
    constructor
    · obtain ⟨a, as, rfl⟩ := List.exists_cons_of_ne_nil more
      rw [List.flatMap_cons]
      exact List.append_ne_nil_of_left_ne_nil (encoding.nonempty a (ok a List.mem_cons_self)) _
    · exact ⟨as, (encoding.flatMap_emitted ok).symm, ok, encoding.represents ok start⟩

end OneEncoding

end ItemSlice

/-- Lists of items and the bytes that are accepted correspond, and so do the sizes as far
as 32 bits hold them. -/
theorem subscriptions_oneToOne :
    ItemSlice.OneToOne Subscription.parse Subscription.write
        (fun self => len self.topicFilter ≤ 65535) ∧
      ItemSlice.OneToOne Unsubscription.parse Unsubscription.write
        (fun self => len self.topicFilter ≤ 65535) :=
  ⟨Subscription.oneEncoding.oneToOne, Unsubscription.oneEncoding.oneToOne⟩

theorem subscriptions_oneToOne_single :
    (∃ self, ItemSlice.parseComplete Subscription.parse [0, 1, 97, 4] = .ok self ∧
      ItemSlice.Represents Subscription.parse Subscription.write self
        [⟨"a", .atMostOnce, true, false, .sendRetainedMessagesAlways⟩]) ∧
      ∃ as : List Unsubscription, [0, 1, 97] = as.flatMap fun a => a.write.emitted := by
  constructor
  · obtain ⟨self, parsed, -, represents⟩ := subscriptions_oneToOne.1.ofList
      [⟨"a", .atMostOnce, true, false, .sendRetainedMessagesAlways⟩] (List.cons_ne_nil _ _)
      (List.forall_mem_singleton.mpr (by decide))
    exact ⟨self, parsed, represents⟩
  · obtain ⟨-, as, split, -⟩ := subscriptions_oneToOne.2.ofBytes [0, 1, 97] _ rfl
    exact ⟨as, split⟩

/-- Four bytes, as many times as it takes for their number not to fit into 32 bits. -/
def manySubscriptions : List Subscription :=
  List.replicate (2 ^ 30) ⟨"a", .atMostOnce, false, false, .sendRetainedMessagesAlways⟩

theorem manySubscriptions_fit : ∀ a ∈ manySubscriptions, a.Fits := by
  intro a member
  obtain rfl := List.eq_of_mem_replicate member
  change len "a" ≤ 65535
  decide

theorem length_manySubscriptions :
    (manySubscriptions.flatMap Subscription.bytes).length = 2 ^ 32 := by
  rw [manySubscriptions, List.length_flatMap, List.map_replicate, List.sum_replicate]
  rfl

theorem manySubscriptions_size : manySubscriptions ≠ [] ∧
    (∀ a ∈ manySubscriptions, len a.topicFilter ≤ 65535) ∧ ∃ self,
      ItemSlice.parseComplete Subscription.parse
        (manySubscriptions.flatMap fun a => a.write.emitted) = .ok self ∧
      self.start.length = 2 ^ 32 ∧ self.binarySize = .ok 0 := by
  have more : manySubscriptions ≠ [] := by
    apply List.ne_nil_of_length_pos
    rw [manySubscriptions, List.length_replicate]
    exact Nat.two_pow_pos 30
  have encoding := Subscription.oneEncoding
  refine ⟨more, manySubscriptions_fit, ⟨manySubscriptions.flatMap Subscription.bytes⟩, ?_, ?_, ?_⟩
  · rw [encoding.flatMap_emitted manySubscriptions_fit]
    exact encoding.parseComplete_eq_ok.mpr ⟨rfl, _, more, manySubscriptions_fit, rfl⟩
  · exact length_manySubscriptions
  · rw [ItemSlice.binarySize, length_manySubscriptions]
    rfl

end V5
