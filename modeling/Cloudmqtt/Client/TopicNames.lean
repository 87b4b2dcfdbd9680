import Cloudmqtt.Client.Appending
import Cloudmqtt.V5.Packets.Publish

/-! Which strings the client takes as topics, and which the parser of a PUBLISH
takes as a topic name.
-/

set_option autoImplicit false

namespace Client

open Base Rust

structure IsTopicName (s : String) : Prop where
  some : 1 ≤ Rust.len s
  short : Rust.len s ≤ maximumTopicByteLength
  text : IsNameText s

structure IsTopicFilter (s : String) : Prop where
  some : 1 ≤ Rust.len s
  short : Rust.len s ≤ maximumTopicByteLength
  text : IsFilterText s

theorem len_pos_iff {s : String} : 1 ≤ Rust.len s ↔ s ≠ "" := by
  rw [Rust.len, Nat.one_le_iff_ne_zero, Ne, String.utf8ByteSize_eq_zero_iff]

theorem IsNameText.isFilterText {s : String} (text : IsNameText s) : IsFilterText s := by
  have levels := isNameText_iff_levels.mp text
  constructor
  · exact text.null
  · intro level member c wildcard found
    have isLevel := levels level member
    simp only [List.mem_cons, List.not_mem_nil, or_false] at wildcard
    rcases wildcard with rfl | rfl
    · exact absurd found isLevel.plus
    · exact absurd found isLevel.hash
  · exact fun level member => (levels level ((List.dropLast_sublist _).subset member)).hash

/-- The constructors accept the valid topics but those of the maximal length. -/
theorem new_accepts_iff (s : String) :
    (((∃ name, TopicNameBuf.new s = .ok name) ↔ IsTopicName s) ∧
        ((∃ filter, TopicFilterBuf.new s = .ok filter) ↔ IsTopicFilter s)) ↔
      ¬ (Rust.len s = maximumTopicByteLength ∧ IsFilterText s) := by
  rw [TopicNameBuf.new_ok_iff, TopicFilterBuf.new_ok_iff, ← len_pos_iff]
  constructor
  · rintro ⟨-, filters⟩ ⟨maximal, text⟩
    have some : 1 ≤ Rust.len s := maximal ▸ by decide
    have shorter := (filters.mpr ⟨some, Nat.le_of_eq maximal, text⟩).2.2
    exact absurd maximal (Nat.ne_of_lt shorter)
  · intro apart
    constructor
    · constructor
      · exact fun made => ⟨made.1, Nat.le_of_lt made.2.2, made.2.1⟩
      · intro name
        refine ⟨name.some, name.text, Nat.lt_of_le_of_ne name.short fun maximal => ?_⟩
        exact apart ⟨maximal, name.text.isFilterText⟩
    · constructor
      · exact fun made => ⟨made.1, Nat.le_of_lt made.2.2, made.2.1⟩
      · intro filter
        refine ⟨filter.some, filter.text, Nat.lt_of_le_of_ne filter.short fun maximal => ?_⟩
        exact apart ⟨maximal, filter.text⟩

def longest : String := String.ofList (List.replicate maximumTopicByteLength 'a')

theorem len_longest : Rust.len longest = maximumTopicByteLength := by
  have size (n : Nat) : (String.ofList (List.replicate n 'a')).utf8ByteSize = n := by
    induction n with
    | zero => rfl
    | succ n ih =>
      rw [List.replicate_succ, String.ofList_cons, String.utf8ByteSize_append, ih,
        String.utf8ByteSize_singleton, Nat.add_comm]
      rfl
  exact size maximumTopicByteLength

theorem new_rejects_longest : ∃ s, IsTopicName s ∧ IsTopicFilter s ∧
    ¬ (∃ name, TopicNameBuf.new s = .ok name) ∧ ¬ ∃ filter, TopicFilterBuf.new s = .ok filter := by
  have others {c : Char} (other : c ≠ 'a') : c ∉ longest.toList := by
    intro found
    rw [longest, String.toList_ofList] at found
    exact other (List.mem_replicate.mp found).2
  have text : IsNameText longest :=
    ⟨others (by decide), others (by decide), others (by decide)⟩
  have some : 1 ≤ Rust.len longest := len_longest ▸ by decide
  have short := Nat.le_of_eq len_longest
  refine ⟨longest, ⟨some, short, text⟩, ⟨some, short, text.isFilterText⟩, ?_, ?_⟩
  · intro made
    exact absurd len_longest (Nat.ne_of_lt (TopicNameBuf.new_ok_iff.mp made).2.2)
  · intro made
    exact absurd len_longest (Nat.ne_of_lt (TopicFilterBuf.new_ok_iff.mp made).2.2)

/-! ### Topic names on the wire -/

-- The parser looks for `*` where the client looks for `+`, and not for the null character.
/-- The parser and the client agree on names with a `#`, which both refuse, and on
those that have a `*` exactly when they have a `+` or a null character. -/
theorem sanityCheckTopicName_agrees_iff {s : String} (some : 1 ≤ Rust.len s)
    (short : Rust.len s ≤ 65534) :
    (V5.sanityCheckTopicName s = true ↔ ∃ name, TopicNameBuf.new s = .ok name) ↔
      '#' ∈ s.toList ∨ ('*' ∈ s.toList ↔ '+' ∈ s.toList ∨ nullCharacter ∈ s.toList) := by
  have made : (∃ name, TopicNameBuf.new s = .ok name) ↔ IsNameText s := by
    rw [TopicNameBuf.new_ok_iff, ← len_pos_iff, and_iff_right some]
    exact and_iff_left (Nat.lt_succ_of_le short)
  have text : IsNameText s ↔ '#' ∉ s.toList ∧ ¬ ('+' ∈ s.toList ∨ nullCharacter ∈ s.toList) := by
    rw [not_or]
    constructor
    · exact fun text => ⟨text.hash, text.plus, text.null⟩
    · exact fun free => ⟨free.2.1, free.1, free.2.2⟩
  rw [made, text, V5.sanityCheckTopicName_iff]
  by_cases hash : '#' ∈ s.toList
  · simp [hash]
  · simp only [hash, not_false_iff, true_and, false_or]
    exact not_iff_not

theorem sanityCheckTopicName_agrees_iff_plain :
    1 ≤ Rust.len "a/b" ∧ Rust.len "a/b" ≤ 65534 ∧
      ((V5.sanityCheckTopicName "a/b" = true ↔ ∃ name, TopicNameBuf.new "a/b" = .ok name) ↔
        '#' ∈ "a/b".toList ∨
          ('*' ∈ "a/b".toList ↔ '+' ∈ "a/b".toList ∨ nullCharacter ∈ "a/b".toList)) :=
  ⟨by decide, by decide, sanityCheckTopicName_agrees_iff (by decide) (by decide)⟩

/-- A filter passes the parser as a name, and a name with an asterisk does not. -/
theorem sanityCheckTopicName_asterisk :
    (V5.sanityCheckTopicName "a/+" = true ∧ TopicNameBuf.new "a/+" = .error .mixedWildcardLevel) ∧
      V5.sanityCheckTopicName "*" = false ∧ ∃ name, TopicNameBuf.new "*" = .ok name :=
  ⟨⟨by decide, rfl⟩, by decide, _, rfl⟩

end Client
