import Cloudmqtt.Base.Run
import Cloudmqtt.Client.Appending
import Cloudmqtt.Client.Matching

/-! What every topic is like that a constructor made and calls then grew, whether
they failed or not: its levels are those that its string is split into.
-/

set_option autoImplicit false

namespace Client

open Base Rust

inductive TopicCall where
  | append (levels : String)
  | appendSingle (level : String)

def TopicCall.pieces : TopicCall → List String
  | append levels => split levels topicLevelSeperator
  | appendSingle level => [level]

theorem mapM_eq_self {α ε : Type} {f : α → Except ε α} {items : List α}
    (each : ∀ a ∈ items, f a = .ok a) : items.mapM f = .ok items := by
  induction items with
  | nil => rfl
  | cons a more ih =>
    obtain ⟨first, rest⟩ := List.forall_mem_cons.mp each
    rw [List.mapM_cons, first, ih rest]
    rfl

namespace TopicFilterBuf

def call (self : TopicFilterBuf) : TopicCall → Except TopicError Unit × TopicFilterBuf
  | .append levels => self.append levels
  | .appendSingle level =>
    match self.appendSingle level with
    | .ok topic => (.ok (), topic)
    | .error e => (.error e, self)

def Calls (self : TopicFilterBuf) (call : TopicCall) (result : Except TopicError Unit)
    (after : TopicFilterBuf) : Prop := self.call call = (result, after)

def joined (self : TopicFilterBuf) : String :=
  "/".intercalate (self.levels.map TopicFilterLevel.asStr)

/-- The levels are proper, and the pieces of the joined string are read as them. -/
structure Represents (topic : TopicFilterBuf) : Prop extends topic.Regular where
  some : topic.levels ≠ []
  path : ∀ path, .path path ∈ topic.levels → path.value ≠ "" ∧
    ∀ c ∈ ['+', '#', topicLevelSeperator, nullCharacter], c ∉ path.value.toList
  short : Rust.len topic.joined ≤ maximumTopicByteLength
  reread : (split topic.joined topicLevelSeperator).mapM TopicFilterLevel.tryFrom = .ok topic.levels

/-- What one appended level keeps. -/
structure Kept (topic : TopicFilterBuf) : Prop extends topic.Regular where
  some : topic.levels ≠ []
  read : ∀ level ∈ topic.levels, TopicFilterLevel.tryFrom level.asStr = .ok level
  fits : topic.len ≤ maximumTopicByteLength

theorem Kept.appendSingle {self after : TopicFilterBuf} {level : String}
    (regular : self.Regular)
    (read : ∀ level ∈ self.levels, TopicFilterLevel.tryFrom level.asStr = .ok level)
    (appended : self.appendSingle level = .ok after) : after.Kept where
  toRegular := regular.appendSingle appended
  some := appendSingle_nonempty appended
  read := by
    obtain ⟨-, -, a, readNow, rfl⟩ := appendSingle_eq_ok.mp appended
    intro other member
    rcases List.mem_append.mp member with earlier | last
    · exact read other earlier
    · rw [List.mem_singleton.mp last, TopicFilterLevel.asStr_of_tryFrom readNow, readNow]
  fits := by
    obtain ⟨-, fits, a, readNow, rfl⟩ := appendSingle_eq_ok.mp appended
    have longer := LevelKind.len_append filterKind self.asLevels readNow a.isMultiLevelSeperator
    exact longer.le.trans fits

theorem call_eq (self : TopicFilterBuf) (call : TopicCall) :
    self.call call = tryForEach TopicFilterBuf.appendSingle self call.pieces := by
  cases call with
  | append levels => rfl
  | appendSingle level =>
    rw [TopicFilterBuf.call, TopicCall.pieces, tryForEach]
    cases self.appendSingle level <;> rfl

theorem Kept.tryForEach {self : TopicFilterBuf} (kept : self.Kept) (pieces : List String) :
    (tryForEach TopicFilterBuf.appendSingle self pieces).2.Kept :=
  tryForEach_preserves Kept
    (fun kept appended => .appendSingle kept.toRegular kept.read appended) pieces kept

theorem Kept.call {self after : TopicFilterBuf} {call : TopicCall}
    {result : Except TopicError Unit} (kept : self.Kept) (taken : self.Calls call result after) :
    after.Kept := by
  have left := kept.tryForEach call.pieces
  rw [← call_eq, taken] at left
  exact left

theorem new_kept {s : String} {filter : TopicFilterBuf} (made : new s = .ok filter) :
    filter.Kept := by
  have start : Regular ⟨[], false⟩ := ⟨List.not_mem_nil, by simp⟩
  apply tryForEach_of_first Kept (new_eq_ok.mp made).2
  · exact split_ne_nil s topicLevelSeperator
  · exact .appendSingle start fun _ member => absurd member List.not_mem_nil
  · exact fun kept => .appendSingle kept.toRegular kept.read

theorem Kept.split_joined {self : TopicFilterBuf} (kept : self.Kept) :
    split self.joined topicLevelSeperator = self.levels.map TopicFilterLevel.asStr := by
  apply split_intercalate
  · simpa using kept.some
  · intro piece member
    obtain ⟨level, found, rfl⟩ := List.mem_map.mp member
    exact TopicFilterLevel.notMem_of_tryFrom (kept.read level found)

theorem Kept.represents {self : TopicFilterBuf} (kept : self.Kept) : self.Represents where
  toRegular := kept.toRegular
  some := kept.some
  path path member := by
    have read := kept.read _ member
    have text := path.isNameText
    have free := TopicFilterLevel.notMem_of_tryFrom read
    constructor
    · intro none
      change TopicFilterLevel.tryFrom path.value = _ at read
      rw [none] at read
      cases read
    · simp only [List.forall_mem_cons, List.not_mem_nil, false_implies, implies_true, and_true]
      exact ⟨text.plus, text.hash, free, text.null⟩
  short := by
    have joined := len_intercalate (show topicLevelSeperator.utf8Size = 1 by decide)
      (show self.levels.map TopicFilterLevel.asStr ≠ [] by simpa using kept.some)
    have fits := kept.fits
    rw [len] at fits
    rw [List.length_map, List.map_map] at joined
    change Rust.len self.joined + 1 = _ + (self.levels.map fun level => Rust.len level.asStr).sum
      at joined
    omega
  reread := by
    rw [kept.split_joined, List.mapM_map]
    exact mapM_eq_self kept.read

theorem new_joined {s : String} {filter : TopicFilterBuf} (made : new s = .ok filter) :
    filter.joined = s := by
  have view := append_asLevels ⟨[], false⟩ s
  rw [(new_eq_ok.mp made).2] at view
  have levels : filter.levels.map TopicFilterLevel.asStr = split s topicLevelSeperator :=
    LevelKind.appendAll_texts view
  rw [joined, levels]
  exact intercalate_split s topicLevelSeperator

/-- A filter stays proper through all calls; made by `new` alone it stands for its string. -/
theorem represents_of_calls {s : String} {start : TopicFilterBuf} (made : new s = .ok start) :
    (∀ trace final, Run Calls start trace final → final.Represents) ∧ start.joined = s ∧
      ∀ s' other, new s' = .ok other → (start = other ↔ s = s') := by
  refine ⟨fun trace final run => ?_, new_joined made, fun s' other made' => ?_⟩
  · have kept : final.Kept := by
      induction run with
      | done => exact new_kept made
      | next _ taken ih => exact ih.call taken
    exact kept.represents
  · constructor
    · rintro rfl
      rw [← new_joined made, new_joined made']
    · rintro rfl
      exact Except.ok.inj (made.symm.trans made')

theorem represents_of_calls_any : new "a/+" = .ok ⟨[.path levelA, .topicLevelSeperator], false⟩ ∧
    (∀ trace final, Run Calls ⟨[.path levelA, .topicLevelSeperator], false⟩ trace final →
      final.Represents) ∧
    joined ⟨[.path levelA, .topicLevelSeperator], false⟩ = "a/+" ∧
    ∀ s' other, new s' = .ok other →
      (⟨[.path levelA, .topicLevelSeperator], false⟩ = other ↔ "a/+" = s') :=
  ⟨filter_any, represents_of_calls filter_any⟩

end TopicFilterBuf

namespace TopicNameBuf

def call (self : TopicNameBuf) : TopicCall → Except TopicError Unit × TopicNameBuf
  | .append levels => self.append levels
  | .appendSingle level =>
    match self.appendSingle level with
    | .ok topic => (.ok (), topic)
    | .error e => (.error e, self)

def Calls (self : TopicNameBuf) (call : TopicCall) (result : Except TopicError Unit)
    (after : TopicNameBuf) : Prop := self.call call = (result, after)

def joined (self : TopicNameBuf) : String := "/".intercalate (self.levels.map TopicPath.value)

/-- No level holds a separator: the levels are those of the joined string, and a
`+` stands for one of them. -/
structure Represents (topic : TopicNameBuf) : Prop where
  free : ∀ level ∈ topic.levels, topicLevelSeperator ∉ level.value.toList
  reread : split topic.joined topicLevelSeperator = topic.levels.map TopicPath.value
  single : ∀ (filter : TopicFilterBuf), ∀ pair ∈ filter.levels.zip topic.levels,
    pair.1 = .topicLevelSeperator → split pair.2.value topicLevelSeperator = [pair.2.value]

def SeparatorFree (topic : TopicNameBuf) : Prop :=
  ∀ level ∈ topic.levels, topicLevelSeperator ∉ level.value.toList

theorem separatorFree_push {topic : TopicNameBuf} {path : TopicPath} :
    SeparatorFree ⟨topic.levels ++ [path]⟩ ↔
      topic.SeparatorFree ∧ topicLevelSeperator ∉ path.value.toList := by
  simp only [SeparatorFree, List.forall_mem_append, List.forall_mem_singleton]

theorem represents_iff {topic : TopicNameBuf} (some : topic.levels ≠ []) :
    topic.Represents ↔ topic.SeparatorFree := by
  constructor
  · exact Represents.free
  · intro free
    constructor
    · exact free
    · apply split_intercalate
      · simpa using some
      · intro piece member
        obtain ⟨level, found, rfl⟩ := List.mem_map.mp member
        exact free level found
    · intro filter pair member _
      have outside := free pair.2 (List.of_mem_zip member).2
      rw [split, List.splitOn_eq_singleton outside, List.map_singleton, String.ofList_toList]

theorem append_separatorFree (self : TopicNameBuf) {pieces : List String}
    (free : ∀ piece ∈ pieces, topicLevelSeperator ∉ piece.toList) :
    (tryForEach TopicNameBuf.appendSingle self pieces).2.SeparatorFree ↔ self.SeparatorFree := by
  induction pieces generalizing self with
  | nil => exact Iff.rfl
  | cons piece more ih =>
    obtain ⟨now, later⟩ := List.forall_mem_cons.mp free
    rw [tryForEach]
    cases step : self.appendSingle piece with
    | error e => exact Iff.rfl
    | ok next =>
      obtain ⟨-, path, read, rfl⟩ := appendSingle_eq_ok.mp step
      simp only [ih _ later]
      rw [separatorFree_push, TopicPath.tryFrom_eq_ok.mp read, and_iff_left now]

/-- `append_single` is not given a separator, other than in a level it refuses. -/
def Proper (entry : Entry TopicNameBuf TopicCall (Except TopicError Unit)) : Prop :=
  ∀ level, entry.input = .appendSingle level → topicLevelSeperator ∈ level.toList →
    entry.before.Refuses level

theorem appendSingle_separatorFree {self next : TopicNameBuf} {level : String}
    (step : self.appendSingle level = .ok next) :
    next.SeparatorFree ↔ self.SeparatorFree ∧ (topicLevelSeperator ∈ level.toList →
      self.Refuses level) := by
  have taken : ¬ self.Refuses level := fun refuses => by
    obtain ⟨e, failed⟩ := refuses_iff.mp refuses
    rw [step] at failed
    cases failed
  obtain ⟨-, path, read, rfl⟩ := appendSingle_eq_ok.mp step
  rw [separatorFree_push, TopicPath.tryFrom_eq_ok.mp read]
  apply and_congr_right
  intro _
  exact ⟨fun free found => absurd found free, fun refuses found => taken (refuses found)⟩

theorem call_separatorFree {self after : TopicNameBuf} {call : TopicCall}
    {result : Except TopicError Unit} (taken : self.Calls call result after) :
    after.SeparatorFree ↔ self.SeparatorFree ∧ Proper ⟨self, call, result⟩ := by
  cases call with
  | append levels =>
    have proper : Proper ⟨self, .append levels, result⟩ := fun _ same => nomatch same
    have free : ∀ piece ∈ split levels topicLevelSeperator,
        topicLevelSeperator ∉ piece.toList := fun _ member => notMem_of_mem_split member
    have left := append_separatorFree self free
    rw [and_iff_left proper, ← left]
    exact iff_of_eq (congrArg SeparatorFree (congrArg Prod.snd taken).symm)
  | appendSingle level =>
    have proper : Proper ⟨self, .appendSingle level, result⟩ ↔
        (topicLevelSeperator ∈ level.toList → self.Refuses level) := by
      constructor
      · exact fun proper => proper level rfl
      · rintro refuses _ same
        obtain rfl := TopicCall.appendSingle.inj same
        exact refuses
    rw [proper]
    cases step : self.appendSingle level with
    | error e =>
      simp only [Calls, TopicNameBuf.call, step] at taken
      obtain ⟨-, rfl⟩ := Prod.mk.inj taken
      exact (and_iff_left fun _ => refuses_iff.mpr ⟨e, step⟩).symm
    | ok next =>
      simp only [Calls, TopicNameBuf.call, step] at taken
      obtain ⟨-, rfl⟩ := Prod.mk.inj taken
      exact appendSingle_separatorFree step

theorem call_eq (self : TopicNameBuf) (call : TopicCall) :
    self.call call = tryForEach TopicNameBuf.appendSingle self call.pieces := by
  cases call with
  | append levels => rfl
  | appendSingle level =>
    rw [TopicNameBuf.call, TopicCall.pieces, tryForEach]
    cases self.appendSingle level <;> rfl

theorem Calls.nonempty {self after : TopicNameBuf} {call : TopicCall}
    {result : Except TopicError Unit} (some : self.levels ≠ [])
    (taken : self.Calls call result after) : after.levels ≠ [] := by
  have left : (tryForEach TopicNameBuf.appendSingle self call.pieces).2.levels ≠ [] := by
    apply tryForEach_preserves (fun topic : TopicNameBuf => topic.levels ≠ [])
    · intro topic level next _ appended
      obtain ⟨-, path, -, rfl⟩ := appendSingle_eq_ok.mp appended
      simp
    · exact some
  rw [← call_eq, taken] at left
  exact left

theorem new_levels {s : String} {name : TopicNameBuf} (made : new s = .ok name) :
    name.levels.map TopicPath.value = split s topicLevelSeperator := by
  have view := append_asLevels ⟨[]⟩ s
  rw [(new_eq_ok.mp made).2] at view
  exact LevelKind.appendAll_texts view

/-- The levels of a name are those of its string in exactly the runs in which
`append_single` is given levels. -/
theorem represents_of_calls_iff {s : String} {start final : TopicNameBuf}
    {trace : List (Entry TopicNameBuf TopicCall (Except TopicError Unit))}
    (made : new s = .ok start) (run : Run Calls start trace final) :
    final.Represents ↔ EveryStep (fun _ => Proper) trace := by
  have levels := new_levels made
  have some : start.levels ≠ [] := by
    intro none
    rw [none] at levels
    exact split_ne_nil s topicLevelSeperator levels.symm
  have someFinal : final.levels ≠ [] := by
    induction run with
    | done => exact some
    | next _ taken ih => exact taken.nonempty ih
  have initial : start.SeparatorFree := by
    intro level member
    have piece : level.value ∈ split s topicLevelSeperator :=
      levels ▸ List.mem_map_of_mem member
    exact notMem_of_mem_split piece
  rw [represents_iff someFinal]
  exact run.holds_iff initial call_separatorFree

theorem represents_of_calls_iff_append : ∃ trace final,
    new "a" = .ok ⟨[levelA]⟩ ∧ Run Calls ⟨[levelA]⟩ trace final ∧
      trace.map (·.input) = [.append "b"] ∧
      (final.Represents ↔ EveryStep (fun _ => Proper) trace) := by
  have session : ∃ trace final, Run Calls ⟨[levelA]⟩ trace final ∧
      trace.map (·.input) = [.append "b"] := ⟨_, _, .next .done rfl, rfl⟩
  obtain ⟨trace, final, run, inputs⟩ := session
  have made : new "a" = .ok ⟨[levelA]⟩ := rfl
  exact ⟨trace, final, made, run, inputs, represents_of_calls_iff made run⟩

def levelAB : TopicPath := ⟨"a/b", by decide⟩

theorem appendSingle_accepts_seperator : ∃ trace,
    new "a" = .ok ⟨[levelA]⟩ ∧ Run Calls ⟨[levelA]⟩ trace ⟨[levelA, levelAB]⟩ ∧
      trace.map (·.input) = [.appendSingle "a/b"] ∧
      joined ⟨[levelA, levelAB]⟩ = "a/a/b" ∧
      matchesFilter ⟨[levelA, levelAB]⟩ ⟨[.path levelA, .topicLevelSeperator], false⟩ = .ok true ∧
      ¬ Represents ⟨[levelA, levelAB]⟩ := by
  have run : Run Calls ⟨[levelA]⟩ [⟨⟨[levelA]⟩, .appendSingle "a/b", .ok ()⟩]
      ⟨[levelA, levelAB]⟩ := .next .done rfl
  refine ⟨_, rfl, run, rfl, by decide, rfl, fun represents => ?_⟩
  exact represents.free levelAB (by simp) (by decide)

end TopicNameBuf

end Client
