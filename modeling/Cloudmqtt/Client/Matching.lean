import Cloudmqtt.Base.Covering
import Cloudmqtt.Client.Appending

/-! Topic names against topic filters: the loop of `matches`, and what MQTT 4.7 asks of it. -/

set_option autoImplicit false

namespace Client

open Base Rust

def TopicFilterLevel.Takes (level : TopicFilterLevel) (path : TopicPath) : Prop :=
  level = .topicLevelSeperator ∨ level.asStr = path.value

@[simp] theorem TopicFilterLevel.takes_path {topicPath path : TopicPath} :
    (TopicFilterLevel.path topicPath).Takes path ↔ topicPath = path := by
  obtain ⟨value, _⟩ := topicPath
  obtain ⟨other, _⟩ := path
  simp [Takes, asStr]

@[simp] theorem TopicFilterLevel.takes_empty {path : TopicPath} :
    TopicFilterLevel.empty.Takes path ↔ path.value = "" := by
  simp only [Takes, reduceCtorEq, asStr, false_or]
  exact eq_comm

@[simp] theorem TopicFilterLevel.takes_topicLevelSeperator (path : TopicPath) :
    TopicFilterLevel.topicLevelSeperator.Takes path := .inl rfl

theorem TopicFilterLevel.takes_multiLevelSeperator (path : TopicPath) :
    ¬ TopicFilterLevel.multiLevelSeperator.Takes path := by
  rintro (wildcard | same)
  · cases wildcard
  · have plain := path.plain
    rw [← same] at plain
    revert plain
    decide

/-- MQTT 4.7, without its rule for names that start with `$`. -/
def TopicFilterBuf.Filters (self : TopicFilterBuf) (name : TopicNameBuf) : Prop :=
  Covers TopicFilterLevel.Takes .multiLevelSeperator self.levels name.levels

structure TopicFilterBuf.Regular (filter : TopicFilterBuf) : Prop where
  inner : .multiLevelSeperator ∉ filter.levels.dropLast
  flag : filter.hasEndWildcard = true ↔ filter.levels.getLast? = some .multiLevelSeperator

/-- Without a final `#` the name has as many levels as the filter, and with one
at least as many as the filter has before it. -/
def TopicFilterBuf.LevelsFit (filter : TopicFilterBuf) (name : TopicNameBuf) : Prop :=
  if filter.hasEndWildcard then filter.levels.length ≤ name.levels.length + 1
  else filter.levels.length = name.levels.length

/-- Some level of the filter, and no wildcard, differs from that of the name at
its position. -/
def TopicFilterBuf.Differs (filter : TopicFilterBuf) (name : TopicNameBuf) : Prop :=
  ∃ pair ∈ filter.levels.zip name.levels, pair.1 ≠ .multiLevelSeperator ∧
    pair.1 ≠ .topicLevelSeperator ∧ pair.1.asStr ≠ pair.2.value

namespace TopicFilterBuf

theorem Regular.appendSingle {self after : TopicFilterBuf} {level : String} (regular : self.Regular)
    (appended : self.appendSingle level = .ok after) : after.Regular := by
  obtain ⟨going, -, last, -, rfl⟩ := appendSingle_eq_ok.mp appended
  have proper : .multiLevelSeperator ∉ self.levels := by
    apply notMem_of_inner regular.inner
    apply mt regular.flag.mpr
    exact ne_true_of_eq_false going
  constructor
  · rwa [List.dropLast_concat]
  · simp [TopicFilterLevel.isMultiLevelSeperator]

theorem new_regular {levels : String} {filter : TopicFilterBuf}
    (made : TopicFilterBuf.new levels = .ok filter) : filter.Regular := by
  have start : Regular ⟨[], false⟩ := ⟨List.not_mem_nil, by simp⟩
  apply tryForEach_of_first Regular (new_eq_ok.mp made).2
  · exact split_ne_nil levels topicLevelSeperator
  · exact start.appendSingle
  · exact Regular.appendSingle

theorem differs_iff {filter : TopicFilterBuf} {name : TopicNameBuf} :
    filter.Differs name ↔
      ¬ Agree TopicFilterLevel.Takes .multiLevelSeperator filter.levels name.levels := by
  simp only [Differs, Agree, TopicFilterLevel.Takes, not_forall, not_or, exists_prop]

theorem Regular.levelsFit_iff {filter : TopicFilterBuf} {name : TopicNameBuf}
    (regular : filter.Regular) :
    filter.LevelsFit name ↔ CountsFit .multiLevelSeperator filter.levels name.levels := by
  simp only [LevelsFit, CountsFit, regular.flag]

theorem Regular.filters_iff {filter : TopicFilterBuf} {name : TopicNameBuf}
    (regular : filter.Regular) :
    filter.Filters name ↔ ¬ filter.Differs name ∧ filter.LevelsFit name := by
  rw [Filters, covers_iff regular.inner TopicFilterLevel.takes_multiLevelSeperator, differs_iff,
    not_not, regular.levelsFit_iff]

end TopicFilterBuf

namespace TopicNameBuf

/-- One round of the loop; that nothing follows a `#` makes returning early the
same as going on. -/
theorem matchLevels_cons {level : TopicFilterLevel} {path : TopicPath}
    {filterIt : List TopicFilterLevel} {pathIt : List TopicPath}
    (inner : .multiLevelSeperator ∉ (level :: filterIt).dropLast) :
    matchLevels (level :: filterIt) (path :: pathIt) = true ↔
      (level = .multiLevelSeperator ∨ level.Takes path) ∧ matchLevels filterIt pathIt = true := by
  cases level with
  | path topicPath =>
    simp only [matchLevels, reduceCtorEq, false_or, TopicFilterLevel.takes_path]
    by_cases same : topicPath = path
    · rw [if_neg (not_not.mpr same), and_iff_right same]
      split
      next wildcard =>
        obtain ⟨more, rfl⟩ := List.head?_eq_some_iff.mp wildcard
        refine iff_of_true rfl ?_
        cases pathIt <;> rfl
      next => rfl
    · rw [if_pos same]
      exact iff_of_false Bool.false_ne_true fun agree => same agree.1
  | empty =>
    simp only [matchLevels, reduceCtorEq, false_or, TopicFilterLevel.takes_empty]
    by_cases same : path.value = ""
    · rw [if_neg (not_not.mpr same), and_iff_right same]
    · rw [if_pos same]
      exact iff_of_false Bool.false_ne_true fun agree => same agree.1
  | topicLevelSeperator =>
    rw [matchLevels, and_iff_right (.inr (TopicFilterLevel.takes_topicLevelSeperator path))]
  | multiLevelSeperator =>
    cases filterIt with
    | nil => simp [matchLevels]
    | cons => exact absurd List.mem_cons_self inner

-- Induction on the filter, one round of the loop at a time; what either side has left
-- over is not looked at.
/-- The loop ends well exactly when the levels that both sides have agree. -/
theorem matchLevels_iff (filter : List TopicFilterLevel) (name : List TopicPath)
    (inner : .multiLevelSeperator ∉ filter.dropLast) :
    matchLevels filter name = true ↔
      Agree TopicFilterLevel.Takes .multiLevelSeperator filter name := by
  induction filter generalizing name with
  | nil => simp [matchLevels, Agree]
  | cons level filterIt ih =>
    cases name with
    | nil => simp [matchLevels, Agree]
    | cons path pathIt =>
      have tail : .multiLevelSeperator ∉ filterIt.dropLast := by
        cases filterIt with
        | nil => exact List.not_mem_nil
        | cons => exact fun member => inner (List.mem_cons_of_mem level member)
      rw [matchLevels_cons inner, ih pathIt tail, agree_cons]

/-- `matches` looks for a difference, and not at the number of levels. -/
theorem matchesFilter_iff (name : TopicNameBuf) {filter : TopicFilterBuf}
    (nonempty : filter.levels ≠ []) (regular : filter.Regular) :
    name.matchesFilter filter = .ok true ↔ ¬ filter.Differs name := by
  rw [TopicFilterBuf.differs_iff, not_not, ← matchLevels_iff _ _ regular.inner]
  unfold matchesFilter
  split
  next none => exact absurd none nonempty
  next first more same =>
    split
    next wildcard =>
      have ended : first = .multiLevelSeperator := of_decide_eq_true wildcard
      subst ended
      rw [same]
      cases name.levels <;> simp [matchLevels]
    next => rw [Except.ok.injEq]

/-- A match that `matches` reports is one unless the levels on both sides agree
while their numbers do not fit. -/
theorem matches_sound_iff (name : TopicNameBuf) {levels : String} {filter : TopicFilterBuf}
    (made : TopicFilterBuf.new levels = .ok filter) :
    (name.matchesFilter filter = .ok true → filter.Filters name) ↔
      filter.LevelsFit name ∨ filter.Differs name := by
  have regular := TopicFilterBuf.new_regular made
  rw [matchesFilter_iff name (TopicFilterBuf.new_nonempty made) regular, regular.filters_iff]
  tauto

theorem matches_sound_longer :
    (TopicNameBuf.matchesFilter ⟨[levelA, levelB]⟩ ⟨[.path levelA], false⟩ = .ok true →
        TopicFilterBuf.Filters ⟨[.path levelA], false⟩ ⟨[levelA, levelB]⟩) ↔
      TopicFilterBuf.LevelsFit ⟨[.path levelA], false⟩ ⟨[levelA, levelB]⟩ ∨
        TopicFilterBuf.Differs ⟨[.path levelA], false⟩ ⟨[levelA, levelB]⟩ :=
  matches_sound_iff ⟨[levelA, levelB]⟩ filter_a

/-- A name with a level more than the filter, and one with a level less. -/
theorem matches_by_front :
    (∃ name filter, TopicNameBuf.new "a/b" = .ok name ∧ TopicFilterBuf.new "a" = .ok filter ∧
      name.matchesFilter filter = .ok true ∧ ¬ filter.Filters name) ∧
    ∃ name filter, TopicNameBuf.new "a" = .ok name ∧ TopicFilterBuf.new "a/b" = .ok filter ∧
      name.matchesFilter filter = .ok true ∧ ¬ filter.Filters name := by
  constructor
  · refine ⟨⟨[levelA, levelB]⟩, _, rfl, filter_a, rfl, fun filters => ?_⟩
    have fits := ((TopicFilterBuf.new_regular filter_a).filters_iff.mp filters).2
    simp [TopicFilterBuf.LevelsFit] at fits
  · refine ⟨⟨[levelA]⟩, _, rfl, filter_ab, rfl, fun filters => ?_⟩
    have fits := ((TopicFilterBuf.new_regular filter_ab).filters_iff.mp filters).2
    simp [TopicFilterBuf.LevelsFit] at fits

/-- Every name that a filter matches is found, and no call unwinds. -/
theorem matches_complete (name : TopicNameBuf) {levels : String} {filter : TopicFilterBuf}
    (made : TopicFilterBuf.new levels = .ok filter) (filters : filter.Filters name) :
    name.matchesFilter filter = .ok true := by
  have regular := TopicFilterBuf.new_regular made
  rw [matchesFilter_iff name (TopicFilterBuf.new_nonempty made) regular]
  exact (regular.filters_iff.mp filters).1

/-- A `#` also matches the level above it. -/
theorem matches_complete_parent :
    TopicFilterBuf.Filters ⟨[.path levelA, .multiLevelSeperator], true⟩ ⟨[levelA]⟩ ∧
      TopicNameBuf.matchesFilter ⟨[levelA]⟩ ⟨[.path levelA, .multiLevelSeperator], true⟩ =
        .ok true := by
  have filters : TopicFilterBuf.Filters ⟨[.path levelA, .multiLevelSeperator], true⟩ ⟨[levelA]⟩ :=
    .inr ⟨[.path levelA], [levelA], [], rfl, rfl, .cons (.inr rfl) .nil⟩
  exact ⟨filters, matches_complete ⟨[levelA]⟩ filter_below filters⟩

end TopicNameBuf

end Client
