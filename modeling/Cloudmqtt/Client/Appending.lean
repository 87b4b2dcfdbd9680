import Cloudmqtt.Client.Levels

/-! Which strings topics are made of, and what appending to a topic does. -/

set_option autoImplicit false

namespace Client

open Base Rust

/-! ### Levels of names and of filters -/

def nullCharacter : Char := Char.ofNat 0

structure IsNameText (s : String) : Prop where
  plus : '+' ∉ s.toList
  hash : '#' ∉ s.toList
  null : nullCharacter ∉ s.toList

structure IsFilterLevel (level : String) : Prop where
  alone : ∀ c ∈ ['+', '#'], c ∈ level.toList → level = String.singleton c
  null : nullCharacter ∉ level.toList

/-- Every wildcard is a level of its own, and `#` only the last. -/
structure IsFilterText (s : String) : Prop where
  null : nullCharacter ∉ s.toList
  alone : ∀ level ∈ split s topicLevelSeperator,
    ∀ c ∈ ['+', '#'], c ∈ level.toList → level = String.singleton c
  last : ∀ level ∈ (split s topicLevelSeperator).dropLast, '#' ∉ level.toList

theorem TopicPath.tryFrom_eq_ok {level : String} {path : TopicPath} :
    TopicPath.tryFrom level = .ok path ↔ path.value = level := by
  obtain ⟨value, plain⟩ := path
  unfold TopicPath.tryFrom
  constructor
  · intro run
    split at run
    next => cases run
    next =>
      split at run
      next => cases run
      next => exact (congrArg TopicPath.value (Except.ok.inj run)).symm
  · rintro rfl
    have free := containsAny_eq_false.mp plain
    have wildcard : ¬ containsAny value ['+', '#'] = true := by
      rw [Bool.not_eq_true, containsAny_eq_false]
      exact fun c member => free c (List.mem_append_left [Char.ofNat 0] member)
    have null : ¬ containsAny value [Char.ofNat 0] = true := by
      rw [Bool.not_eq_true, containsAny_eq_false]
      exact fun c member => free c (List.mem_append_right ['+', '#'] member)
    rw [dif_neg wildcard, dif_neg null]

theorem isNameText_iff {s : String} :
    IsNameText s ↔ containsAny s ['+', '#', Char.ofNat 0] = false := by
  rw [containsAny_eq_false]
  simp only [List.forall_mem_cons, List.not_mem_nil, false_implies, implies_true, and_true]
  constructor
  · exact fun text => ⟨text.plus, text.hash, text.null⟩
  · exact fun free => ⟨free.1, free.2.1, free.2.2⟩

theorem TopicPath.isNameText (path : TopicPath) : IsNameText path.value :=
  isNameText_iff.mpr path.plain

theorem TopicFilterLevel.tryFrom_path {level : String} (some : level ≠ "") (plus : level ≠ "+")
    (hash : level ≠ "#") (free : Client.topicLevelSeperator ∉ level.toList) :
    TopicFilterLevel.tryFrom level = path <$> TopicPath.tryFrom level := by
  have single : containsAny level [Client.topicLevelSeperator] = false :=
    containsAny_eq_false.mpr (by simpa using free)
  unfold TopicFilterLevel.tryFrom
  rw [single, if_neg Bool.false_ne_true]
  split
  next => exact absurd rfl some
  next => exact absurd rfl plus
  next => exact absurd rfl hash
  next => rfl

theorem TopicFilterLevel.notMem_of_tryFrom {level : String} {a : TopicFilterLevel}
    (run : TopicFilterLevel.tryFrom level = .ok a) : Client.topicLevelSeperator ∉ level.toList := by
  unfold TopicFilterLevel.tryFrom at run
  split at run
  next => cases run
  next free =>
    rw [Bool.not_eq_true, containsAny_eq_false] at free
    exact free _ List.mem_cons_self

theorem TopicFilterLevel.asStr_of_tryFrom {level : String} {a : TopicFilterLevel}
    (run : TopicFilterLevel.tryFrom level = .ok a) : a.asStr = level := by
  have free := notMem_of_tryFrom run
  by_cases some : level = ""
  · subst some
    obtain rfl : empty = a := Except.ok.inj run
    rfl
  by_cases plus : level = "+"
  · subst plus
    obtain rfl : topicLevelSeperator = a := Except.ok.inj run
    rfl
  by_cases hash : level = "#"
  · subst hash
    obtain rfl : multiLevelSeperator = a := Except.ok.inj run
    rfl
  rw [tryFrom_path some plus hash free] at run
  obtain ⟨path, read, rfl⟩ := except_map_eq_ok.mp run
  exact TopicPath.tryFrom_eq_ok.mp read

theorem TopicPath.readable_iff {level : String} :
    (∃ path, TopicPath.tryFrom level = .ok path) ↔ IsNameText level := by
  simp only [TopicPath.tryFrom_eq_ok]
  constructor
  · rintro ⟨path, rfl⟩
    exact path.isNameText
  · intro text
    exact ⟨⟨level, isNameText_iff.mp text⟩, rfl⟩

theorem TopicFilterLevel.readable_iff {level : String}
    (free : Client.topicLevelSeperator ∉ level.toList) :
    (∃ a, TopicFilterLevel.tryFrom level = .ok a) ↔ IsFilterLevel level := by
  by_cases some : level = ""
  · subst some
    exact iff_of_true ⟨empty, rfl⟩ ⟨by simp, by simp⟩
  by_cases plus : level = "+"
  · subst plus
    exact iff_of_true ⟨topicLevelSeperator, rfl⟩ ⟨by simp, by decide⟩
  by_cases hash : level = "#"
  · subst hash
    exact iff_of_true ⟨multiLevelSeperator, rfl⟩ ⟨by simp, by decide⟩
  have mapped : (∃ a, TopicFilterLevel.tryFrom level = .ok a) ↔
      ∃ path, TopicPath.tryFrom level = .ok path := by
    rw [tryFrom_path some plus hash free]
    constructor
    · rintro ⟨_, run⟩
      obtain ⟨path, read, -⟩ := except_map_eq_ok.mp run
      exact ⟨path, read⟩
    · rintro ⟨path, read⟩
      exact ⟨.path path, except_map_eq_ok.mpr ⟨path, read, rfl⟩⟩
  rw [mapped, TopicPath.readable_iff]
  constructor
  · intro text
    refine ⟨?_, text.null⟩
    simp only [List.forall_mem_cons, List.not_mem_nil, false_implies, implies_true, and_true]
    exact ⟨fun found => absurd found text.plus, fun found => absurd found text.hash⟩
  · intro text
    exact ⟨fun found => plus (text.alone '+' (by simp) found),
      fun found => hash (text.alone '#' (by simp) found), text.null⟩

theorem TopicFilterLevel.ends_iff {level : String} :
    (∃ a, TopicFilterLevel.tryFrom level = .ok a ∧ a.isMultiLevelSeperator = true) ↔
      level = "#" := by
  constructor
  · rintro ⟨a, run, ends⟩
    obtain rfl : a = multiLevelSeperator := of_decide_eq_true ends
    exact (asStr_of_tryFrom run).symm
  · rintro rfl
    exact ⟨multiLevelSeperator, rfl, rfl⟩

theorem IsFilterLevel.hash_iff {level : String} (isLevel : IsFilterLevel level) :
    '#' ∈ level.toList ↔ level = "#" := by
  constructor
  · exact isLevel.alone '#' (by simp)
  · rintro rfl
    simp

theorem isNameText_iff_levels {s : String} :
    IsNameText s ↔ ∀ level ∈ split s topicLevelSeperator, IsNameText level := by
  constructor
  · intro text level member
    have inside {c : Char} (found : c ∈ level.toList) : c ∈ s.toList :=
      (exists_mem_split.mp ⟨level, member, found⟩).1
    exact ⟨mt inside text.plus, mt inside text.hash, mt inside text.null⟩
  · intro all
    have outside {c : Char} (other : c ≠ topicLevelSeperator)
        (free : ∀ level, IsNameText level → c ∉ level.toList) : c ∉ s.toList := by
      intro found
      obtain ⟨level, member, within⟩ := exists_mem_split.mpr ⟨found, other⟩
      exact free level (all level member) within
    constructor
    · exact outside (by decide) fun _ text => text.plus
    · exact outside (by decide) fun _ text => text.hash
    · exact outside (by decide) fun _ text => text.null

theorem isFilterText_iff_levels {s : String} :
    IsFilterText s ↔ (∀ level ∈ split s topicLevelSeperator, IsFilterLevel level) ∧
      ∀ level ∈ (split s topicLevelSeperator).dropLast, level ≠ "#" := by
  constructor
  · intro text
    constructor
    · intro level member
      refine ⟨text.alone level member, fun found => text.null ?_⟩
      exact (exists_mem_split.mp ⟨level, member, found⟩).1
    · rintro level member rfl
      exact text.last "#" member (by simp)
  · rintro ⟨all, last⟩
    constructor
    · intro found
      have other : nullCharacter ≠ topicLevelSeperator := by decide
      obtain ⟨level, member, within⟩ := exists_mem_split.mpr ⟨found, other⟩
      exact (all level member).null within
    · exact fun level member => (all level member).alone
    · intro level member found
      have isLevel := all level ((List.dropLast_sublist _).subset member)
      exact last level member (isLevel.hash_iff.mp found)

/-! ### The two kinds of topics -/

def filterKind : LevelKind TopicFilterLevel where
  tryFrom := TopicFilterLevel.tryFrom
  asStr := TopicFilterLevel.asStr
  ends := TopicFilterLevel.isMultiLevelSeperator
  asStr_of_tryFrom := TopicFilterLevel.asStr_of_tryFrom

def nameKind : LevelKind TopicPath where
  tryFrom := TopicPath.tryFrom
  asStr := TopicPath.value
  ends _ := false
  asStr_of_tryFrom := TopicPath.tryFrom_eq_ok.mp

/-- A split string takes one byte more than the string, for each level one. -/
theorem len_split (s : String) :
    (split s topicLevelSeperator).length + ((split s topicLevelSeperator).map Rust.len).sum =
      Rust.len s + 1 := by
  have joined := len_intercalate (show topicLevelSeperator.utf8Size = 1 by decide)
    (split_ne_nil s topicLevelSeperator)
  rw [intercalate_split] at joined
  exact joined.symm

namespace TopicFilterBuf

def asLevels (self : TopicFilterBuf) : Levels TopicFilterLevel := ⟨self.levels, self.hasEndWildcard⟩

theorem asLevels_injective : Function.Injective asLevels := by
  intro first second same
  obtain ⟨levels, ended⟩ := first
  obtain ⟨levels', ended'⟩ := second
  obtain ⟨rfl, rfl⟩ := Levels.mk.inj same
  rfl

theorem appendSingle_asLevels (self : TopicFilterBuf) (level : String) :
    filterKind.appendSingle self.asLevels level = (self.appendSingle level).map asLevels := by
  unfold LevelKind.appendSingle appendSingle
  by_cases ended : self.hasEndWildcard = true
  · rw [if_pos ended, if_pos (show self.asLevels.ended = true from ended)]
    rfl
  · rw [if_neg ended, if_neg (show ¬ self.asLevels.ended = true from ended)]
    show (TopicFilterLevel.tryFrom level).bind _ =
      Except.map _ ((TopicFilterLevel.tryFrom level).bind _)
    cases TopicFilterLevel.tryFrom level with
    | error e => rfl
    | ok a =>
      show (if maximumTopicByteLength < self.len + 1 + Rust.len a.asStr then _ else _) =
        Except.map asLevels
          (if maximumTopicByteLength < self.len + 1 + Rust.len a.asStr then _ else _)
      split <;> rfl

theorem appendSingle_eq_ok {self after : TopicFilterBuf} {level : String} :
    self.appendSingle level = .ok after ↔ self.hasEndWildcard = false ∧
      self.len + 1 + Rust.len level ≤ maximumTopicByteLength ∧
      ∃ a, TopicFilterLevel.tryFrom level = .ok a ∧
        after = ⟨self.levels ++ [a], a.isMultiLevelSeperator⟩ := by
  have same := appendSingle_asLevels self level
  constructor
  · intro run
    rw [run] at same
    obtain ⟨going, fits, a, read, grown⟩ := LevelKind.appendSingle_eq_ok.mp same
    exact ⟨going, fits, a, read, asLevels_injective grown⟩
  · rintro ⟨going, fits, a, read, rfl⟩
    have run : filterKind.appendSingle self.asLevels level =
        .ok (asLevels ⟨self.levels ++ [a], a.isMultiLevelSeperator⟩) :=
      LevelKind.appendSingle_eq_ok.mpr ⟨going, fits, a, read, rfl⟩
    rw [run] at same
    obtain ⟨after, run, view⟩ := except_map_eq_ok.mp same.symm
    rw [run, asLevels_injective view]

theorem append_asLevels (self : TopicFilterBuf) (s : String) :
    filterKind.appendAll self.asLevels (split s topicLevelSeperator) =
      ((self.append s).1, (self.append s).2.asLevels) :=
  tryForEach_view asLevels appendSingle_asLevels self _

theorem takesAll_iff {self : TopicFilterBuf} {s : String} :
    filterKind.TakesAll self.asLevels (split s topicLevelSeperator) ↔
      self.hasEndWildcard = false ∧ IsFilterText s ∧
        self.len + 1 + Rust.len s ≤ maximumTopicByteLength := by
  have size := len_split s
  have ends (level : String) : filterKind.Ends level ↔ level = "#" := TopicFilterLevel.ends_iff
  have readable {level : String} (member : level ∈ split s topicLevelSeperator) :
      filterKind.Readable level ↔ IsFilterLevel level :=
    TopicFilterLevel.readable_iff (notMem_of_mem_split member)
  rw [isFilterText_iff_levels]
  constructor
  · rintro ⟨going, all, inner, fits⟩
    refine ⟨going, ⟨fun level member => (readable member).mp (all level member), ?_⟩, ?_⟩
    · exact fun level member => mt (ends level).mpr (inner level member)
    · change self.len + _ + _ ≤ _ at fits
      omega
  · rintro ⟨going, ⟨all, last⟩, fits⟩
    constructor
    · exact going
    · exact fun level member => (readable member).mpr (all level member)
    · exact fun level member => mt (ends level).mp (last level member)
    · change self.len + _ + _ ≤ _
      omega

theorem append_ok_iff (self : TopicFilterBuf) (s : String) :
    (self.append s).1 = .ok () ↔ self.hasEndWildcard = false ∧ IsFilterText s ∧
      self.len + 1 + Rust.len s ≤ maximumTopicByteLength := by
  rw [← takesAll_iff, ← LevelKind.appendAll_ok_iff (split_ne_nil s _), append_asLevels]

theorem new_eq_ok {s : String} {topic : TopicFilterBuf} :
    new s = .ok topic ↔ s ≠ "" ∧ append ⟨[], false⟩ s = (.ok (), topic) := by
  unfold new
  by_cases none : s = ""
  · subst none
    simp
  · rw [if_neg (by simpa using none), and_iff_right none]
    exact map_ended_eq_ok

theorem appendSingle_nonempty {self after : TopicFilterBuf} {level : String}
    (appended : self.appendSingle level = .ok after) : after.levels ≠ [] := by
  obtain ⟨-, -, a, -, rfl⟩ := appendSingle_eq_ok.mp appended
  simp

theorem new_nonempty {levels : String} {filter : TopicFilterBuf} (made : new levels = .ok filter) :
    filter.levels ≠ [] := by
  apply tryForEach_of_first (fun topic : TopicFilterBuf => topic.levels ≠ []) (new_eq_ok.mp made).2
  · exact split_ne_nil levels topicLevelSeperator
  · exact appendSingle_nonempty
  · exact fun _ appended => appendSingle_nonempty appended

/-- A filter is refused at the maximal length already. -/
theorem new_ok_iff {s : String} :
    (∃ filter, new s = .ok filter) ↔
      s ≠ "" ∧ IsFilterText s ∧ Rust.len s < maximumTopicByteLength := by
  have taken := append_ok_iff ⟨[], false⟩ s
  rw [and_iff_right rfl, show len ⟨[], false⟩ = 0 from rfl, Nat.zero_add, Nat.add_comm] at taken
  simp only [new_eq_ok, exists_and_left]
  rw [exists_ended, taken, Nat.succ_le_iff]

end TopicFilterBuf

namespace TopicNameBuf

def asLevels (self : TopicNameBuf) : Levels TopicPath := ⟨self.levels, false⟩

theorem asLevels_injective : Function.Injective asLevels := by
  intro first second same
  obtain ⟨levels⟩ := first
  obtain ⟨levels'⟩ := second
  obtain ⟨rfl, -⟩ := Levels.mk.inj same
  rfl

theorem appendSingle_asLevels (self : TopicNameBuf) (level : String) :
    nameKind.appendSingle self.asLevels level = (self.appendSingle level).map asLevels := by
  show (TopicPath.tryFrom level).bind _ = Except.map _ ((TopicPath.tryFrom level).bind _)
  cases TopicPath.tryFrom level with
  | error e => rfl
  | ok a =>
    show (if maximumTopicByteLength < self.len + 1 + Rust.len a.value then _ else _) =
      Except.map asLevels
        (if maximumTopicByteLength < self.len + 1 + Rust.len a.value then _ else _)
    split <;> rfl

theorem appendSingle_eq_ok {self after : TopicNameBuf} {level : String} :
    self.appendSingle level = .ok after ↔
      self.len + 1 + Rust.len level ≤ maximumTopicByteLength ∧
        ∃ path, TopicPath.tryFrom level = .ok path ∧ after = ⟨self.levels ++ [path]⟩ := by
  have same := appendSingle_asLevels self level
  constructor
  · intro run
    rw [run] at same
    obtain ⟨-, fits, path, read, grown⟩ := LevelKind.appendSingle_eq_ok.mp same
    exact ⟨fits, path, read, asLevels_injective grown⟩
  · rintro ⟨fits, path, read, rfl⟩
    have run : nameKind.appendSingle self.asLevels level =
        .ok (asLevels ⟨self.levels ++ [path]⟩) :=
      LevelKind.appendSingle_eq_ok.mpr ⟨rfl, fits, path, read, rfl⟩
    rw [run] at same
    obtain ⟨after, run, view⟩ := except_map_eq_ok.mp same.symm
    rw [run, asLevels_injective view]

theorem append_asLevels (self : TopicNameBuf) (s : String) :
    nameKind.appendAll self.asLevels (split s topicLevelSeperator) =
      ((self.append s).1, (self.append s).2.asLevels) :=
  tryForEach_view asLevels appendSingle_asLevels self _

theorem takesAll_iff {self : TopicNameBuf} {s : String} :
    nameKind.TakesAll self.asLevels (split s topicLevelSeperator) ↔
      IsNameText s ∧ self.len + 1 + Rust.len s ≤ maximumTopicByteLength := by
  have size := len_split s
  have endless (level : String) : ¬ nameKind.Ends level := fun ends => by
    obtain ⟨_, -, ended⟩ := ends
    cases ended
  have readable (level : String) : nameKind.Readable level ↔ IsNameText level :=
    TopicPath.readable_iff
  rw [isNameText_iff_levels]
  constructor
  · rintro ⟨-, all, -, fits⟩
    refine ⟨fun level member => (readable level).mp (all level member), ?_⟩
    change self.len + _ + _ ≤ _ at fits
    omega
  · rintro ⟨all, fits⟩
    constructor
    · rfl
    · exact fun level member => (readable level).mpr (all level member)
    · exact fun level _ => endless level
    · change self.len + _ + _ ≤ _
      omega

theorem append_ok_iff (self : TopicNameBuf) (s : String) :
    (self.append s).1 = .ok () ↔
      IsNameText s ∧ self.len + 1 + Rust.len s ≤ maximumTopicByteLength := by
  rw [← takesAll_iff, ← LevelKind.appendAll_ok_iff (split_ne_nil s _), append_asLevels]

theorem new_eq_ok {s : String} {topic : TopicNameBuf} :
    new s = .ok topic ↔ s ≠ "" ∧ append ⟨[]⟩ s = (.ok (), topic) := by
  unfold new
  by_cases none : s = ""
  · subst none
    simp
  · rw [if_neg (by simpa using none), and_iff_right none]
    exact map_ended_eq_ok

theorem new_ok_iff {s : String} :
    (∃ name, new s = .ok name) ↔
      s ≠ "" ∧ IsNameText s ∧ Rust.len s < maximumTopicByteLength := by
  have taken := append_ok_iff ⟨[]⟩ s
  rw [show len ⟨[]⟩ = 0 from rfl, Nat.zero_add, Nat.add_comm] at taken
  simp only [new_eq_ok, exists_and_left]
  rw [exists_ended, taken, Nat.succ_le_iff]

end TopicNameBuf

/-! ### Failed appends -/

def firstLevel (s : String) : String :=
  (split s topicLevelSeperator).head (split_ne_nil s topicLevelSeperator)

/-- No room for a level, or no level. -/
def TopicFilterBuf.Refuses (self : TopicFilterBuf) (level : String) : Prop :=
  self.hasEndWildcard = true ∨ ¬ IsFilterLevel level ∨
    maximumTopicByteLength < self.len + 1 + Rust.len level

def TopicNameBuf.Refuses (self : TopicNameBuf) (level : String) : Prop :=
  ¬ IsNameText level ∨ maximumTopicByteLength < self.len + 1 + Rust.len level

def TopicFilterBuf.TakesText (self : TopicFilterBuf) (s : String) : Prop :=
  self.hasEndWildcard = false ∧ IsFilterText s ∧
    self.len + 1 + Rust.len s ≤ maximumTopicByteLength

def TopicNameBuf.TakesText (self : TopicNameBuf) (s : String) : Prop :=
  IsNameText s ∧ self.len + 1 + Rust.len s ≤ maximumTopicByteLength

theorem split_eq_cons (s : String) : ∃ more, split s topicLevelSeperator = firstLevel s :: more :=
  ⟨_, (List.cons_head_tail (split_ne_nil s topicLevelSeperator)).symm⟩

theorem TopicFilterBuf.takes_iff {self : TopicFilterBuf} {level : String}
    (free : topicLevelSeperator ∉ level.toList) :
    filterKind.Takes self.asLevels level ↔ ¬ self.Refuses level := by
  have readable : filterKind.Readable level ↔ IsFilterLevel level :=
    TopicFilterLevel.readable_iff free
  rw [Refuses, not_or, not_or, not_not, Bool.not_eq_true, Nat.not_lt, ← readable]
  constructor
  · exact fun takes => ⟨takes.going, takes.readable, takes.fits⟩
  · exact fun taken => ⟨taken.1, taken.2.1, taken.2.2⟩

theorem TopicNameBuf.takes_iff {self : TopicNameBuf} {level : String} :
    nameKind.Takes self.asLevels level ↔ ¬ self.Refuses level := by
  have readable : nameKind.Readable level ↔ IsNameText level := TopicPath.readable_iff
  rw [Refuses, not_or, not_not, Nat.not_lt, ← readable]
  constructor
  · exact fun takes => ⟨takes.readable, takes.fits⟩
  · exact fun taken => ⟨rfl, taken.1, taken.2⟩

theorem TopicNameBuf.refuses_iff {self : TopicNameBuf} {level : String} :
    self.Refuses level ↔ ∃ e, self.appendSingle level = .error e := by
  rw [← not_not (a := self.Refuses level), ← takes_iff, LevelKind.takes_iff, appendSingle_asLevels]
  cases self.appendSingle level with
  | error e => exact iff_of_true (fun taken => nomatch taken.choose_spec) ⟨e, rfl⟩
  | ok next =>
    exact iff_of_false (fun none => none ⟨_, rfl⟩) fun failed => nomatch failed.choose_spec

/-- A failed call of `append` leaves the levels before the one it fails at. -/
theorem append_unchanged_iff (s : String) :
    (∀ filter : TopicFilterBuf,
      ((∃ e, (filter.append s).1 = .error e) → (filter.append s).2 = filter) ↔
        filter.Refuses (firstLevel s) ∨ filter.TakesText s) ∧
    ∀ name : TopicNameBuf,
      ((∃ e, (name.append s).1 = .error e) → (name.append s).2 = name) ↔
        name.Refuses (firstLevel s) ∨ name.TakesText s := by
  obtain ⟨more, pieces⟩ := split_eq_cons s
  have free : topicLevelSeperator ∉ (firstLevel s).toList :=
    notMem_of_mem_split (pieces ▸ List.mem_cons_self)
  constructor
  · intro filter
    have unchanged :=
      LevelKind.appendAll_unchanged_iff filterKind filter.asLevels (firstLevel s) more
    rw [← pieces, filter.append_asLevels, TopicFilterBuf.asLevels_injective.eq_iff,
      TopicFilterBuf.takes_iff free, not_not, TopicFilterBuf.takesAll_iff] at unchanged
    exact unchanged
  · intro name
    have unchanged := LevelKind.appendAll_unchanged_iff nameKind name.asLevels (firstLevel s) more
    rw [← pieces, name.append_asLevels, TopicNameBuf.asLevels_injective.eq_iff,
      TopicNameBuf.takes_iff, not_not, TopicNameBuf.takesAll_iff] at unchanged
    exact unchanged

/-- The level `b` is left behind by a call that fails at the level after it. -/
theorem append_leaves_levels :
    (TopicFilterBuf.append ⟨[.path levelA], false⟩ "b/#c" =
        (.error .mixedWildcardLevel, ⟨[.path levelA, .path levelB], false⟩)) ∧
      TopicNameBuf.append ⟨[levelA]⟩ "b/+" = (.error .mixedWildcardLevel, ⟨[levelA, levelB]⟩) ∧
      ¬ ((∀ (filter : TopicFilterBuf) (s : String),
          (∃ e, (filter.append s).1 = .error e) → (filter.append s).2 = filter) ∧
        ∀ (name : TopicNameBuf) (s : String),
          (∃ e, (name.append s).1 = .error e) → (name.append s).2 = name) := by
  refine ⟨rfl, rfl, fun unchanged => ?_⟩
  have same := unchanged.1 ⟨[.path levelA], false⟩ "b/#c" ⟨_, rfl⟩
  have counts := congrArg (fun filter => filter.levels.length) same
  exact absurd counts (by decide)

/-! ### Topics in pieces -/

/-- `new(x)`, and `append(y)` to it. -/
def TopicFilterBuf.newAppend (x y : String) : Except TopicError TopicFilterBuf := do
  let topic ← new x
  let (appended, topic) := topic.append y
  appended.map fun _ => topic

def TopicNameBuf.newAppend (x y : String) : Except TopicError TopicNameBuf := do
  let topic ← new x
  let (appended, topic) := topic.append y
  appended.map fun _ => topic

theorem split_joined (x y : String) : split (x ++ "/" ++ y) topicLevelSeperator =
    split x topicLevelSeperator ++ split y topicLevelSeperator :=
  split_append x y topicLevelSeperator

theorem newAppend_eq_new (x y : String) (some : x ≠ "") :
    TopicFilterBuf.newAppend x y = TopicFilterBuf.new (x ++ "/" ++ y) ∧
      TopicNameBuf.newAppend x y = TopicNameBuf.new (x ++ "/" ++ y) := by
  have nonempty : x.isEmpty = false := by simpa using some
  have joined : (x ++ "/" ++ y).isEmpty = false := by simp
  constructor
  · unfold TopicFilterBuf.newAppend TopicFilterBuf.new TopicFilterBuf.append
    rw [nonempty, joined, split_joined, tryForEach_append]
    cases tryForEach TopicFilterBuf.appendSingle ⟨[], false⟩ (split x topicLevelSeperator) with
    | mk appended topic => cases appended <;> rfl
  · unfold TopicNameBuf.newAppend TopicNameBuf.new TopicNameBuf.append
    rw [nonempty, joined, split_joined, tryForEach_append]
    cases tryForEach TopicNameBuf.appendSingle ⟨[]⟩ (split x topicLevelSeperator) with
    | mk appended topic => cases appended <;> rfl

theorem newAppend_eq_new_slash : "a" ≠ "" ∧
    TopicFilterBuf.newAppend "a" "/#" = TopicFilterBuf.new ("a" ++ "/" ++ "/#") ∧
      TopicNameBuf.newAppend "a" "/#" = TopicNameBuf.new ("a" ++ "/" ++ "/#") :=
  ⟨by decide, newAppend_eq_new "a" "/#" (by decide)⟩

end Client
