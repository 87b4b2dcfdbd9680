import Cloudmqtt.Client.Matching
import Cloudmqtt.Client.Representation
import Cloudmqtt.Client.Router

/-! Filters that match a topic in common, and when the router serves every topic right
although it only looks at the first filter that matches.
-/

set_option autoImplicit false

namespace Client

open Base Rust V5

def emptyPath : TopicPath := ⟨"", by decide⟩

namespace TopicFilterLevel

def Allows (level : TopicFilterLevel) (path : TopicPath) : Prop :=
  level = .multiLevelSeperator ∨ level.Takes path

def meets (first second : TopicFilterLevel) : Bool :=
  match first, second with
  | topicLevelSeperator, _ | multiLevelSeperator, _ => true
  | _, topicLevelSeperator | _, multiLevelSeperator => true
  | _, _ => decide (first = second)

/-- An empty level is not read as a path. -/
def Proper (level : TopicFilterLevel) : Prop :=
  match level with
  | .path read => read.value ≠ ""
  | _ => True

theorem meets_of_allows {first second : TopicFilterLevel} {path : TopicPath}
    (proper : first.Proper) (proper' : second.Proper) (allows : first.Allows path)
    (allows' : second.Allows path) : first.meets second = true := by
  cases first <;> cases second <;> simp_all [Allows, meets, Proper]

theorem meets_self (level : TopicFilterLevel) : level.meets level = true := by
  cases level <;> simp [meets]

theorem Allows.meets_empty {level : TopicFilterLevel} {path : TopicPath}
    (allows : level.Allows path) (proper : level.Proper) (empty : path.value = "") :
    level.meets .empty = true :=
  meets_of_allows proper trivial allows (.inr (takes_empty.mpr empty))

theorem allows_of_meets_empty {level : TopicFilterLevel} {path : TopicPath}
    (empty : path.value = "") (meets : level.meets .empty = true) : level.Allows path := by
  cases level <;> simp_all [Allows, TopicFilterLevel.meets]

theorem exists_allowed {first second : TopicFilterLevel} (default : TopicPath)
    (meets : first.meets second = true)
    (fits : first = .empty ∨ second = .empty → default.value = "") :
    ∃ path, first.Allows path ∧ second.Allows path ∧
      (path = default ∨ first = .path path ∨ second = .path path) := by
  cases first with
  | path taken =>
    refine ⟨taken, .inr (takes_path.mpr rfl), ?_, .inr (.inl rfl)⟩
    cases second <;> simp_all [Allows, TopicFilterLevel.meets]
  | empty | topicLevelSeperator | multiLevelSeperator =>
    cases second with
    | path taken => exact ⟨taken, by simp_all [Allows, TopicFilterLevel.meets]⟩
    | _ => exact ⟨default, by simp_all [Allows, TopicFilterLevel.meets]⟩

end TopicFilterLevel

def frontsMeet : List TopicFilterLevel → List TopicFilterLevel → Bool
  | first :: _, second :: _ => first.meets second
  | _, _ => true

/-- The matching loop stops at the shorter side, so that a topic with one level tells
whether two filters match a topic in common; one that starts with an empty level has two. -/
def overlap : List TopicFilterLevel → List TopicFilterLevel → Bool
  | first :: firsts, second :: seconds =>
    (decide (first ≠ .empty ∧ second ≠ .empty) && first.meets second) ||
      (first.meets .empty && second.meets .empty && frontsMeet firsts seconds)
  | _, _ => true

example : overlap [.path levelA] [.path levelA, .path levelB] = true := by decide

example : overlap [.empty, .path levelA] [.topicLevelSeperator, .path levelB] = false := by decide

/-! ### Topics with one or two levels -/

namespace TopicNameBuf

theorem new_joined {levels : List TopicPath} (some : levels ≠ [])
    (free : SeparatorFree ⟨levels⟩) (long : joined ⟨levels⟩ ≠ "")
    (short : len ⟨levels⟩ ≤ maximumTopicByteLength) : new (joined ⟨levels⟩) = .ok ⟨levels⟩ := by
  have reread : split (joined ⟨levels⟩) topicLevelSeperator = levels.map TopicPath.value :=
    ((represents_iff some).mpr free).reread
  have size := len_split (joined ⟨levels⟩)
  rw [reread, List.length_map, List.map_map] at size
  have made : ∃ name, new (joined ⟨levels⟩) = .ok name := by
    rw [new_ok_iff]
    refine ⟨long, ?_, ?_⟩
    · rw [isNameText_iff_levels, reread, List.forall_mem_map]
      exact fun level _ => level.isNameText
    · change levels.length + (levels.map (Rust.len ∘ TopicPath.value)).sum ≤ _ at short
      omega
  obtain ⟨⟨others⟩, made⟩ := made
  have same := (new_levels made).trans reread
  have injective : Function.Injective TopicPath.value := by
    rintro ⟨first, _⟩ ⟨second, _⟩ rfl
    rfl
  obtain rfl : others = levels := List.map_injective_iff.mpr injective same
  exact made

theorem new_levels_cases {s : String} {name : TopicNameBuf} (made : new s = .ok name) :
    ∃ path more, name.levels = path :: more ∧ (path.value = "" → more ≠ []) := by
  obtain ⟨some, -, -⟩ := new_ok_iff.mp ⟨name, made⟩
  have levels := new_levels made
  cases cut : name.levels with
  | nil =>
    rw [cut] at levels
    exact absurd levels.symm (split_ne_nil s topicLevelSeperator)
  | cons path more =>
    refine ⟨path, more, rfl, ?_⟩
    rintro empty rfl
    rw [cut, List.map_singleton, empty] at levels
    have joined := intercalate_split s topicLevelSeperator
    rw [← levels] at joined
    exact some joined.symm

end TopicNameBuf

/-! ### Overlapping filters -/

namespace TopicFilterBuf

theorem Kept.proper {filter : TopicFilterBuf} (kept : filter.Kept) :
    ∀ level ∈ filter.levels, level.Proper := by
  intro level member
  cases level with
  | path path => exact (kept.represents.path path member).1
  | _ => trivial

theorem matchesFilter_cons_iff {filter : TopicFilterBuf} (kept : filter.Kept)
    {name : TopicNameBuf} {first : TopicFilterLevel} {firsts : List TopicFilterLevel}
    (levels : filter.levels = first :: firsts) {path : TopicPath} {more : List TopicPath}
    (named : name.levels = path :: more) : name.matchesFilter filter = .ok true ↔
      first.Allows path ∧ Agree TopicFilterLevel.Takes .multiLevelSeperator firsts more := by
  rw [TopicNameBuf.matchesFilter_iff name kept.some kept.toRegular, differs_iff, not_not, levels,
    named]
  exact agree_cons

def Meets (first second : TopicFilterBuf) : Prop :=
  ∃ s name, TopicNameBuf.new s = .ok name ∧ name.matchesFilter first = .ok true ∧
    name.matchesFilter second = .ok true

theorem overlap_of_meets {first second : TopicFilterBuf} (kept : first.Kept)
    (kept' : second.Kept) (meets : first.Meets second) :
    overlap first.levels second.levels = true := by
  obtain ⟨s, name, made, matched, matched'⟩ := meets
  obtain ⟨path, more, named, long⟩ := TopicNameBuf.new_levels_cases made
  obtain ⟨a, as, levels⟩ := List.exists_cons_of_ne_nil kept.some
  obtain ⟨b, bs, levels'⟩ := List.exists_cons_of_ne_nil kept'.some
  obtain ⟨allows, rest⟩ := (matchesFilter_cons_iff kept levels named).mp matched
  obtain ⟨allows', rest'⟩ := (matchesFilter_cons_iff kept' levels' named).mp matched'
  have proper := kept.proper
  have proper' := kept'.proper
  rw [levels, List.forall_mem_cons] at proper
  rw [levels', List.forall_mem_cons] at proper'
  rw [levels, levels', overlap]
  simp only [Bool.or_eq_true, Bool.and_eq_true, decide_eq_true_iff]
  by_cases empty : path.value = ""
  · right
    refine ⟨⟨allows.meets_empty proper.1 empty, allows'.meets_empty proper'.1 empty⟩, ?_⟩
    obtain ⟨next, further, rfl⟩ := List.exists_cons_of_ne_nil (long empty)
    cases as with
    | nil => rfl
    | cons a2 as =>
      cases bs with
      | nil => rfl
      | cons b2 bs =>
        apply TopicFilterLevel.meets_of_allows
        · exact proper.2 a2 List.mem_cons_self
        · exact proper'.2 b2 List.mem_cons_self
        · exact (agree_cons.mp rest).1
        · exact (agree_cons.mp rest').1
  · left
    refine ⟨⟨?_, ?_⟩, TopicFilterLevel.meets_of_allows proper.1 proper'.1 allows allows'⟩
    · rintro rfl
      exact empty (by simpa [TopicFilterLevel.Allows] using allows)
    · rintro rfl
      exact empty (by simpa [TopicFilterLevel.Allows] using allows')

theorem exists_second {as bs : List TopicFilterLevel} (meets : frontsMeet as bs = true) :
    ∃ path, (∀ a ∈ as.head?, a.Allows path) ∧ (∀ b ∈ bs.head?, b.Allows path) ∧
      (path = emptyPath ∨ .path path ∈ as.head? ∨ .path path ∈ bs.head?) := by
  have same (level : TopicFilterLevel) :=
    TopicFilterLevel.exists_allowed emptyPath level.meets_self fun _ => rfl
  cases as with
  | nil =>
    cases bs with
    | nil => exact ⟨emptyPath, by simp⟩
    | cons b bs =>
      obtain ⟨path, allows, -, origin⟩ := same b
      exact ⟨path, by simp, by simpa using allows, by simpa using origin⟩
  | cons a as =>
    cases bs with
    | nil =>
      obtain ⟨path, allows, -, origin⟩ := same a
      exact ⟨path, by simpa using allows, by simp, by simpa using origin⟩
    | cons b bs =>
      obtain ⟨path, allows, allows', origin⟩ :=
        TopicFilterLevel.exists_allowed emptyPath meets fun _ => rfl
      exact ⟨path, by simpa using allows, by simpa using allows', by simpa using origin⟩

theorem agree_singleton {levels : List TopicFilterLevel} {path : TopicPath}
    (allows : ∀ level ∈ levels.head?, level.Allows path) :
    Agree TopicFilterLevel.Takes .multiLevelSeperator levels [path] := by
  cases levels with
  | nil => simp [Agree]
  | cons level levels =>
    refine agree_cons.mpr ⟨allows level rfl, ?_⟩
    simp [Agree]

theorem Kept.path_fits {filter : TopicFilterBuf} (kept : filter.Kept)
    (before : List TopicFilterLevel) {after : List TopicFilterLevel} {path : TopicPath}
    (levels : filter.levels = before ++ .path path :: after) :
    topicLevelSeperator ∉ path.value.toList ∧
      before.length + 1 + Rust.len path.value ≤ maximumTopicByteLength := by
  constructor
  · have member : .path path ∈ filter.levels := by
      rw [levels]
      exact List.mem_append_right before List.mem_cons_self
    exact (kept.represents.path path member).2 _ (by decide)
  · have fits := kept.fits
    rw [len, levels] at fits
    simp only [List.length_append, List.length_cons, List.map_append, List.map_cons,
      List.sum_append, List.sum_cons, TopicFilterLevel.asStr] at fits
    omega

theorem meets_of_overlap {first second : TopicFilterBuf} (kept : first.Kept)
    (kept' : second.Kept) (meets : overlap first.levels second.levels = true) :
    first.Meets second := by
  obtain ⟨a, as, levels⟩ := List.exists_cons_of_ne_nil kept.some
  obtain ⟨b, bs, levels'⟩ := List.exists_cons_of_ne_nil kept'.some
  rw [levels, levels', overlap] at meets
  simp only [Bool.or_eq_true, Bool.and_eq_true, decide_eq_true_iff] at meets
  rcases meets with ⟨⟨some, some'⟩, meets⟩ | ⟨⟨meets, meets'⟩, further⟩
  · -- A name with one level.
    obtain ⟨path, allows, allows', origin⟩ := TopicFilterLevel.exists_allowed levelA meets
      fun empty => (empty.elim some some').elim
    have level : path.value ≠ "" ∧ topicLevelSeperator ∉ path.value.toList ∧
        1 + Rust.len path.value ≤ maximumTopicByteLength := by
      rcases origin with rfl | rfl | rfl
      · decide
      · have member : .path path ∈ first.levels := levels ▸ List.mem_cons_self
        exact ⟨kept.proper _ member, by simpa using kept.path_fits [] levels⟩
      · have member : .path path ∈ second.levels := levels' ▸ List.mem_cons_self
        exact ⟨kept'.proper _ member, by simpa using kept'.path_fits [] levels'⟩
    refine ⟨_, _, TopicNameBuf.new_joined (List.cons_ne_nil path []) ?_ level.1 ?_, ?_, ?_⟩
    · simpa [TopicNameBuf.SeparatorFree] using level.2.1
    · simpa [TopicNameBuf.len] using level.2.2
    · exact (matchesFilter_cons_iff kept levels rfl).mpr ⟨allows, by simp [Agree]⟩
    · exact (matchesFilter_cons_iff kept' levels' rfl).mpr ⟨allows', by simp [Agree]⟩
  · -- An empty level, and one more.
    obtain ⟨path, allows, allows', origin⟩ := exists_second further
    have level : topicLevelSeperator ∉ path.value.toList ∧
        2 + Rust.len path.value ≤ maximumTopicByteLength := by
      rcases origin with rfl | found | found
      · decide
      · obtain ⟨more, rfl⟩ := List.head?_eq_some_iff.mp found
        exact kept.path_fits [a] levels
      · obtain ⟨more, rfl⟩ := List.head?_eq_some_iff.mp found
        exact kept'.path_fits [b] levels'
    refine ⟨_, _, TopicNameBuf.new_joined (List.cons_ne_nil emptyPath [path]) ?_ ?_ ?_, ?_, ?_⟩
    · simpa [TopicNameBuf.SeparatorFree, emptyPath] using level.1
    · simp [TopicNameBuf.joined, emptyPath, String.intercalate_cons_of_ne_nil]
    · simpa [TopicNameBuf.len, emptyPath] using level.2
    · exact (matchesFilter_cons_iff kept levels rfl).mpr
        ⟨TopicFilterLevel.allows_of_meets_empty rfl meets, agree_singleton allows⟩
    · exact (matchesFilter_cons_iff kept' levels' rfl).mpr
        ⟨TopicFilterLevel.allows_of_meets_empty rfl meets', agree_singleton allows'⟩

theorem meets_iff {first second : TopicFilterBuf} (kept : first.Kept) (kept' : second.Kept) :
    first.Meets second ↔ overlap first.levels second.levels = true :=
  ⟨overlap_of_meets kept kept', meets_of_overlap kept kept'⟩

end TopicFilterBuf

theorem overlap_self (levels : List TopicFilterLevel) : overlap levels levels = true := by
  cases levels with
  | nil => rfl
  | cons level more =>
    have fronts : frontsMeet more more = true := by
      cases more with
      | nil => rfl
      | cons next => exact next.meets_self
    by_cases empty : level = .empty
    · simp [overlap, empty, TopicFilterLevel.meets, fronts]
    · simp [overlap, empty, level.meets_self]

/-! ### Every topic, in every order -/

variable {ς : Type} {trace : RouterTrace ς} {router : Router ς}

def registrations (trace : RouterTrace ς) (filter : TopicFilterBuf) : List SubscriptionId :=
  trace.filterMap fun entry =>
    match entry.input with
    | .sink _ => none
    | .topic id topicFilter => if TopicFilterBuf.new topicFilter = .ok filter then some id else none

theorem mem_registrations {filter : TopicFilterBuf} {id : SubscriptionId} :
    id ∈ registrations trace filter ↔ Registered trace id filter := by
  simp only [registrations, List.mem_filterMap, Registered]
  refine exists_congr fun entry => and_congr_right fun _ => ?_
  cases entry.input with
  | sink sink => simp
  | topic other topicFilter => simp [and_comm]

theorem RouterRuns.lookup_iff (run : RouterRuns trace router) {filter : TopicFilterBuf}
    {ids : List SubscriptionId} : router.subscriptionTopics.lookup filter = some ids ↔
      registrations trace filter = ids ∧ ids ≠ [] := by
  induction run generalizing ids with
  | done =>
    refine iff_of_false (by simp [Router.new]) ?_
    rintro ⟨rfl, some⟩
    exact some rfl
  | @next trace before _ _ _ run step ih =>
    rw [registrations, List.filterMap_append, ← registrations]
    cases step with
    | sink => simpa [Router.addSubscriptionSink] using ih
    | topic id topicFilter known added =>
      unfold Router.addSubscriptionToTopic at added
      split at added
      next => simp at added
      next other made =>
        obtain rfl := Except.ok.inj added
        by_cases same : filter = other
        · subst same
          have held : (before.subscriptionTopics.lookup filter).getD [] =
              registrations trace filter := by
            cases found : before.subscriptionTopics.lookup filter with
            | some ids => exact (ih.mp found).1.symm
            | none =>
              by_contra some
              have found' := ih.mpr ⟨rfl, Ne.symm some⟩
              simp [found] at found'
          simp only [AList.lookup_insert, held, Option.some.injEq, made, List.filterMap_cons,
            List.filterMap_nil, if_true]
          refine (and_iff_left_of_imp ?_).symm
          rintro rfl
          simp
        · have others : TopicFilterBuf.new topicFilter ≠ .ok filter := fun made' =>
            same (Except.ok.inj (made'.symm.trans made))
          simpa [AList.lookup_insert_ne same, others] using ih

theorem RouterRuns.entry_iff (run : RouterRuns trace router) {filter : TopicFilterBuf}
    {ids : List SubscriptionId} : ⟨filter, ids⟩ ∈ router.subscriptionTopics.entries ↔
      registrations trace filter = ids ∧ ids ≠ [] := by
  rw [← run.lookup_iff]
  exact AList.mem_lookup_iff.symm

theorem kept_of_registrations {filter : TopicFilterBuf} (some : registrations trace filter ≠ []) :
    filter.Kept := by
  obtain ⟨id, member⟩ := List.exists_mem_of_ne_nil _ some
  obtain ⟨_, -, _, -, made⟩ := mem_registrations.mp member
  exact TopicFilterBuf.new_kept made

/-- What one topic asks of the filter map. -/
theorem Router.Holds.deliversOnce_iff (holds : router.Holds trace) {order : List TopicEntry}
    (perm : order.Perm router.subscriptionTopics.entries) {publish : MPublish}
    {topicName : TopicNameBuf} (named : TopicNameBuf.new publish.topicName = .ok topicName) :
    (∃ deliveries, router.route order (.publish publish) = .ok deliveries ∧
      router.DeliversOnce (Subscribed trace topicName) (.publish publish) deliveries) ↔
      FirstCovers topicName.matchesEntry (·.2) order := by
  have known (id : SubscriptionId) (member : Subscribed trace topicName id ∨
      id ∈ firstMatch topicName.matchesEntry (·.2) order) : id ∈ router.subscriptions := by
    have wanted : Wanted topicName.matchesEntry (·.2) order id :=
      member.elim (holds.subscribed_iff perm topicName id).mp wanted_of_mem_firstMatch
    obtain ⟨⟨filter, ids⟩, entry, -, listed⟩ := wanted
    exact holds.sinks filter ids (AList.mem_lookup_iff.mpr (perm.mem_iff.mp entry)) id listed
  have sent : router.DeliversOnce _ (.publish publish) _ ↔ _ :=
    Router.deliversOnce_sendAll_iff known
  simp only [holds.subscribed_iff perm topicName] at sent
  rw [← count_firstMatch_iff, ← sent]
  constructor
  · rintro ⟨deliveries, routed, once⟩
    rwa [← Router.route_eq_ok named routed]
  · intro once
    obtain ⟨deliveries, routed⟩ := holds.route_ok perm publish
    refine ⟨deliveries, routed, ?_⟩
    rwa [Router.route_eq_ok named routed]

/-- Whatever the topic of a publish and whatever the order of the filter map, every
subscription with a matching filter gets one copy, and no other gets one, exactly when
no subscription registered a filter twice and filters that match some topic in common
were registered for the same subscriptions. -/
theorem deliversOnce_always_iff (run : RouterRuns trace router) :
    (∀ (publish : MPublish) (topicName : TopicNameBuf) (order : List TopicEntry),
      TopicNameBuf.new publish.topicName = .ok topicName →
      order.Perm router.subscriptionTopics.entries →
      ∃ deliveries, router.route order (.publish publish) = .ok deliveries ∧
        router.DeliversOnce (Subscribed trace topicName) (.publish publish) deliveries) ↔
      (∀ filter, (registrations trace filter).Nodup) ∧
        ∀ first second, registrations trace first ≠ [] → registrations trace second ≠ [] →
          overlap first.levels second.levels = true →
            registrations trace second ⊆ registrations trace first := by
  have holds := run.holds
  have entry {filter : TopicFilterBuf} (some : registrations trace filter ≠ []) :
      ⟨filter, registrations trace filter⟩ ∈ router.subscriptionTopics.entries :=
    run.entry_iff.mpr ⟨rfl, some⟩
  constructor
  · intro always
    have covers {s : String} {name : TopicNameBuf}
        (made : TopicNameBuf.new (publishTo s).topicName = .ok name) :=
      firstCovers_of_perm_iff.mp fun order perm =>
        (holds.deliversOnce_iff perm made).mp (always (publishTo s) name order made perm)
    constructor
    · intro filter
      by_cases some : registrations trace filter = []
      · simp [some]
      · have kept := kept_of_registrations some
        obtain ⟨s, name, made, matched, -⟩ :=
          (TopicFilterBuf.meets_iff kept kept).mpr (overlap_self filter.levels)
        exact (covers made).1 _ (entry some) (decide_eq_true matched)
    · intro first second some some' meets
      obtain ⟨s, name, made, matched, matched'⟩ := (TopicFilterBuf.meets_iff
        (kept_of_registrations some) (kept_of_registrations some')).mpr meets
      exact (covers made).2 _ (entry some) _ (entry some') (decide_eq_true matched)
        (decide_eq_true matched')
  · rintro ⟨nodup, subset⟩ publish topicName order named perm
    apply (holds.deliversOnce_iff perm named).mpr
    refine firstCovers_of_perm_iff.mpr ⟨?_, ?_⟩ order perm
    · rintro ⟨filter, ids⟩ member -
      obtain ⟨rfl, -⟩ := run.entry_iff.mp member
      exact nodup filter
    · rintro ⟨first, ids⟩ member ⟨second, ids'⟩ member' matched matched'
      obtain ⟨rfl, some⟩ := run.entry_iff.mp member
      obtain ⟨rfl, some'⟩ := run.entry_iff.mp member'
      apply subset first second some some'
      refine (TopicFilterBuf.meets_iff (kept_of_registrations some)
        (kept_of_registrations some')).mp ⟨_, topicName, named, ?_, ?_⟩
      · exact of_decide_eq_true matched
      · exact of_decide_eq_true matched'

theorem deliversOnce_always_shared :
    ∃ (trace : RouterTrace Nat) (router : Router Nat), RouterRuns trace router ∧
      trace.map (·.input) = [.sink 10, .sink 11, .topic ⟨0⟩ "a/+", .topic ⟨1⟩ "a/+"] ∧
      ((∀ (publish : MPublish) (topicName : TopicNameBuf) (order : List TopicEntry),
        TopicNameBuf.new publish.topicName = .ok topicName →
        order.Perm router.subscriptionTopics.entries →
        ∃ deliveries, router.route order (.publish publish) = .ok deliveries ∧
          router.DeliversOnce (Subscribed trace topicName) (.publish publish) deliveries) ↔
        (∀ filter, (registrations trace filter).Nodup) ∧
          ∀ first second, registrations trace first ≠ [] → registrations trace second ≠ [] →
            overlap first.levels second.levels = true →
              registrations trace second ⊆ registrations trace first) := by
  have run : RouterRuns _ _ := .next (.next (.next (.next .done
      (.sink 10)) (.sink 11))
    (.topic ⟨0⟩ "a/+" (by decide) (Router.addSubscriptionToTopic_eq_ok _ _ filter_any)))
    (.topic ⟨1⟩ "a/+" (by decide) (Router.addSubscriptionToTopic_eq_ok _ _ filter_any))
  exact ⟨_, _, run, rfl, deliversOnce_always_iff run⟩

end Client
