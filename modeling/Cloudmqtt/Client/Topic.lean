import Cloudmqtt.Base.Parser
import Cloudmqtt.Rust

/-! Topic names and topic filters, level by level. -/

set_option autoImplicit false

namespace Client

open Rust

def topicLevelSeperator : Char := '/'

def maximumTopicByteLength : Nat := 65535

inductive TopicError where
  | levelContainsSeperator
  | cannotAppendToMultilevelWildcard
  | empty
  | mixedWildcardLevel
  | wouldExceedLength
  | nullCharacter
  deriving DecidableEq, Repr

/-- A level of a topic name, or a level of a filter that is no wildcard. -/
structure TopicPath where
  value : String
  plain : containsAny value ['+', '#', Char.ofNat 0] = false
  deriving DecidableEq

def TopicPath.tryFrom (value : String) : Except TopicError TopicPath :=
  if wildcard : containsAny value ['+', '#'] then .error .mixedWildcardLevel
  else if null : containsAny value [Char.ofNat 0] then .error .nullCharacter
  else .ok ⟨value, by
    simp only [containsAny, List.any_eq_true, List.contains_iff_mem, List.mem_cons, List.not_mem_nil,
      or_false, not_exists, not_and, List.any_eq_false, not_or] at wildcard null ⊢
    exact fun c member => ⟨(wildcard c member).1, (wildcard c member).2, null c member⟩⟩

inductive TopicFilterLevel where
  | path (path : TopicPath)
  | topicLevelSeperator
  | multiLevelSeperator
  | empty
  deriving DecidableEq

namespace TopicFilterLevel

def isMultiLevelSeperator (self : TopicFilterLevel) : Bool := decide (self = multiLevelSeperator)

def asStr : TopicFilterLevel → String
  | path p => p.value
  | topicLevelSeperator => "+"
  | multiLevelSeperator => "#"
  | empty => ""

def tryFrom (level : String) : Except TopicError TopicFilterLevel :=
  if containsAny level [Client.topicLevelSeperator] then .error .levelContainsSeperator
  else
    match level with
    | "" => .ok empty
    | "+" => .ok topicLevelSeperator
    | "#" => .ok multiLevelSeperator
    | level => path <$> TopicPath.tryFrom level

end TopicFilterLevel

structure TopicFilterBuf where
  levels : List TopicFilterLevel
  hasEndWildcard : Bool
  deriving DecidableEq

namespace TopicFilterBuf

/-- One byte for each level, and the bytes of the levels. -/
def len (self : TopicFilterBuf) : Nat :=
  self.levels.length + (self.levels.map fun level => Rust.len level.asStr).sum

def appendSingle (self : TopicFilterBuf) (level : String) : Except TopicError TopicFilterBuf :=
  if self.hasEndWildcard then .error .cannotAppendToMultilevelWildcard
  else do
    let level ← TopicFilterLevel.tryFrom level
    if maximumTopicByteLength < self.len + 1 + Rust.len level.asStr then .error .wouldExceedLength
    else .ok ⟨self.levels ++ [level], self.hasEndWildcard || level.isMultiLevelSeperator⟩

/-- Also the topic that a failed call leaves behind. -/
def append (self : TopicFilterBuf) (levels : String) : Except TopicError Unit × TopicFilterBuf :=
  tryForEach appendSingle self (split levels topicLevelSeperator)

def new (levels : String) : Except TopicError TopicFilterBuf :=
  if levels.isEmpty then .error .empty
  else
    let (appended, topic) := append ⟨[], false⟩ levels
    appended.map fun _ => topic

end TopicFilterBuf

structure TopicNameBuf where
  levels : List TopicPath
  deriving DecidableEq

namespace TopicNameBuf

def len (self : TopicNameBuf) : Nat :=
  self.levels.length + (self.levels.map fun level => Rust.len level.value).sum

def appendSingle (self : TopicNameBuf) (level : String) : Except TopicError TopicNameBuf := do
  let level ← TopicPath.tryFrom level
  if maximumTopicByteLength < self.len + 1 + Rust.len level.value then .error .wouldExceedLength
  else .ok ⟨self.levels ++ [level]⟩

def append (self : TopicNameBuf) (levels : String) : Except TopicError Unit × TopicNameBuf :=
  tryForEach appendSingle self (split levels topicLevelSeperator)

def new (levels : String) : Except TopicError TopicNameBuf :=
  if levels.isEmpty then .error .empty
  else
    let (appended, topic) := append ⟨[]⟩ levels
    appended.map fun _ => topic

-- The last line is the `break`: the loop ends when either side has no level left,
-- and `matches` returns `true` behind it.
/-- The loop of `matches`: both iterators advance together. -/
def matchLevels : List TopicFilterLevel → List TopicPath → Bool
  | filter :: filterIt, path :: pathIt =>
    match filter with
    | .path topicPath =>
      if topicPath ≠ path then false
      else if filterIt.head? = some .multiLevelSeperator then true
      else matchLevels filterIt pathIt
    | .empty => if path.value ≠ "" then false else matchLevels filterIt pathIt
    | .topicLevelSeperator => matchLevels filterIt pathIt
    | .multiLevelSeperator => true
  | _, _ => true

/-- `matches`; a filter without levels has no first level to look at. -/
def matchesFilter (self : TopicNameBuf) (filter : TopicFilterBuf) : Except Panic Bool :=
  match filter.levels with
  | [] => .error .unwrapNone
  | first :: _ =>
    if first.isMultiLevelSeperator then .ok true else .ok (matchLevels filter.levels self.levels)

end TopicNameBuf

theorem TopicNameBuf.matchesFilter_ok (self : TopicNameBuf) {filter : TopicFilterBuf}
    (nonempty : filter.levels ≠ []) : ∃ found, self.matchesFilter filter = .ok found := by
  unfold matchesFilter
  split
  next none => exact absurd none nonempty
  next => split <;> exact ⟨_, rfl⟩

/-! ### Samples -/

def levelA : TopicPath := ⟨"a", by decide⟩
def levelB : TopicPath := ⟨"b", by decide⟩

theorem filter_a : TopicFilterBuf.new "a" = .ok ⟨[.path levelA], false⟩ := rfl

theorem filter_ab : TopicFilterBuf.new "a/b" = .ok ⟨[.path levelA, .path levelB], false⟩ := rfl

theorem filter_any : TopicFilterBuf.new "a/+" = .ok ⟨[.path levelA, .topicLevelSeperator], false⟩ :=
  rfl

theorem filter_below : TopicFilterBuf.new "a/#" =
    .ok ⟨[.path levelA, .multiLevelSeperator], true⟩ := rfl

end Client
