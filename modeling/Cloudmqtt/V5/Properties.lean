import Cloudmqtt.V5.UserProperties
import Mathlib.Logic.Function.Basic
import Mathlib.Algebra.BigOperators.Group.List.Basic

/-! Property sections: a length, then properties in any order, each in its slot.

The packet types differ in which properties their sections may hold. The
sections are one type over the list of these, in the order they are written.
-/

set_option autoImplicit false

namespace V5

open Base Rust

/-- A property section of a packet type whose properties are `fields`. -/
structure Properties (fields : List PropertyKind) where
  slot : (kind : PropertyKind) → Option kind.Value
  absent : ∀ kind, kind ∉ fields → slot kind = none

abbrev Slots : Type := (kind : PropertyKind) → Option kind.Value

-- Repetition is allowed for user properties only, and there the first slice stands
-- for all of them.
/-- `use_slot`: a repeated property is an error, or is skipped where repetition is allowed. -/
def useSlot (kind : PropertyKind) (slot : Option kind.Value) (newSlot : kind.Value) :
    Except ErrMode (Option kind.Value) :=
  match slot with
  | some old => if kind.allowRepeating then .ok (some old) else .error .backtrack
  | none => .ok (some newSlot)

def Slots.use (slots : Slots) (property : Property) : Except ErrMode Slots :=
  (useSlot property.kind (slots property.kind) property.value).map
    (Function.update slots property.kind)

namespace Properties

variable {fields : List PropertyKind}

def new (fields : List PropertyKind) : Properties fields := ⟨fun _ => none, fun _ _ => rfl⟩

/-- The slots of the section's own properties, taken out. -/
def takeInner (fields : List PropertyKind) (slots : Slots) : Properties fields where
  slot kind := if kind ∈ fields then slots kind else none
  absent _ missing := if_neg missing

def parse (fields : List PropertyKind) : MParser (Properties fields) := do
  let propertiesBytes ← Parser.lengthTake (UInt32.toNat <$> parseVariableU32) .backtrack
  let slots ← Parser.lift (Parser.foldAll (Property.parseAmong fields) Slots.use .backtrack
    (fun _ => none) propertiesBytes)
  pure (takeInner fields slots)

def slotSize [Build] (self : Properties fields) (kind : PropertyKind) : Size :=
  match self.slot kind with
  | some p => variableU32BinarySize kind.identifier + kind.shape.binarySize p
  | none => 0

def propSize [Build] (self : Properties fields) : Size :=
  fields.foldl (fun total kind => total + self.slotSize kind) 0

def binarySize [Build] (self : Properties fields) : Size :=
  self.propSize.bind fun propSize =>
    variableU32BinarySize propSize + Size.value propSize

def writeSlot (self : Properties fields) (kind : PropertyKind) : WResult :=
  match self.slot kind with
  | some prop => do
    writeVariableU32 kind.identifier
    kind.shape.write prop
  | none => pure ()

def write [Build] (self : Properties fields) : WResult :=
  writeSized self.propSize fun size => do
    writeVariableU32 size
    Emit.each self.writeSlot fields

def slotEq (kind : PropertyKind) : Option kind.Value → Option kind.Value → Except Panic Bool
  | some a, some b => kind.shape.eq a b
  | none, none => .ok true
  | _, _ => .ok false

/-- The slots compared in order, up to the first that differs. -/
def eqAmong (first second : Slots) : List PropertyKind → Except Panic Bool
  | [] => .ok true
  | kind :: more =>
    match slotEq kind (first kind) (second kind) with
    | .ok true => eqAmong first second more
    | .ok false => .ok false
    | .error p => .error p

def eq (self other : Properties fields) : Except Panic Bool :=
  eqAmong self.slot other.slot fields

end Properties

/-! ### What a run over the slots leaves in them -/

def Property.of (kind : PropertyKind) (property : Property) : Option kind.Value :=
  if same : property.kind = kind then some (same ▸ property.value) else none

@[simp] theorem Property.of_self (kind : PropertyKind) (value : kind.Value) :
    Property.of kind ⟨kind, value⟩ = some value := by
  simp [Property.of]

theorem Property.of_ne {kind : PropertyKind} {property : Property} (other : property.kind ≠ kind) :
    Property.of kind property = none := dif_neg other

theorem Slots.use_eq_ok {slots final : Slots} {property : Property} :
    slots.use property = .ok final ↔
      (slots property.kind = none ∧
        final = Function.update slots property.kind (some property.value)) ∨
      ((slots property.kind).isSome ∧ property.kind.allowRepeating = true ∧ final = slots) := by
  unfold Slots.use useSlot
  cases held : slots property.kind with
  | none =>
    simp only [Except.map, Except.ok.injEq, true_and, Option.isSome_none, Bool.false_eq_true,
      false_and, or_false]
    exact eq_comm
  | some old =>
    by_cases repeats : property.kind.allowRepeating = true
    · have kept : Function.update slots property.kind (some old) = slots := by
        rw [← held, Function.update_eq_self]
      simp only [repeats, if_true, Except.map, kept, Except.ok.injEq, reduceCtorEq, false_and,
        Option.isSome_some, true_and, false_or]
      exact eq_comm
    · simp [repeats, Except.map]

theorem Slots.fold_slot {items : List Property} {slots final : Slots}
    (run : items.foldlM Slots.use slots = .ok final) (kind : PropertyKind) :
    final kind = (slots kind).or (items.findSome? (Property.of kind)) := by
  induction items generalizing slots with
  | nil =>
    obtain rfl : slots = final := Except.ok.inj run
    simp
  | cons property more ih =>
    obtain ⟨next, step, run⟩ := except_bind_eq_ok.mp run
    rw [ih run, List.findSome?_cons]
    by_cases same : property.kind = kind
    · subst same
      obtain ⟨same, value⟩ := property
      rcases Slots.use_eq_ok.mp step with ⟨free, rfl⟩ | ⟨held, -, rfl⟩
      · simp [free]
      · obtain ⟨old, held⟩ := Option.isSome_iff_exists.mp held
        simp [held]
    · rw [Property.of_ne same]
      rcases Slots.use_eq_ok.mp step with ⟨-, rfl⟩ | ⟨-, -, rfl⟩
      · rw [Function.update_of_ne (Ne.symm same)]
      · rfl

/-- A run succeeds exactly when no property but the user properties comes twice. -/
theorem Slots.fold_ok {items : List Property} {slots : Slots} :
    (∃ final, items.foldlM Slots.use slots = .ok final) ↔ ∀ kind, kind ≠ .userProperties →
      (slots kind).toList.length + (items.filterMap (Property.of kind)).length ≤ 1 := by
  induction items generalizing slots with
  | nil =>
    refine ⟨fun _ kind _ => ?_, fun _ => ⟨slots, rfl⟩⟩
    cases slots kind <;> simp
  | cons property more ih =>
    have split : (∃ final, (property :: more).foldlM Slots.use slots = .ok final) ↔
        ∃ next, slots.use property = .ok next ∧ ∀ kind, kind ≠ .userProperties →
          (next kind).toList.length + (more.filterMap (Property.of kind)).length ≤ 1 := by
      simp only [List.foldlM_cons, except_bind_eq_ok, ← ih]
      exact ⟨fun ⟨final, next, step, run⟩ => ⟨next, step, final, run⟩,
        fun ⟨next, step, final, run⟩ => ⟨final, next, step, run⟩⟩
    rw [split]
    obtain ⟨found, value⟩ := property
    cases held : slots found with
    | none =>
      -- the value goes from the items into its free slot
      have step : slots.use ⟨found, value⟩ = .ok (Function.update slots found (some value)) :=
        Slots.use_eq_ok.mpr (.inl ⟨held, rfl⟩)
      have moved (kind : PropertyKind) :
          (Function.update slots found (some value) kind).toList.length +
          (more.filterMap (Property.of kind)).length = (slots kind).toList.length +
          ((⟨found, value⟩ :: more).filterMap (Property.of kind)).length := by
        by_cases same : found = kind
        · subst same
          simp [held, Nat.add_comm]
        · rw [Function.update_of_ne (Ne.symm same),
            List.filterMap_cons_none (Property.of_ne same)]
      constructor
      · rintro ⟨next, run, once⟩ kind plain
        obtain rfl := Except.ok.inj (step.symm.trans run)
        exact moved kind ▸ once kind plain
      · intro once
        exact ⟨_, step, fun kind plain => moved kind ▸ once kind plain⟩
    | some old =>
      by_cases repeats : found = .userProperties
      · subst repeats
        have step : slots.use ⟨.userProperties, value⟩ = .ok slots :=
          Slots.use_eq_ok.mpr (.inr ⟨by simp [held], rfl, rfl⟩)
        have skipped (kind : PropertyKind) (plain : kind ≠ .userProperties) :
            (⟨.userProperties, value⟩ :: more).filterMap (Property.of kind) =
              more.filterMap (Property.of kind) :=
          List.filterMap_cons_none (Property.of_ne (Ne.symm plain))
        constructor
        · rintro ⟨next, run, once⟩ kind plain
          obtain rfl := Except.ok.inj (step.symm.trans run)
          exact skipped kind plain ▸ once kind plain
        · intro once
          exact ⟨_, step, fun kind plain => skipped kind plain ▸ once kind plain⟩
      · constructor
        · rintro ⟨next, run, -⟩
          rcases Slots.use_eq_ok.mp run with ⟨free, -⟩ | ⟨-, allowed, -⟩
          · simp [held] at free
          · exact absurd (of_decide_eq_true allowed) repeats
        · intro once
          have twice := once found repeats
          simp [held] at twice

/-! ### User properties of a section -/

/-- The first slice runs from its own string pair to the end of the section. -/
theorem UserProperties.lists_of_items {input : List UInt8} {items : List Property}
    (read : Parser.Items Property.parse input items) {prop : UserProperties}
    (found : items.findSome? (Property.of .userProperties) = some prop) :
    prop.Lists (items.filterMap Property.pair) := by
  induction read with
  | nil => simp at found
  | @cons input rest property items _ head more ih =>
    by_cases kind : property.kind = .userProperties
    · obtain ⟨_, first⟩ := property
      subst kind
      obtain rfl : first = prop := by simpa using found
      obtain ⟨up, parsed, pair⟩ := Property.pair_of_parse head
      exact ⟨up, rest, items, parsed, more, by rw [List.filterMap_cons_some pair]⟩
    · rw [List.findSome?_cons, Property.of_ne kind] at found
      rw [List.filterMap_cons_none (Property.pair_eq_none kind)]
      exact ih found

theorem Property.filterMap_pair (items : List Property) :
    items.filterMap Property.pair =
      (items.filterMap (Property.of .userProperties)).filterMap
        (fun prop => Property.pair ⟨.userProperties, prop⟩) := by
  rw [List.filterMap_filterMap]
  congr 1
  funext property
  by_cases kind : property.kind = .userProperties
  · obtain ⟨found, prop⟩ := property
    subst kind
    simp
  · rw [Property.of_ne kind, Property.pair_eq_none kind]
    rfl

theorem Property.filterMap_of_other {items : List Property} {kind : PropertyKind}
    (other : ∀ property ∈ items, property.kind ≠ kind) :
    items.filterMap (Property.of kind) = [] :=
  List.filterMap_eq_nil_iff.mpr fun property member => Property.of_ne (other property member)

theorem Property.length_filterMap_of {items : List Property} {kind : PropertyKind}
    (only : ∀ property ∈ items, property.kind = kind) :
    (items.filterMap (Property.of kind)).length = items.length := by
  induction items with
  | nil => rfl
  | cons property more ih =>
    rw [List.forall_mem_cons] at only
    obtain ⟨found, value⟩ := property
    obtain ⟨rfl, only⟩ := only
    simp [ih only]

theorem UserProperties.items_of_entries {fields : List PropertyKind} {ups : List UserProperty}
    (fits : ∀ up ∈ ups, up.Fits) (member : .userProperties ∈ fields) {rest : List UInt8}
    {items : List Property} (read : Parser.Items (Property.parseAmong fields) rest items) :
    ∃ front, Parser.Items (Property.parseAmong fields) (ups.flatMap UserProperty.entry ++ rest)
        (front ++ items) ∧
      (∀ property ∈ front, property.kind = .userProperties) ∧ front.length = ups.length ∧
      front.filterMap Property.pair = ups := by
  induction ups with
  | nil => exact ⟨[], read, by simp, rfl, rfl⟩
  | cons up more ih =>
    rw [List.forall_mem_cons] at fits
    obtain ⟨front, items_read, kinds, count, pairs⟩ := ih fits.2
    have tail : UserProperty.parse (up.bytes ++ (more.flatMap UserProperty.entry ++ rest)) =
        .ok (up, more.flatMap UserProperty.entry ++ rest) :=
      UserProperty.parse_eq_ok.mpr ⟨fits.1, rfl⟩
    have split : (up :: more).flatMap UserProperty.entry ++ rest =
        [PropertyKind.userProperties.code] ++
          (up.bytes ++ (more.flatMap UserProperty.entry ++ rest)) := by
      simp [UserProperty.entry]
    have head : Property.parseAmong fields ((up :: more).flatMap UserProperty.entry ++ rest) =
        .ok (⟨.userProperties, ⟨up.bytes ++ (more.flatMap UserProperty.entry ++ rest)⟩⟩,
          more.flatMap UserProperty.entry ++ rest) := by
      rw [split]
      exact Property.parseAmong_eq_ok.mpr ⟨member, _, PropertyKind.code_reads .userProperties _,
        UserProperties.parse_eq_ok.mpr ⟨rfl, up, tail⟩⟩
    refine ⟨_ :: front, .cons (by simp [UserProperty.entry]) head items_read, ?_,
      by simp [count], ?_⟩
    · rintro property (_ | ⟨_, found⟩)
      · rfl
      · exact kinds property found
    · have pair : Property.pair
          ⟨.userProperties, ⟨up.bytes ++ (more.flatMap UserProperty.entry ++ rest)⟩⟩ = some up := by
        simp [Property.pair, Property.userProperties, tail]
      rw [List.filterMap_cons_some pair, pairs]

namespace Properties

variable {fields : List PropertyKind}

def Valid (self : Properties fields) : Prop :=
  ∀ prop, self.slot .userProperties = some prop → prop.Valid

def userPairs (self : Properties fields) : List UserProperty :=
  match self.slot .userProperties with
  | some prop => prop.pairs.items
  | none => []

/-- Among the items are those the slot is written as. -/
structure Carries (p : Properties fields) (kind : PropertyKind) (items : List Property) :
    Prop where
  plain : kind ≠ .userProperties → items.filterMap (Property.of kind) = (p.slot kind).toList
  count : kind = .userProperties →
    (items.filterMap (Property.of .userProperties)).length = p.userPairs.length
  pairs : kind = .userProperties → items.filterMap Property.pair = p.userPairs

theorem Carries.congr {self : Properties fields} {kind : PropertyKind}
    {items others : List Property} (carries : self.Carries kind items)
    (same : others.filterMap (Property.of kind) = items.filterMap (Property.of kind)) :
    self.Carries kind others where
  plain plain := same.trans (carries.plain plain)
  count user := by
    subst user
    rw [same, carries.count rfl]
  pairs user := by
    subst user
    rw [Property.filterMap_pair, same, ← Property.filterMap_pair, carries.pairs rfl]

variable [Build]

theorem items_of_slot {self : Properties fields} (valid : self.Valid) {kind : PropertyKind}
    (member : kind ∈ fields) {bytes : List UInt8} (emits : (self.writeSlot kind).Emits bytes ())
    {rest : List UInt8} {items : List Property}
    (read : Parser.Items (Property.parseAmong fields) rest items) :
    ∃ front, Parser.Items (Property.parseAmong fields) (bytes ++ rest) (front ++ items) ∧
      (∀ property ∈ front, property.kind = kind) ∧ self.Carries kind front := by
  unfold writeSlot at emits
  cases held : self.slot kind with
  | none =>
    rw [held] at emits
    obtain ⟨rfl, -⟩ := Emit.pure_emits.mp emits
    refine ⟨[], read, by simp, ⟨fun _ => by simp [held], ?_, ?_⟩⟩ <;>
      · rintro rfl
        simp [userPairs, held]
  | some value =>
    rw [held] at emits
    simp only [Emit.seq_emits, PropertyKind.identifier_emits] at emits
    obtain ⟨_, written, rfl, emits, rfl⟩ := emits
    by_cases user : kind = .userProperties
    · subst user
      obtain ⟨ups, lists⟩ := valid value held
      have pairs : self.userPairs = ups := by simp [userPairs, held, lists.pairs_eq]
      have shape := lists.write_emits.mp emits
      obtain ⟨front, items_read, kinds, count, same⟩ :=
        UserProperties.items_of_entries lists.fits member read
      refine ⟨front, ?_, kinds, fun plain => absurd rfl plain, fun _ => ?_, fun _ => ?_⟩
      · rw [List.singleton_append, shape]
        exact items_read
      · rw [Property.length_filterMap_of kinds, count, pairs]
      · rw [same, pairs]
    · have exact := Shape.exact (mt PropertyKind.shape_eq_userProperties.mp user)
      have head : Property.parseAmong fields ([kind.code] ++ (written ++ rest)) =
          .ok (⟨kind, value⟩, rest) :=
        Property.parseAmong_eq_ok.mpr
          ⟨member, _, PropertyKind.code_reads kind _, exact.reads emits rest⟩
      refine ⟨[⟨kind, value⟩], ?_, by simp, fun _ => by simp [held], fun same => absurd same user,
        fun same => absurd same user⟩
      rw [List.append_assoc]
      exact .cons (by simp) head read

/-- What the slots wrote, one after the other, is read as items that carry all of them. -/
theorem items_of_slots {self : Properties fields} (valid : self.Valid) {kinds : List PropertyKind}
    (members : ∀ kind ∈ kinds, kind ∈ fields) (distinct : kinds.Nodup)
    (emits : ∀ kind ∈ kinds, (self.writeSlot kind).Emits (self.writeSlot kind).emitted ()) :
    ∃ items, Parser.Items (Property.parseAmong fields)
        (kinds.flatMap fun kind => (self.writeSlot kind).emitted) items ∧
      (∀ property ∈ items, property.kind ∈ kinds) ∧ ∀ kind ∈ kinds, self.Carries kind items := by
  induction kinds with
  | nil => exact ⟨[], .nil, by simp, by simp⟩
  | cons kind more ih =>
    rw [List.forall_mem_cons] at members emits
    obtain ⟨fresh, distinct⟩ := List.nodup_cons.mp distinct
    obtain ⟨items, read, inMore, carries⟩ := ih members.2 distinct emits.2
    obtain ⟨front, read, kinds, first⟩ := items_of_slot valid members.1 emits.1 read
    refine ⟨front ++ items, read, ?_, ?_⟩
    · intro property member
      rcases List.mem_append.mp member with found | found
      · exact List.mem_cons.mpr (.inl (kinds property found))
      · exact List.mem_cons.mpr (.inr (inMore property found))
    · rw [List.forall_mem_cons]
      constructor
      · have none : items.filterMap (Property.of kind) = [] := Property.filterMap_of_other
          fun property member same => fresh (same ▸ inMore property member)
        exact first.congr (by rw [List.filterMap_append, none, List.append_nil])
      · intro other member
        have none : front.filterMap (Property.of other) = [] := Property.filterMap_of_other
          fun property found same => fresh (by rwa [← kinds property found, same])
        exact (carries other member).congr
          (by rw [List.filterMap_append, none, List.nil_append])

end Properties

end V5
