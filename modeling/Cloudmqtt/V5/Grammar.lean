import Cloudmqtt.V5.Sections

/-! The grammar of property sections: a length, then properties that are well
formed, each of them one of the section's own, and none but the user properties
twice.
-/

set_option autoImplicit false

namespace V5

open Base Rust

/-- A property on the wire: an identifier in any of its encodings, and the bytes of a value. -/
structure WireProperty where
  kind : PropertyKind
  identifier : List UInt8
  content : List UInt8
  value : kind.Value
  identified : VariableBytes identifier ∧ variableU32Value identifier = kind.identifier
  wellFormed : kind.shape.parse content = .ok (value, [])

namespace WireProperty

def bytes (self : WireProperty) : List UInt8 := self.identifier ++ self.content

def pair (self : WireProperty) : Option UserProperty := Property.pair ⟨self.kind, self.value⟩

def isUser (self : WireProperty) : Bool := self.kind = .userProperties

-- The value of a user property is a slice that does not end with its string pair.
def readBefore (self : WireProperty) (later : List UInt8) : Property :=
  if self.kind = .userProperties then ⟨.userProperties, ⟨self.content ++ later⟩⟩
  else ⟨self.kind, self.value⟩

def readAll : List WireProperty → List Property
  | [] => []
  | first :: more => first.readBefore (more.flatMap bytes) :: readAll more

theorem bytes_ne_nil (self : WireProperty) : self.bytes ≠ [] := by
  have some := self.identified.1.length.1
  intro none
  rw [bytes, List.append_eq_nil_iff] at none
  rw [none.1] at some
  cases some

theorem identifier_reads (self : WireProperty) :
    parseVariableU32.Reads self.identifier self.kind.identifier := by
  rw [← self.identified.2]
  exact parseVariableU32_reads self.identified.1

theorem user_reads {self : WireProperty} (user : self.kind = .userProperties) :
    ∃ up, UserProperty.parse.Reads self.content up ∧ self.pair = some up := by
  obtain ⟨kind, identifier, content, value, _, wellFormed⟩ := self
  obtain rfl : kind = .userProperties := user
  obtain ⟨slice, up, parsed⟩ := UserProperties.parse_eq_ok.mp wellFormed
  obtain ⟨fits, same⟩ := UserProperty.parse_eq_ok.mp parsed
  rw [List.append_nil] at same
  refine ⟨up, fun later => ?_, ?_⟩
  · exact UserProperty.parse_eq_ok.mpr ⟨fits, congrArg (· ++ later) same⟩
  · simp only [pair, Property.pair, Property.userProperties, Option.bind_some, slice, parsed]

theorem filterMap_pair (entries : List WireProperty) :
    entries.filterMap pair = (entries.filter isUser).filterMap pair := by
  induction entries with
  | nil => rfl
  | cons first more ih =>
    by_cases user : first.isUser = true
    · rw [List.filter_cons_of_pos user, List.filterMap_cons, List.filterMap_cons, ih]
    · have none : first.pair = none := Property.pair_eq_none fun same => user (decide_eq_true same)
      rw [List.filter_cons_of_neg user, List.filterMap_cons_none none, ih]

theorem readBefore_user {self : WireProperty} (user : self.kind = .userProperties)
    (later : List UInt8) :
    self.readBefore later = ⟨.userProperties, ⟨self.content ++ later⟩⟩ := if_pos user

theorem readBefore_plain {self : WireProperty} (plain : self.kind ≠ .userProperties)
    (later : List UInt8) : self.readBefore later = ⟨self.kind, self.value⟩ := if_neg plain

theorem readBefore_kind (self : WireProperty) (later : List UInt8) :
    (self.readBefore later).kind = self.kind := by
  by_cases user : self.kind = .userProperties
  · rw [readBefore_user user, user]
  · rw [readBefore_plain user]

theorem readBefore_pair (self : WireProperty) (later : List UInt8) :
    (self.readBefore later).pair = self.pair := by
  by_cases user : self.kind = .userProperties
  · obtain ⟨up, reads, pair⟩ := user_reads user
    rw [readBefore_user user, pair]
    simp only [Property.pair, Property.userProperties, Option.bind_some, reads later]
  · rw [readBefore_plain user, pair]

theorem parse_eq {fields : List PropertyKind} {self : WireProperty} (listed : self.kind ∈ fields)
    (later : List UInt8) :
    Property.parseAmong fields (self.bytes ++ later) = .ok (self.readBefore later, later) := by
  have named : parseVariableU32 (self.bytes ++ later) =
      .ok (self.kind.identifier, self.content ++ later) := by
    rw [bytes, List.append_assoc]
    exact self.identifier_reads _
  by_cases user : self.kind = .userProperties
  · obtain ⟨up, reads, -⟩ := user_reads user
    rw [user] at named listed
    rw [readBefore_user user]
    exact Property.parseAmong_eq_ok.mpr
      ⟨listed, _, named, UserProperties.parse_eq_ok.mpr ⟨rfl, up, reads later⟩⟩
  · have isLocal := self.kind.shape.parse_local (mt PropertyKind.shape_eq_userProperties.mp user)
    obtain ⟨whole, split, reads⟩ := isLocal _ _ _ self.wellFormed
    rw [List.append_nil] at split
    rw [← split] at reads
    rw [readBefore_plain user]
    exact Property.parseAmong_eq_ok.mpr ⟨listed, _, named, reads later⟩

/-- Whatever is read stands there as a property on the wire. -/
theorem of_parse {fields : List PropertyKind} {input rest : List UInt8} {property : Property}
    (run : Property.parseAmong fields input = .ok (property, rest)) :
    ∃ self : WireProperty, self.kind ∈ fields ∧ input = self.bytes ++ rest ∧
      property = self.readBefore rest := by
  obtain ⟨listed, middle, named, valueRead⟩ := Property.parseAmong_eq_ok.mp run
  obtain ⟨identifier, shape, rfl, value⟩ := parseVariableU32With_eq_ok.mp named
  obtain ⟨kind, read⟩ := property
  by_cases user : kind = .userProperties
  · subst user
    obtain ⟨slice⟩ := read
    obtain ⟨rfl, up, parsed⟩ := UserProperties.parse_eq_ok.mp valueRead
    obtain ⟨fits, rfl⟩ := UserProperty.parse_eq_ok.mp parsed
    have alone : UserProperty.parse up.bytes = .ok (up, []) :=
      UserProperty.parse_eq_ok.mpr ⟨fits, (List.append_nil _).symm⟩
    refine ⟨⟨.userProperties, identifier, up.bytes, ⟨up.bytes⟩, ⟨shape, value.symm⟩,
      UserProperties.parse_eq_ok.mpr ⟨rfl, up, alone⟩⟩, listed, ?_, ?_⟩
    · exact (List.append_assoc _ _ _).symm
    · rw [readBefore, if_pos rfl]
  · have isLocal := kind.shape.parse_local (mt PropertyKind.shape_eq_userProperties.mp user)
    obtain ⟨content, rfl, reads⟩ := isLocal _ _ _ valueRead
    refine ⟨⟨kind, identifier, content, read, ⟨shape, value.symm⟩, reads.whole⟩, listed, ?_, ?_⟩
    · exact (List.append_assoc _ _ _).symm
    · rw [readBefore, if_neg user]

/-- The loop over a section reads properties on the wire, one after the other. -/
theorem items_iff {fields : List PropertyKind} {body : List UInt8} {items : List Property} :
    Parser.Items (Property.parseAmong fields) body items ↔
      ∃ entries : List WireProperty, (∀ entry ∈ entries, entry.kind ∈ fields) ∧
        body = entries.flatMap bytes ∧ items = readAll entries := by
  constructor
  · intro read
    induction read with
    | nil => exact ⟨[], by simp, rfl, rfl⟩
    | cons _ head _ ih =>
      obtain ⟨first, listed, rfl, rfl⟩ := of_parse head
      obtain ⟨more, all, rfl, rfl⟩ := ih
      exact ⟨first :: more, List.forall_mem_cons.mpr ⟨listed, all⟩, rfl, rfl⟩
  · rintro ⟨entries, listed, rfl, rfl⟩
    induction entries with
    | nil => exact .nil
    | cons first more ih =>
      obtain ⟨now, later⟩ := List.forall_mem_cons.mp listed
      have some : first.bytes ++ more.flatMap bytes ≠ [] := fun none =>
        first.bytes_ne_nil (List.append_eq_nil_iff.mp none).1
      exact .cons some (parse_eq now _) (ih later)

theorem readAll_kinds (entries : List WireProperty) :
    (readAll entries).map (·.kind) = entries.map (·.kind) := by
  induction entries with
  | nil => rfl
  | cons first more ih => rw [readAll, List.map_cons, List.map_cons, readBefore_kind, ih]

theorem readAll_pairs (entries : List WireProperty) :
    (readAll entries).filterMap Property.pair = entries.filterMap pair := by
  induction entries with
  | nil => rfl
  | cons first more ih =>
    rw [readAll, List.filterMap_cons, List.filterMap_cons, readBefore_pair, ih]

theorem readAll_plain {kind : PropertyKind} (plain : kind ≠ .userProperties)
    (entries : List WireProperty) :
    (readAll entries).filterMap (Property.of kind) =
      entries.filterMap fun entry => Property.of kind ⟨entry.kind, entry.value⟩ := by
  induction entries with
  | nil => rfl
  | cons first more ih =>
    have head : Property.of kind (first.readBefore (more.flatMap bytes)) =
        Property.of kind ⟨first.kind, first.value⟩ := by
      by_cases user : first.kind = .userProperties
      · have other : first.kind ≠ kind := fun same => plain (same.symm.trans user)
        rw [Property.of_ne ((first.readBefore_kind _).trans_ne other)]
        exact (Property.of_ne other).symm
      · rw [readBefore_plain user]
    rw [readAll, List.filterMap_cons, List.filterMap_cons, head, ih]

theorem readAll_user {front back : List WireProperty} {entry : WireProperty}
    (user : entry.kind = .userProperties) (first : ∀ other ∈ front, other.kind ≠ .userProperties) :
    (readAll (front ++ entry :: back)).findSome? (Property.of .userProperties) =
      some ⟨entry.content ++ back.flatMap bytes⟩ := by
  induction front with
  | nil =>
    rw [List.nil_append, readAll, readBefore_user user, List.findSome?_cons, Property.of_self]
  | cons other more ih =>
    obtain ⟨now, later⟩ := List.forall_mem_cons.mp first
    have skipped := (other.readBefore_kind ((more ++ entry :: back).flatMap bytes)).trans_ne now
    rw [List.cons_append, readAll, List.findSome?_cons, Property.of_ne skipped]
    exact ih later

def ofUser (up : UserProperty) (fits : up.Fits) : WireProperty where
  kind := .userProperties
  identifier := [PropertyKind.userProperties.code]
  content := up.bytes
  value := ⟨up.bytes⟩
  identified := ⟨variableBytes_singleton (by decide), rfl⟩
  wellFormed := UserProperties.parse_eq_ok.mpr
    ⟨rfl, up, UserProperty.parse_eq_ok.mpr ⟨fits, (List.append_nil _).symm⟩⟩

end WireProperty

theorem head?_of_once {α : Type} {values : List α} {a : α} (member : a ∈ values)
    (once : values.length ≤ 1) : values.head? = some a := by
  match values, once with
  | [b], _ =>
    rw [List.mem_singleton.mp member]
    rfl

theorem Property.count_kind (items : List Property) (kind : PropertyKind) :
    (items.filterMap (Property.of kind)).length = (items.map (·.kind)).count kind := by
  induction items with
  | nil => rfl
  | cons property more ih =>
    by_cases same : property.kind = kind
    · obtain ⟨found, value⟩ := property
      subst same
      rw [List.filterMap_cons_some (Property.of_self _ _), List.length_cons, ih, List.map_cons,
        List.count_cons_self]
    · rw [List.filterMap_cons_none (Property.of_ne same), ih, List.map_cons,
        List.count_cons_of_ne same]

/-! ### Sections -/

/-- A property section on the wire. -/
structure WireSection (fields : List PropertyKind) where
  length : List UInt8
  entries : List WireProperty
  announced : VariableBytes length ∧
    (variableU32Value length).toNat = (entries.flatMap WireProperty.bytes).length
  listed : ∀ entry ∈ entries, entry.kind ∈ fields
  once : ∀ kind, kind ≠ .userProperties → (entries.map (·.kind)).count kind ≤ 1

def WireSection.bytes {fields : List PropertyKind} (self : WireSection fields) : List UInt8 :=
  self.length ++ self.entries.flatMap WireProperty.bytes

namespace Properties

variable {fields : List PropertyKind}

/-- Each slot holds the value of its property; that of the user properties runs
from the first of them to the end of the section. -/
structure Holds (p : Properties fields) (entries : List WireProperty) : Prop where
  plain : ∀ entry ∈ entries, entry.kind ≠ .userProperties →
    p.slot entry.kind = some entry.value
  user : ∀ front entry back, entries = front ++ entry :: back → entry.kind = .userProperties →
    (∀ other ∈ front, other.kind ≠ .userProperties) →
      p.slot .userProperties = some ⟨entry.content ++ back.flatMap WireProperty.bytes⟩
  pairs : ∀ u, p.slot .userProperties = some u → u.Lists (entries.filterMap WireProperty.pair)
  absent : ∀ kind, (∀ entry ∈ entries, entry.kind ≠ kind) → p.slot kind = none

theorem slot_of_fold {items : List Property} {final : Slots}
    (fold : items.foldlM Slots.use (fun _ => none) = .ok final) {kind : PropertyKind}
    (member : kind ∈ fields) :
    (takeInner fields final).slot kind = items.findSome? (Property.of kind) := by
  rw [slot_takeInner member, Slots.fold_slot fold kind, Option.none_or]

theorem holds_of_fold {entries : List WireProperty} {final : Slots}
    (listed : ∀ entry ∈ entries, entry.kind ∈ fields)
    (fold : (WireProperty.readAll entries).foldlM Slots.use (fun _ => none) = .ok final) :
    (takeInner fields final).Holds entries where
  plain entry member plain := by
    have once := Slots.fold_ok.mp ⟨final, fold⟩ entry.kind plain
    have found : entry.value ∈ entries.filterMap
        fun other => Property.of entry.kind ⟨other.kind, other.value⟩ :=
      List.mem_filterMap.mpr ⟨entry, member, Property.of_self _ _⟩
    rw [slot_of_fold fold (listed entry member), ← List.head?_filterMap,
      WireProperty.readAll_plain plain]
    rw [WireProperty.readAll_plain plain] at once
    exact head?_of_once found (Nat.le_trans (Nat.le_add_left _ _) once)
  user front entry back split user first := by
    have member : entry ∈ entries := split ▸ by simp
    have mine : PropertyKind.userProperties ∈ fields := user ▸ listed entry member
    rw [slot_of_fold fold mine, split]
    exact WireProperty.readAll_user user first
  pairs u held := by
    by_cases mine : PropertyKind.userProperties ∈ fields
    · rw [slot_of_fold fold mine] at held
      have read : Parser.Items Property.parse (entries.flatMap WireProperty.bytes)
          (WireProperty.readAll entries) :=
        WireProperty.items_iff.mpr ⟨entries, fun _ _ => PropertyKind.mem_all _, rfl, rfl⟩
      rw [← WireProperty.readAll_pairs]
      exact UserProperties.lists_of_items read held
    · rw [(takeInner fields final).absent _ mine] at held
      cases held
  absent kind none := by
    by_cases mine : kind ∈ fields
    · have kinds := WireProperty.readAll_kinds entries
      have others : ∀ property ∈ WireProperty.readAll entries, property.kind ≠ kind := by
        intro property member same
        have found := List.mem_map_of_mem (f := fun property => property.kind) member
        rw [kinds] at found
        obtain ⟨entry, member, kind⟩ := List.mem_map.mp found
        exact none entry member (kind.trans same)
      rw [slot_of_fold fold mine, ← List.head?_filterMap, Property.filterMap_of_other others]
      rfl
    · exact (takeInner fields final).absent _ mine

/-- A section on the wire is read, whatever follows it. -/
theorem reads_section (self : WireSection fields) :
    ∃ p, (parse fields).Reads self.bytes p ∧ p.Holds self.entries := by
  have once : ∀ kind, kind ≠ .userProperties → (Option.toList (none : Option kind.Value)).length +
      ((WireProperty.readAll self.entries).filterMap (Property.of kind)).length ≤ 1 := by
    intro kind plain
    rw [Property.count_kind, WireProperty.readAll_kinds]
    simpa using self.once kind plain
  obtain ⟨final, fold⟩ := Slots.fold_ok.mpr once
  refine ⟨takeInner fields final, fun rest => ?_, holds_of_fold self.listed fold⟩
  have read := WireProperty.items_iff.mpr ⟨self.entries, self.listed, rfl, rfl⟩
  rw [WireSection.bytes, List.append_assoc]
  exact parse_eq_ok.mpr ⟨_, _, _, final, parseVariableU32_reads self.announced.1 _,
    self.announced.2, read, fold, rfl⟩

/-- Whatever is read stands there as a section on the wire. -/
theorem section_of_parse {input rest : List UInt8} {p : Properties fields}
    (run : parse fields input = .ok (p, rest)) :
    ∃ self : WireSection fields, input = self.bytes ++ rest := by
  obtain ⟨u, body, items, final, sizeRead, size, read, fold, -⟩ := parse_eq_ok.mp run
  obtain ⟨length, shape, rfl, rfl⟩ := parseVariableU32With_eq_ok.mp sizeRead
  obtain ⟨entries, listed, rfl, rfl⟩ := WireProperty.items_iff.mp read
  have once : ∀ kind, kind ≠ .userProperties → (entries.map (·.kind)).count kind ≤ 1 := by
    intro kind plain
    have twice := Slots.fold_ok.mp ⟨final, fold⟩ kind plain
    rw [Property.count_kind, WireProperty.readAll_kinds] at twice
    simpa using twice
  exact ⟨⟨length, entries, ⟨shape, size⟩, listed, once⟩, (List.append_assoc _ _ _).symm⟩

theorem Holds.user_slot {self : Properties fields} {entries : List WireProperty}
    (holds : self.Holds entries) {entry : WireProperty} (member : entry ∈ entries)
    (user : entry.kind = .userProperties) : ∃ u, self.slot .userProperties = some u := by
  cases found : entries.find? WireProperty.isUser with
  | none => exact absurd (decide_eq_true user) (List.find?_eq_none.mp found entry member)
  | some first =>
    obtain ⟨mine, front, back, split, before⟩ := List.find?_eq_some_iff_append.mp found
    have user := of_decide_eq_true mine
    refine ⟨_, holds.user front first back split user fun other member same => ?_⟩
    have passed := before other member
    rw [WireProperty.isUser, decide_eq_true same] at passed
    cases passed

/-- The slots do not depend on the order in which different properties stand. -/
theorem Holds.eq {self other : Properties fields} {entries others : List WireProperty}
    (first : self.Holds entries) (second : other.Holds others) (perm : others.Perm entries)
    (users : others.filter WireProperty.isUser = entries.filter WireProperty.isUser) :
    self.eq other = .ok true := by
  apply eqAmong_eq_true.mpr
  intro kind _
  by_cases none : ∀ entry ∈ entries, entry.kind ≠ kind
  · rw [first.absent kind none,
      second.absent kind fun entry member => none entry (perm.mem_iff.mp member)]
    rfl
  · push Not at none
    obtain ⟨entry, member, rfl⟩ := none
    have moved := perm.mem_iff.mpr member
    by_cases user : entry.kind = .userProperties
    · obtain ⟨u, held⟩ := first.user_slot member user
      obtain ⟨v, held'⟩ := second.user_slot moved user
      have same : others.filterMap WireProperty.pair = entries.filterMap WireProperty.pair := by
        rw [WireProperty.filterMap_pair, users, ← WireProperty.filterMap_pair]
      rw [user, held, held']
      exact (first.pairs u held).eq (same ▸ second.pairs v held')
    · rw [first.plain entry member user, second.plain entry moved user]
      exact slotEq_plain user _

def reordered (self : WireSection fields) {entries : List WireProperty}
    (perm : entries.Perm self.entries) : WireSection fields where
  length := self.length
  entries := entries
  announced := by
    rw [(perm.flatMap_right WireProperty.bytes).length_eq]
    exact self.announced
  listed entry member := self.listed entry (perm.mem_iff.mp member)
  once kind plain := by
    rw [(perm.map _).count_eq]
    exact self.once kind plain

/-- The grammar decides what is read, up to where, and what the slots hold; other
than among the user properties the order of the properties is of no account. -/
theorem parse_grammar (fields : List PropertyKind) (input rest : List UInt8) :
    ((∃ p, parse fields input = .ok (p, rest)) ↔
      ∃ self : WireSection fields, input = self.bytes ++ rest) ∧
    ∀ self : WireSection fields, ∃ p, parse fields (self.bytes ++ rest) = .ok (p, rest) ∧
      p.Holds self.entries ∧ ∀ entries : List WireProperty, entries.Perm self.entries →
        entries.filter WireProperty.isUser = self.entries.filter WireProperty.isUser →
        ∃ p', parse fields (self.length ++ entries.flatMap WireProperty.bytes ++ rest) =
          .ok (p', rest) ∧ p.eq p' = .ok true := by
  constructor
  · constructor
    · rintro ⟨p, run⟩
      exact section_of_parse run
    · rintro ⟨self, rfl⟩
      obtain ⟨p, reads, -⟩ := reads_section self
      exact ⟨p, reads rest⟩
  · intro self
    obtain ⟨p, reads, holds⟩ := reads_section self
    refine ⟨p, reads rest, holds, fun entries perm users => ?_⟩
    obtain ⟨p', reads', holds'⟩ := reads_section (reordered self perm)
    exact ⟨p', reads' rest, holds.eq holds' perm users⟩

/-- Iterating over the user properties of a section that was read gives all of
them in their order, and ends. -/
theorem iter_yields {input rest : List UInt8} {p : Properties fields}
    (run : parse fields input = .ok (p, rest)) {u : UserProperties}
    (held : p.slot .userProperties = some u) :
    (∃ self : WireSection fields, input = self.bytes ++ rest) ∧
    ∀ self : WireSection fields, input = self.bytes ++ rest →
      Yields UserPropertyIterator.next u.iter (self.entries.filterMap WireProperty.pair) := by
  refine ⟨section_of_parse run, fun self same => ?_⟩
  obtain ⟨p', reads, holds⟩ := reads_section self
  have again := reads rest
  rw [← same, run] at again
  obtain rfl := (Prod.mk.inj (Except.ok.inj again)).1
  exact (holds.pairs u held).yields

def interleaved : WireSection [.payloadFormatIndicator, .userProperties] where
  length := [16]
  entries :=
    [.ofUser ⟨"a", "b"⟩ ⟨by decide, by decide⟩,
      ⟨.payloadFormatIndicator, [1], [1], 1, ⟨variableBytes_singleton (by decide), rfl⟩, rfl⟩,
      .ofUser ⟨"a", "c"⟩ ⟨by decide, by decide⟩]
  announced := ⟨variableBytes_singleton (by decide), by decide⟩
  listed := by decide
  once := by
    intro kind plain
    cases kind with
    | userProperties => exact absurd rfl plain
    | _ => decide

theorem iter_yields_interleaved : ∃ p u,
    parse [.payloadFormatIndicator, .userProperties] interleaved.bytes = .ok (p, []) ∧
      p.slot .userProperties = some u ∧
      ((∃ self : WireSection [.payloadFormatIndicator, .userProperties],
          interleaved.bytes = self.bytes ++ []) ∧
        ∀ self : WireSection [.payloadFormatIndicator, .userProperties],
          interleaved.bytes = self.bytes ++ [] →
            Yields UserPropertyIterator.next u.iter
              (self.entries.filterMap WireProperty.pair)) := by
  obtain ⟨p, reads, holds⟩ := reads_section interleaved
  have held := holds.user [] _ _ rfl rfl (by simp)
  exact ⟨p, _, reads.whole, held, iter_yields reads.whole held⟩

end Properties

end V5
