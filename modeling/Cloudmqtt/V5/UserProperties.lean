import Cloudmqtt.V5.VariableHeader

/-! What iterating over a well-formed `UserProperties` slice gives, and how it is written. -/

set_option autoImplicit false

namespace V5

open Base Rust

def Property.pair (property : Property) : Option UserProperty :=
  property.userProperties.bind fun prop =>
    match UserProperty.parse prop.slice with
    | .ok (up, _) => some up
    | .error _ => none

def UserProperty.entry (up : UserProperty) : List UInt8 :=
  PropertyKind.userProperties.code :: up.bytes

namespace UserProperties

/-- The slice is a string pair followed by properties; `ups` are the user properties in it. -/
def Lists (self : UserProperties) (ups : List UserProperty) : Prop :=
  ∃ first rest items, UserProperty.parse self.slice = .ok (first, rest) ∧
    Parser.Items Property.parse rest items ∧ ups = first :: items.filterMap Property.pair

/-- What `parse` leaves behind: a slice the iterator can run through. -/
def Valid (self : UserProperties) : Prop := ∃ ups, self.Lists ups

end UserProperties

theorem Property.userProperties_eq_some {property : Property} {prop : UserProperties} :
    property.userProperties = some prop ↔ property = ⟨.userProperties, prop⟩ := by
  obtain ⟨kind, value⟩ := property
  constructor
  · intro found
    cases kind <;> simp [Property.userProperties] at found
    rw [found]
  · intro same
    rw [same]
    rfl

theorem Property.userProperties_eq_none {property : Property} :
    property.userProperties = none ↔ property.kind ≠ .userProperties := by
  obtain ⟨kind, value⟩ := property
  cases kind <;> simp [Property.userProperties]

theorem Property.pair_of_parse {input rest : List UInt8} {prop : UserProperties}
    (run : Property.parse input = .ok (⟨.userProperties, prop⟩, rest)) :
    ∃ up, UserProperty.parse prop.slice = .ok (up, rest) ∧
      Property.pair ⟨.userProperties, prop⟩ = some up := by
  obtain ⟨-, middle, -, read⟩ := Property.parseAmong_eq_ok.mp run
  obtain ⟨rfl, up, read⟩ := UserProperties.parse_eq_ok.mp read
  exact ⟨up, read, by simp [Property.pair, Property.userProperties, read]⟩

theorem Property.pair_eq_none {property : Property} (other : property.kind ≠ .userProperties) :
    property.pair = none := by
  simp [Property.pair, Property.userProperties_eq_none.mpr other]

namespace UserPropertyIterator

theorem seek_items {input : List UInt8} {items : List Property}
    (read : Parser.Items Property.parse input items) {bound : Nat} (enough : input.length ≤ bound) :
    (seek bound input = .ok none ∧ items.filterMap Property.pair = []) ∨
      ∃ up rest more, seek bound input = .ok (some (up, rest)) ∧
        Parser.Items Property.parse rest more ∧ more.length < items.length ∧
        items.filterMap Property.pair = up :: more.filterMap Property.pair := by
  induction read generalizing bound with
  | nil => exact .inl ⟨by cases bound <;> rfl, rfl⟩
  | @cons input rest property items nonempty head more ih =>
    have shorter := Property.parseAmong_shrinks _ _ _ _ head
    cases input with
    | nil => exact absurd rfl nonempty
    | cons b bytes =>
      cases bound with
      | zero => simp at enough
      | succ bound =>
        simp only [seek, head]
        cases kind : property.userProperties with
        | some prop =>
          obtain rfl := Property.userProperties_eq_some.mp kind
          obtain ⟨up, parsed, pair⟩ := Property.pair_of_parse head
          refine .inr ⟨up, rest, items, ?_, more, by simp, by rw [List.filterMap_cons, pair]⟩
          simp only [parsed]
        | none =>
          have pair := Property.pair_eq_none (Property.userProperties_eq_none.mp kind)
          rw [List.filterMap_cons, pair]
          have shorter : rest.length ≤ bound := by
            simp only [List.length_cons] at *
            omega
          rcases ih shorter with
            ended | ⟨up, left, others, found, others_read, fewer, same⟩
          · exact .inl ended
          · exact .inr ⟨up, left, others, found, others_read, by simp; omega, same⟩

theorem yields_items {input : List UInt8} {items : List Property}
    (read : Parser.Items Property.parse input items) :
    Yields next ⟨input, false⟩ (items.filterMap Property.pair) := by
  rcases seek_items read (Nat.le_refl _) with
    ⟨ended, none⟩ | ⟨up, rest, more, found, moreRead, fewer, same⟩
  · rw [none]
    exact .done (by simp [next, ended, Except.map])
  · rw [same]
    exact .item (by simp [next, found, Except.map]) (yields_items moreRead)
termination_by items.length

theorem items_of_seek {bound : Nat} {input : List UInt8} (enough : input.length ≤ bound) :
    (seek bound input = .ok none →
      ∃ items, Parser.Items Property.parse input items ∧ items.filterMap Property.pair = []) ∧
    ∀ up rest, seek bound input = .ok (some (up, rest)) → rest.length < input.length ∧
      ∀ more, Parser.Items Property.parse rest more → ∃ items,
        Parser.Items Property.parse input items ∧
          items.filterMap Property.pair = up :: more.filterMap Property.pair := by
  induction bound generalizing input with
  | zero =>
    obtain rfl := List.length_eq_zero_iff.mp (Nat.le_zero.mp enough)
    exact ⟨fun _ => ⟨[], .nil, rfl⟩, by simp [seek]⟩
  | succ bound ih =>
    cases input with
    | nil => exact ⟨fun _ => ⟨[], .nil, rfl⟩, by simp [seek]⟩
    | cons b bytes =>
      simp only [seek]
      cases head : Property.parse (b :: bytes) with
      | error e => simp
      | ok pair =>
        obtain ⟨property, left⟩ := pair
        have shorter := Property.parseAmong_shrinks _ _ _ _ head
        simp only
        cases kind : property.userProperties with
        | some prop =>
          obtain rfl := Property.userProperties_eq_some.mp kind
          obtain ⟨first, parsed, same⟩ := Property.pair_of_parse head
          simp only [parsed, reduceCtorEq, false_implies, Except.ok.injEq, Option.some.injEq,
            Prod.mk.injEq, and_imp, true_and]
          rintro up rest rfl rfl
          exact ⟨shorter, fun more read =>
            ⟨_, .cons (List.cons_ne_nil b bytes) head read, by rw [List.filterMap_cons_some same]⟩⟩
        | none =>
          have skipped := Property.pair_eq_none (Property.userProperties_eq_none.mp kind)
          have fits : left.length ≤ bound := by
            simp only [List.length_cons] at *
            omega
          obtain ⟨ended, found⟩ := ih fits
          constructor
          · intro run
            obtain ⟨items, read, none⟩ := ended run
            exact ⟨_, .cons (List.cons_ne_nil b bytes) head read, by
              rw [List.filterMap_cons_none skipped, none]⟩
          · intro up rest run
            obtain ⟨fewer, reads⟩ := found up rest run
            refine ⟨by omega, fun more read => ?_⟩
            obtain ⟨items, all, same⟩ := reads more read
            exact ⟨_, .cons (List.cons_ne_nil b bytes) head all, by
              rw [List.filterMap_cons_none skipped, same]⟩

/-- Behind the first item the iterator searches. -/
theorem next_later (current : List UInt8) :
    next ⟨current, false⟩ = (seek current.length current).map
      (Option.map fun (up, rest) => (up, ⟨rest, false⟩)) := rfl

theorem next_first {current : List UInt8} {up : UserProperty} {later : UserPropertyIterator} :
    next ⟨current, true⟩ = .ok (some (up, later)) ↔
      ∃ rest, UserProperty.parse current = .ok (up, rest) ∧ later = ⟨rest, false⟩ := by
  simp only [next, if_true]
  cases UserProperty.parse current with
  | error e => simp
  | ok pair =>
    obtain ⟨first, rest⟩ := pair
    simp only [Except.ok.injEq, Option.some.injEq, Prod.mk.injEq]
    constructor
    · rintro ⟨rfl, rfl⟩
      exact ⟨rest, ⟨rfl, rfl⟩, rfl⟩
    · rintro ⟨_, ⟨rfl, rfl⟩, rfl⟩
      exact ⟨rfl, rfl⟩

theorem seek_of_next {current : List UInt8} {up : UserProperty} {later : UserPropertyIterator}
    (step : next ⟨current, false⟩ = .ok (some (up, later))) :
    ∃ rest, seek current.length current = .ok (some (up, rest)) ∧ later = ⟨rest, false⟩ := by
  obtain ⟨found, run, same⟩ := except_map_eq_ok.mp ((next_later current).symm.trans step)
  obtain ⟨⟨_, rest⟩, rfl, pair⟩ := Option.map_eq_some_iff.mp same
  obtain ⟨rfl, rfl⟩ := Prod.mk.inj pair
  exact ⟨rest, run, rfl⟩

theorem next_shrinks {self later : UserPropertyIterator} {up : UserProperty}
    (step : next self = .ok (some (up, later))) : later.current.length < self.current.length := by
  obtain ⟨current, firstProp⟩ := self
  cases firstProp with
  | true =>
    obtain ⟨rest, read, rfl⟩ := next_first.mp step
    exact UserProperty.parse_shrinks _ _ _ read
  | false =>
    obtain ⟨rest, run, rfl⟩ := seek_of_next step
    exact ((items_of_seek (Nat.le_refl _)).2 up rest run).1

theorem items_of_yields {self : UserPropertyIterator} {ups : List UserProperty}
    (yields : Yields next self ups) (later : self.firstProp = false) :
    ∃ items, Parser.Items Property.parse self.current items ∧
      ups = items.filterMap Property.pair := by
  induction yields with
  | @done self last =>
    obtain ⟨current, firstProp⟩ := self
    obtain rfl : firstProp = false := later
    obtain ⟨found, run, same⟩ := except_map_eq_ok.mp ((next_later current).symm.trans last)
    obtain rfl := Option.map_eq_none_iff.mp same
    obtain ⟨items, read, none⟩ := (items_of_seek (Nat.le_refl _)).1 run
    exact ⟨items, read, none.symm⟩
  | @item self next up ups head _ ih =>
    obtain ⟨current, firstProp⟩ := self
    obtain rfl : firstProp = false := later
    obtain ⟨rest, run, rfl⟩ := seek_of_next head
    obtain ⟨more, read, rfl⟩ := ih rfl
    obtain ⟨items, all, same⟩ := ((items_of_seek (Nat.le_refl _)).2 up rest run).2 more read
    exact ⟨items, all, same.symm⟩

end UserPropertyIterator

namespace UserProperties

/-- The iterator gives the user properties in their order, and fails nowhere. -/
theorem Lists.yields {self : UserProperties} {ups : List UserProperty} (lists : self.Lists ups) :
    Yields UserPropertyIterator.next self.iter ups := by
  obtain ⟨first, rest, items, head, read, rfl⟩ := lists
  have step : UserPropertyIterator.next self.iter = .ok (some (first, ⟨rest, false⟩)) :=
    UserPropertyIterator.next_first.mpr ⟨rest, head, rfl⟩
  exact .item step (UserPropertyIterator.yields_items read)

theorem Lists.pairs_eq {self : UserProperties} {ups : List UserProperty} (lists : self.Lists ups) :
    self.pairs = ⟨ups, none⟩ := by
  apply lists.yields.drain
  obtain ⟨first, rest, items, head, read, rfl⟩ := lists
  have shorter := UserProperty.parse_shrinks _ _ _ head
  have count := read.length_le (Property.parseAmong_shrinks _)
  have kept := List.length_filterMap_le Property.pair items
  simp only [List.length_cons]
  omega

theorem valid_iff {self : UserProperties} : self.Valid ↔ self.pairs.failure = none := by
  constructor
  · rintro ⟨ups, lists⟩
    rw [lists.pairs_eq]
  · intro ended
    have yields : Yields UserPropertyIterator.next self.iter self.pairs.items :=
      yields_of_drain (fun self : UserPropertyIterator => self.current.length)
        UserPropertyIterator.next_shrinks (Nat.lt_succ_self self.slice.length) ended
    generalize self.pairs.items = ups at yields
    cases yields with
    | done last =>
      simp only [UserPropertyIterator.next, iter, if_true] at last
      split at last <;> simp at last
    | item head more =>
      obtain ⟨rest, read, rfl⟩ := UserPropertyIterator.next_first.mp head
      obtain ⟨items, itemsRead, same⟩ := UserPropertyIterator.items_of_yields more rfl
      exact ⟨_, _, rest, items, read, itemsRead, rfl⟩

theorem Lists.eq {self other : UserProperties} {ups : List UserProperty} (first : self.Lists ups)
    (second : other.Lists ups) : self.eq other = .ok true := by
  rw [UserProperties.eq, Drained.eq_true_iff, first.pairs_eq, second.pairs_eq]
  exact ⟨rfl, rfl⟩

theorem Lists.fits {self : UserProperties} {ups : List UserProperty} (lists : self.Lists ups) :
    ∀ up ∈ ups, up.Fits := by
  obtain ⟨first, rest, items, head, read, rfl⟩ := lists
  have more : ∀ up ∈ items.filterMap Property.pair, up.Fits := by
    clear head
    induction read with
    | nil => simp
    | @cons input rest property items _ head _ ih =>
      by_cases kind : property.kind = .userProperties
      · obtain ⟨_, prop⟩ := property
        subst kind
        obtain ⟨up, parsed, pair⟩ := Property.pair_of_parse head
        simp only [List.filterMap_cons, pair, List.mem_cons, forall_eq_or_imp]
        exact ⟨(UserProperty.parse_eq_ok.mp parsed).1, ih⟩
      · simpa only [List.filterMap_cons, Property.pair_eq_none kind] using ih
  intro up member
  rcases List.mem_cons.mp member with rfl | member
  · exact (UserProperty.parse_eq_ok.mp head).1
  · exact more up member

theorem each_emits {ups : List UserProperty} (fits : ∀ up ∈ ups, up.Fits) {bytes : List UInt8} :
    (Emit.each (fun up => do
        writeVariableU32 identifier
        up.write) ups : WResult).Emits bytes () ↔ bytes = ups.flatMap UserProperty.entry := by
  induction ups generalizing bytes with
  | nil => simp [Emit.each]
  | cons up more ih =>
    rw [List.forall_mem_cons] at fits
    simp only [Emit.each, Emit.seq_emits, identifier, PropertyKind.identifier_emits,
      UserProperty.write_emits, List.flatMap_cons, UserProperty.entry]
    constructor
    · rintro ⟨_, _, ⟨_, _, rfl, ⟨-, rfl⟩, rfl⟩, rest, rfl⟩
      rw [(ih fits.2).mp rest]
      rfl
    · rintro rfl
      exact ⟨_, _, ⟨_, _, rfl, ⟨fits.1, rfl⟩, rfl⟩, (ih fits.2).mpr rfl, rfl⟩

theorem Lists.write_emits {self : UserProperties} {ups : List UserProperty}
    (lists : self.Lists ups) {bytes : List UInt8} :
    self.write.Emits bytes () ↔
      PropertyKind.userProperties.code :: bytes = ups.flatMap UserProperty.entry := by
  have fits := lists.fits
  have pairs := lists.pairs_eq
  obtain ⟨first, rest, items, -, -, rfl⟩ := lists
  rw [List.forall_mem_cons] at fits
  simp only [write, pairs, Emit.seq_emits, UserProperty.write_emits, each_emits fits.2,
    Emit.pure_emits, List.flatMap_cons, UserProperty.entry, List.cons_append, List.cons.injEq,
    true_and, and_true]
  constructor
  · rintro ⟨_, _, ⟨-, rfl⟩, ⟨_, _, rfl, rfl, rfl⟩, rfl⟩
    simp
  · rintro rfl
    exact ⟨_, _, ⟨fits.1, rfl⟩, ⟨_, _, rfl, rfl, rfl⟩, by simp⟩

/-- Beyond the first, every user property is counted with its identifier. -/
theorem sizes_announce [Build] {ups : List UserProperty} (fits : ∀ up ∈ ups, up.Fits) {idx n : Nat}
    (later : idx ≠ 0) {total : Size} (sum : total.Announces n) :
    (((ups.zipIdx idx).map fun (up, idx) =>
        up.binarySize + if idx = 0 then 0 else variableU32BinarySize identifier).foldl
          (· + ·) total).Announces (n + (ups.flatMap UserProperty.entry).length) := by
  induction ups generalizing idx n total with
  | nil => simpa using sum
  | cons up more ih =>
    rw [List.forall_mem_cons] at fits
    have size := UserProperty.exact.size (UserProperty.write_emits.mpr ⟨fits.1, rfl⟩)
    have step := sum.add (size.add PropertyKind.userProperties.identifier_size)
    simp only [List.zipIdx_cons, List.map_cons, List.foldl_cons, if_neg later]
    have total := ih fits.2 (Nat.succ_ne_zero idx) step
    simp only [List.flatMap_cons, UserProperty.entry, List.length_append,
      List.length_cons] at total ⊢
    exact total.congr (by omega)

theorem Lists.size [Build] {self : UserProperties} {ups : List UserProperty}
    (lists : self.Lists ups) {bytes : List UInt8} (emits : self.write.Emits bytes ()) :
    self.binarySize.Announces bytes.length := by
  have fits := lists.fits
  have pairs := lists.pairs_eq
  have shape := lists.write_emits.mp emits
  obtain ⟨first, rest, items, -, -, rfl⟩ := lists
  rw [List.forall_mem_cons] at fits
  have size := UserProperty.exact.size (UserProperty.write_emits.mpr ⟨fits.1, rfl⟩)
  have start := (Size.announces_literal 0).add (size.add (Size.announces_literal 0))
  simp only [binarySize, pairs, List.zipIdx_cons, List.map_cons, List.foldl_cons, if_pos]
  have total := sizes_announce fits.2 (Nat.succ_ne_zero 0) start
  simp only [List.flatMap_cons, UserProperty.entry, List.cons_append, List.cons.injEq, true_and]
    at shape
  refine total.congr ?_
  rw [shape, List.length_append]
  omega

end UserProperties

end V5
