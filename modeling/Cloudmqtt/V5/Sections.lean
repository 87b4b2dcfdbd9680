import Cloudmqtt.V5.Layout
import Cloudmqtt.V5.Properties

/-! Property sections are read back as they were written, and what was read can be written. -/

set_option autoImplicit false

namespace V5

open Base Rust

namespace Properties

variable {fields : List PropertyKind}

theorem eqAmong_eq_true {first second : Slots} {kinds : List PropertyKind} :
    eqAmong first second kinds = .ok true ↔
      ∀ kind ∈ kinds, slotEq kind (first kind) (second kind) = .ok true := by
  induction kinds with
  | nil => simp [eqAmong]
  | cons kind more ih =>
    rw [List.forall_mem_cons, ← ih, eqAmong]
    cases slotEq kind (first kind) (second kind) with
    | error p => simp
    | ok same => cases same <;> simp

theorem slotEq_plain {kind : PropertyKind} (plain : kind ≠ .userProperties)
    (slot : Option kind.Value) : slotEq kind slot slot = .ok true := by
  cases slot with
  | none => rfl
  | some value =>
    exact (Shape.eq_plain (mt PropertyKind.shape_eq_userProperties.mp plain) _ _).mpr rfl

theorem slot_takeInner {slots : Slots} {kind : PropertyKind} (member : kind ∈ fields) :
    (takeInner fields slots).slot kind = slots kind := if_pos member

theorem parse_local (fields : List PropertyKind) : (parse fields).Local :=
  ((parseVariableU32_local.map _).lengthTake _).bind fun _ => (Parser.Local.lift _).bind fun _ =>
    .pure _

theorem parse_shrinks (fields : List PropertyKind) : (parse fields).Shrinks :=
  ((parseVariableU32_shrinks.map _).bind fun _ => (Parser.Local.take _ _).suffixes).bind fun _ =>
    ((Parser.Local.lift _).bind fun _ => .pure _).suffixes

theorem parse_eq_ok {input rest : List UInt8} {p : Properties fields} :
    parse fields input = .ok (p, rest) ↔ ∃ u body items final,
      parseVariableU32 input = .ok (u, body ++ rest) ∧ u.toNat = body.length ∧
      Parser.Items (Property.parseAmong fields) body items ∧
      items.foldlM Slots.use (fun _ => none) = .ok final ∧ p = takeInner fields final := by
  simp only [parse, Parser.bind_eq_ok, lengthTake_eq_ok, Parser.lift_eq_ok, Parser.pure_apply,
    Parser.foldAll_eq_ok (Property.parseAmong_shrinks fields), Parser.map_eq_ok, Except.ok.injEq,
    Prod.mk.injEq]
  constructor
  · rintro ⟨body, _, ⟨u, read, length⟩, final, _, ⟨⟨items, itemsRead, fold⟩, rfl⟩, rfl, rfl⟩
    exact ⟨u, body, items, final, read, length, itemsRead, fold, rfl⟩
  · rintro ⟨u, body, items, final, read, length, itemsRead, fold, rfl⟩
    exact ⟨body, _, ⟨u, read, length⟩, final, _, ⟨⟨items, itemsRead, fold⟩, rfl⟩, rfl, rfl⟩

def body (self : Properties fields) : List UInt8 :=
  fields.flatMap fun kind => (self.writeSlot kind).emitted

theorem slotEq_of_carries {self : Properties fields} (valid : self.Valid) {items : List Property}
    (read : Parser.Items Property.parse self.body items) {kind : PropertyKind}
    (carries : self.Carries kind items) :
    slotEq kind (items.findSome? (Property.of kind)) (self.slot kind) = .ok true := by
  by_cases user : kind = .userProperties
  · subst user
    have count := carries.count rfl
    rw [← List.head?_filterMap]
    cases held : self.slot .userProperties with
    | none =>
      have none : items.filterMap (Property.of .userProperties) = [] := by
        simpa [userPairs, held] using count
      rw [none]
      rfl
    | some prop =>
      obtain ⟨ups, lists⟩ := valid prop held
      have pairs : self.userPairs = ups := by simp [userPairs, held, lists.pairs_eq]
      cases found : (items.filterMap (Property.of .userProperties)).head? with
      | none =>
        obtain ⟨first, _, _, -, -, rfl⟩ := lists
        rw [List.head?_eq_none_iff] at found
        simp [found, pairs] at count
      | some first =>
        rw [List.head?_filterMap] at found
        have listed := UserProperties.lists_of_items read found
        rw [carries.pairs rfl, pairs] at listed
        exact listed.eq lists
  · have same : items.findSome? (Property.of kind) = self.slot kind := by
      rw [← List.head?_filterMap, carries.plain user]
      cases self.slot kind <;> rfl
    rw [same]
    exact slotEq_plain user _

variable [Build]

theorem slotSize_announces {self : Properties fields} (valid : self.Valid) {kind : PropertyKind}
    {bytes : List UInt8} (emits : (self.writeSlot kind).Emits bytes ()) :
    (self.slotSize kind).Announces bytes.length := by
  unfold writeSlot at emits
  unfold slotSize
  cases held : self.slot kind with
  | none =>
    rw [held] at emits
    obtain ⟨rfl, -⟩ := Emit.pure_emits.mp emits
    exact Size.announces_literal 0
  | some value =>
    rw [held] at emits
    simp only [Emit.seq_emits, PropertyKind.identifier_emits] at emits
    obtain ⟨_, written, rfl, emits, rfl⟩ := emits
    rw [List.length_append]
    refine kind.identifier_size.add ?_
    by_cases user : kind = .userProperties
    · subst user
      obtain ⟨ups, lists⟩ := valid value held
      exact lists.size emits
    · exact (Shape.exact (mt PropertyKind.shape_eq_userProperties.mp user)).size emits

theorem foldSizes_announces {self : Properties fields} (valid : self.Valid)
    {kinds : List PropertyKind}
    (emits : ∀ kind ∈ kinds, (self.writeSlot kind).Emits (self.writeSlot kind).emitted ())
    {total : Size} {n : Nat} (sum : total.Announces n) :
    (kinds.foldl (fun total kind => total + self.slotSize kind) total).Announces
      (n + (kinds.flatMap fun kind => (self.writeSlot kind).emitted).length) := by
  induction kinds generalizing total n with
  | nil => simpa using sum
  | cons kind more ih =>
    rw [List.forall_mem_cons] at emits
    have step := ih emits.2 (sum.add (slotSize_announces valid emits.1))
    exact step.congr (by simp [Nat.add_assoc])

theorem propSize_announces {self : Properties fields} (valid : self.Valid)
    (emits : ∀ kind ∈ fields, (self.writeSlot kind).Emits (self.writeSlot kind).emitted ()) :
    self.propSize.Announces self.body.length :=
  (foldSizes_announces valid emits (Size.announces_literal 0)).congr (Nat.zero_add _)

theorem write_emits {self : Properties fields} (valid : self.Valid)
    (short : self.body.length ≤ 268435455) {bytes : List UInt8} :
    self.write.Emits bytes () ↔ ∃ size,
      (writeVariableU32 (.ofNat self.body.length)).Emits size () ∧ bytes = size ++ self.body ∧
      ∀ kind ∈ fields, (self.writeSlot kind).Emits (self.writeSlot kind).emitted () := by
  simp only [write, writeSized_emits, Emit.seq_emits, Emit.each_emits]
  constructor
  · rintro ⟨n, sized, size, _, sizeEmits, ⟨emits, rfl⟩, rfl⟩
    obtain rfl := Except.ok.inj (sized.symm.trans (propSize_announces valid emits short))
    exact ⟨size, sizeEmits, rfl, emits⟩
  · rintro ⟨size, sizeEmits, rfl, emits⟩
    exact ⟨_, propSize_announces valid emits short, size, _, sizeEmits, ⟨emits, rfl⟩, rfl⟩

theorem body_le {self : Properties fields} {bytes : List UInt8}
    (emits : self.write.Emits bytes ()) : self.body.length ≤ bytes.length := by
  simp only [write, writeSized_emits, Emit.seq_emits, Emit.each_emits] at emits
  obtain ⟨_, -, size, _, -, ⟨-, rfl⟩, rfl⟩ := emits
  simp [body]

theorem items_of_body {self : Properties fields} (distinct : fields.Nodup) (valid : self.Valid)
    (emits : ∀ kind ∈ fields, (self.writeSlot kind).Emits (self.writeSlot kind).emitted ()) :
    ∃ items final, Parser.Items (Property.parseAmong fields) self.body items ∧
      items.foldlM Slots.use (fun _ => none) = .ok final ∧
      (takeInner fields final).eq self = .ok true := by
  obtain ⟨items, read, kinds, carries⟩ := items_of_slots valid (fun _ => id) distinct emits
  have once : ∀ kind, kind ≠ .userProperties →
      (Option.toList (none : Option kind.Value)).length +
        (items.filterMap (Property.of kind)).length ≤ 1 := by
    intro kind plain
    by_cases member : kind ∈ fields
    · rw [(carries kind member).plain plain]
      cases self.slot kind <;> simp
    · have none : ∀ property ∈ items, property.kind ≠ kind := by
        rintro property found rfl
        exact member (kinds property found)
      rw [Property.filterMap_of_other none]
      simp
  obtain ⟨final, fold⟩ := Slots.fold_ok.mpr once
  refine ⟨items, final, read, fold, eqAmong_eq_true.mpr fun kind member => ?_⟩
  rw [slot_takeInner member, Slots.fold_slot fold kind, Option.none_or]
  exact slotEq_of_carries valid (read.mono fun _ _ _ => Property.parse_of_parseAmong)
    (carries kind member)

theorem reads {self : Properties fields} (distinct : fields.Nodup) (valid : self.Valid)
    {bytes : List UInt8} (emits : self.write.Emits bytes ()) (short : bytes.length ≤ 268435455) :
    ∃ p, (parse fields).Reads bytes p ∧ p.eq self = .ok true := by
  have shorter := body_le emits
  obtain ⟨size, sizeEmits, rfl, slots⟩ := (write_emits valid (by omega)).mp emits
  obtain ⟨items, final, read, fold, same⟩ := items_of_body distinct valid slots
  have length : (UInt32.ofNat self.body.length).toNat = self.body.length :=
    UInt32.toNat_ofNat_of_lt (by rw [UInt32.size]; omega)
  refine ⟨takeInner fields final, fun rest => ?_, same⟩
  rw [List.append_assoc]
  exact parse_eq_ok.mpr
    ⟨_, self.body, items, final, parseVariableU32_exact.reads sizeEmits _, length, read, fold, rfl⟩

theorem size {self : Properties fields} (valid : self.Valid) {bytes : List UInt8}
    (emits : self.write.Emits bytes ()) : self.binarySize.Announces bytes.length := by
  intro short
  have shorter := body_le emits
  obtain ⟨size, sizeEmits, rfl, slots⟩ := (write_emits valid (by omega)).mp emits
  have sized := (parseVariableU32_exact.size sizeEmits).add
    (show (Size.value (.ofNat self.body.length)).Announces self.body.length from fun _ => rfl)
  rw [← List.length_append] at sized
  rw [binarySize, propSize_announces valid slots (by omega)]
  exact sized short

end Properties

/-! ### What was read can be written -/

def Property.entry (property : Property) : List UInt8 :=
  property.kind.code :: match property.pair with
    | some up => up.bytes
    | none => (property.kind.shape.write property.value).emitted

theorem Property.entry_plain {property : Property} (plain : property.kind ≠ .userProperties) :
    property.entry =
      property.kind.code :: (property.kind.shape.write property.value).emitted := by
  rw [entry, pair_eq_none plain]

theorem Property.parse_rewrites [Build] {input rest : List UInt8} {property : Property}
    (run : Property.parse input = .ok (property, rest)) :
    property.entry.length + rest.length ≤ input.length ∧
      (property.kind ≠ .userProperties → (property.kind.shape.write property.value).Emits
        (property.kind.shape.write property.value).emitted ()) := by
  obtain ⟨-, middle, idRead, read⟩ := Property.parseAmong_eq_ok.mp run
  have shorter := parseVariableU32_shrinks _ _ _ idRead
  by_cases user : property.kind = .userProperties
  · obtain ⟨_, prop⟩ := property
    subst user
    obtain ⟨up, parsed, pair⟩ := Property.pair_of_parse run
    have slice : prop.slice = middle := (UserProperties.parse_eq_ok.mp read).1
    have split := congrArg List.length (UserProperty.parse_eq_ok.mp parsed).2
    rw [slice] at split
    refine ⟨?_, fun plain => absurd rfl plain⟩
    simp only [entry, pair, List.length_cons, List.length_append] at split ⊢
    omega
  · have exact := Shape.exact (mt PropertyKind.shape_eq_userProperties.mp user)
    obtain ⟨bytes, emits, fewer⟩ := exact.rewrites read
    obtain rfl := (Emit.emits_iff.mp emits).1
    refine ⟨?_, fun _ => emits⟩
    rw [entry_plain user, List.length_cons]
    omega

theorem Property.items_rewrite [Build] {input : List UInt8} {items : List Property}
    (read : Parser.Items Property.parse input items) :
    (items.flatMap Property.entry).length ≤ input.length ∧
      ∀ property ∈ items, property.kind ≠ .userProperties →
        (property.kind.shape.write property.value).Emits
          (property.kind.shape.write property.value).emitted () := by
  induction read with
  | nil => simp
  | @cons input rest property items _ head _ ih =>
    obtain ⟨fewer, emits⟩ := Property.parse_rewrites head
    rw [List.flatMap_cons, List.length_append, List.forall_mem_cons]
    exact ⟨by omega, emits, ih.2⟩

theorem Property.filter_kind (items : List Property) (kind : PropertyKind) :
    items.filter (fun property => property.kind = kind) =
      (items.filterMap (Property.of kind)).map (Property.mk kind) := by
  induction items with
  | nil => rfl
  | cons property more ih =>
    by_cases same : property.kind = kind
    · obtain ⟨found, value⟩ := property
      subst same
      simp [ih]
    · rw [List.filter_cons_of_neg (by simpa using same),
        List.filterMap_cons_none (Property.of_ne same), ih]

theorem Property.user_entries {input : List UInt8} {items : List Property}
    (read : Parser.Items Property.parse input items) :
    (items.filter fun property => property.kind = .userProperties).flatMap Property.entry =
      (items.filterMap Property.pair).flatMap UserProperty.entry := by
  induction read with
  | nil => rfl
  | @cons input rest property items _ head _ ih =>
    by_cases user : property.kind = .userProperties
    · obtain ⟨_, prop⟩ := property
      subst user
      obtain ⟨up, -, pair⟩ := Property.pair_of_parse head
      rw [List.filter_cons_of_pos (by simp), List.filterMap_cons_some pair, List.flatMap_cons,
        List.flatMap_cons, ih]
      simp [entry, pair, UserProperty.entry]
    · rw [List.filter_cons_of_neg (by simpa using user),
        List.filterMap_cons_none (Property.pair_eq_none user), ih]

/-- Sorted by kind, the items take no more bytes than before. -/
theorem Property.length_sorted_le {kinds : List PropertyKind} (distinct : kinds.Nodup)
    (items : List Property) :
    (kinds.flatMap fun kind =>
        (items.filter fun property => property.kind = kind).flatMap Property.entry).length ≤
      (items.flatMap Property.entry).length := by
  induction kinds generalizing items with
  | nil => simp
  | cons kind more ih =>
    obtain ⟨fresh, distinct⟩ := List.nodup_cons.mp distinct
    have split := ((List.filter_append_perm (fun property => decide (property.kind = kind))
      items).flatMap_right Property.entry).length_eq
    have others : (more.flatMap fun other =>
          (items.filter fun property => property.kind = other).flatMap Property.entry) =
        more.flatMap fun other =>
          ((items.filter fun property => !decide (property.kind = kind)).filter
          fun property => property.kind = other).flatMap Property.entry := by
      refine List.flatMap_congr fun other member => ?_
      rw [List.filter_filter]
      congr 1
      refine List.filter_congr fun property _ => ?_
      by_cases same : property.kind = other
      · have differs : other ≠ kind := fun h => fresh (h ▸ member)
        simp [same, differs]
      · simp [same]
    have rest := ih distinct (items.filter fun property => !decide (property.kind = kind))
    rw [← others] at rest
    rw [List.flatMap_append, List.length_append] at split
    rw [List.flatMap_cons, List.length_append]
    omega

namespace Properties

variable {fields : List PropertyKind} [Build]

theorem writeSlot_emits {body : List UInt8} {items : List Property} {final : Slots}
    (read : Parser.Items Property.parse body items)
    (fold : items.foldlM Slots.use (fun _ => none) = .ok final) {kind : PropertyKind}
    (member : kind ∈ fields) :
    ((takeInner fields final).writeSlot kind).Emits
      ((items.filter fun property => property.kind = kind).flatMap Property.entry) () := by
  have slot := Slots.fold_slot fold kind
  rw [Option.none_or] at slot
  rw [writeSlot, slot_takeInner member, slot]
  by_cases user : kind = .userProperties
  · subst user
    rw [Property.user_entries read]
    cases found : items.findSome? (Property.of .userProperties) with
    | none =>
      rw [← List.head?_filterMap, List.head?_eq_none_iff] at found
      rw [Property.filterMap_pair, found]
      exact Emit.pure_emits.mpr ⟨rfl, rfl⟩
    | some prop =>
      have lists := UserProperties.lists_of_items read found
      have first : ∃ bytes, PropertyKind.userProperties.code :: bytes =
          (items.filterMap Property.pair).flatMap UserProperty.entry := by
        obtain ⟨up, _, _, -, -, same⟩ := lists
        rw [same]
        exact ⟨_, rfl⟩
      obtain ⟨bytes, shape⟩ := first
      rw [← shape]
      exact Emit.seq_emits.mpr ⟨_, bytes, PropertyKind.identifier_emits.mpr rfl,
        lists.write_emits.mpr shape, rfl⟩
  · have once := Slots.fold_ok.mp ⟨final, fold⟩ kind user
    rw [Property.filter_kind, ← List.head?_filterMap]
    have written := (Property.items_rewrite read).2
    match held : items.filterMap (Property.of kind), once with
    | [], _ => exact Emit.pure_emits.mpr ⟨rfl, rfl⟩
    | [value], _ =>
      have member : (⟨kind, value⟩ : Property) ∈ items := by
        have kept : (⟨kind, value⟩ : Property) ∈
              items.filter fun property => property.kind = kind := by
          rw [Property.filter_kind, held]
          simp
        exact List.mem_of_mem_filter kept
      have entry : ([value].map (Property.mk kind)).flatMap Property.entry =
          [kind.code] ++ (kind.shape.write value).emitted := by
        have plain : Property.entry ⟨kind, value⟩ = kind.code :: (kind.shape.write value).emitted :=
          Property.entry_plain user
        simp [plain]
      rw [entry]
      exact Emit.seq_emits.mpr ⟨_, _, PropertyKind.identifier_emits.mpr rfl,
        written _ member user, rfl⟩
    | _ :: _ :: _, once => simp at once

theorem rewrites {input rest : List UInt8} {p : Properties fields} (distinct : fields.Nodup)
    (run : parse fields input = .ok (p, rest)) :
    p.Valid ∧ ∃ bytes, p.write.Emits bytes () ∧ bytes.length + rest.length ≤ input.length := by
  obtain ⟨u, body, items, final, sizeRead, length, read, fold, rfl⟩ := parse_eq_ok.mp run
  have parsed : Parser.Items Property.parse body items :=
    read.mono fun _ _ _ => Property.parse_of_parseAmong
  have valid : (takeInner fields final).Valid := by
    intro prop held
    by_cases member : .userProperties ∈ fields
    · rw [slot_takeInner member, Slots.fold_slot fold, Option.none_or] at held
      exact ⟨_, UserProperties.lists_of_items parsed held⟩
    · simp [(takeInner fields final).absent _ member] at held
  have emits (kind : PropertyKind) (member : kind ∈ fields) := writeSlot_emits parsed fold member
  have written : (takeInner fields final).body =
      fields.flatMap fun kind =>
        (items.filter fun property => property.kind = kind).flatMap Property.entry :=
    List.flatMap_congr fun kind member => (Emit.emits_iff.mp (emits kind member)).1
  have shorter := Property.length_sorted_le distinct items
  rw [← written] at shorter
  have shortest := (Property.items_rewrite parsed).1
  have bound := parseVariableU32_le sizeRead
  obtain ⟨size, sizeEmits, fewer⟩ := parseVariableU32_rewrites sizeRead
    (show (takeInner fields final).body.length ≤ u.toNat by omega)
  refine ⟨valid, _, (write_emits valid (by omega)).mpr ⟨size, sizeEmits, rfl, ?_⟩, ?_⟩
  · intro kind member
    exact (Emit.emits_iff.mp (emits kind member)).1 ▸ emits kind member
  · simp only [List.length_append] at fewer ⊢
    omega

theorem faithful (distinct : fields.Nodup) :
    Faithful Valid eq (parse fields) binarySize write where
  isLocal := parse_local fields
  reads valid emits short := reads distinct valid emits short
  size valid emits := size valid emits
  rewrites run := rewrites distinct run

/-! ### The empty section -/

omit [Build] in
theorem eqAmong_none (slots : Slots) (kinds : List PropertyKind) :
    eqAmong slots (fun _ => none) kinds = .ok (kinds.all fun kind => (slots kind).isNone) := by
  induction kinds with
  | nil => rfl
  | cons kind more ih =>
    rw [eqAmong, List.all_cons]
    cases held : slots kind with
    | none =>
      simp only [slotEq, Option.isNone_none, Bool.true_and]
      exact ih
    | some value => simp [slotEq]

omit [Build] in
theorem eq_new (self : Properties fields) :
    self.eq (new fields) = .ok (fields.all fun kind => (self.slot kind).isNone) :=
  eqAmong_none self.slot fields

omit [Build] in
theorem eq_new_true {self : Properties fields} :
    self.eq (new fields) = .ok true ↔ self = new fields := by
  rw [eq_new, Except.ok.injEq, List.all_eq_true]
  constructor
  · intro free
    obtain ⟨slot, absent⟩ := self
    have none : slot = fun _ => none := by
      funext kind
      by_cases member : kind ∈ fields
      · exact Option.isNone_iff_eq_none.mp (free kind member)
      · exact absent kind member
    subst none
    rfl
  · rintro rfl kind -
    rfl

omit [Build] in
theorem new_valid (fields : List PropertyKind) : (new fields).Valid := by
  intro prop held
  simp [new] at held

theorem new_write_emits (fields : List PropertyKind) : (new fields).write.Emits [0] () := by
  have slots (kind : PropertyKind) : (new fields).writeSlot kind = pure () := rfl
  have body : (new fields).body = [] := by
    simp only [Properties.body, slots, List.flatMap_eq_nil_iff]
    exact fun _ _ => rfl
  refine (write_emits (new_valid fields) (by simp [body])).mpr ⟨[0], ?_, by simp [body], ?_⟩
  · rw [body]
    exact writeByte_emits.mpr rfl
  · intro kind _
    rw [slots]
    exact Emit.pure_emits.mpr ⟨rfl, rfl⟩

end Properties

end V5
