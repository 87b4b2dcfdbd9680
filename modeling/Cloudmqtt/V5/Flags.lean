import Cloudmqtt.V5.Packets.Connect
import Cloudmqtt.V5.Packets.Session

/-! The flags byte of a CONNECT and of a CONNACK, as it is read and as it is written. -/

set_option autoImplicit false

namespace V5

open Base Rust

/-! ### CONNECT -/

namespace MConnect

/-- The connect flags follow the six bytes of the protocol name and its level. -/
def flagsByte? (body : List UInt8) : Option UInt8 := body[7]?

/-- The flags in front of a packet are the ones it is written with, and say nothing
of a will that is not there. -/
structure CanonicalFlags [Build] (input : List UInt8) (c : MConnect) : Prop where
  written : ∃ bytes, c.write.Emits bytes () ∧ flagsByte? bytes = flagsByte? input
  reserved : ∀ byte ∈ flagsByte? input, byte &&& 0b1 = 0
  will : ∀ byte ∈ flagsByte? input, byte &&& 0b100 = 0 → byte &&& 0b11_1000 = 0

end MConnect

namespace ConnectFlags

/-- The byte of these flags once the will is forgotten that they do not announce. -/
def written (self : ConnectFlags) : UInt8 :=
  (0 : UInt8) ||| (self.cleanStart.toUInt8 <<< 1) |||
    (if self.will then
      ((1 : UInt8) <<< 2) ||| (self.willQos.toU8 <<< 3) ||| (self.willRetain.toUInt8 <<< 5)
    else 0) ||| (self.password.toUInt8 <<< 6) ||| (self.userName.toUInt8 <<< 7)

theorem written_eq_iff {byte : UInt8} {flags : ConnectFlags} (found : tryFrom byte = some flags) :
    byte &&& 0b1 = 0 ∧
      (flags.written = byte ↔ byte &&& 0b100 ≠ 0 ∨ byte &&& 0b11_1000 = 0) := by
  have all : ∀ b : Fin 256, (tryFrom (.ofFin b)).all fun flags =>
      decide (UInt8.ofFin b &&& 0b1 = 0 ∧ (flags.written = .ofFin b ↔
        UInt8.ofFin b &&& 0b100 ≠ 0 ∨ UInt8.ofFin b &&& 0b11_1000 = 0)) := by
    decide +kernel
  have this := all byte.toFin
  rw [UInt8.ofFin_toFin, found] at this
  exact of_decide_eq_true this

end ConnectFlags

namespace MConnect

theorem Parts.flags_eq [Build] {input rest tail : List UInt8} {c : MConnect} {flags : ConnectFlags}
    (parts : Parts flags input rest c tail) : c.flags = flags.written := by
  obtain ⟨_, -, _, -, _, willRead, _, usernameRead, passwordRead⟩ := parts.payload
  obtain ⟨⟨hasWill, held⟩, -⟩ := ((Will.faithful _ _).option _).rewrites willRead
  obtain ⟨⟨hasName, -⟩, -⟩ := (parseString_exact.faithful.option _).rewrites usernameRead
  obtain ⟨⟨hasPassword, -⟩, -⟩ := (parseBinaryData_exact.faithful.option _).rewrites passwordRead
  have sameWill : willFlags c.will = if flags.will then
      ((1 : UInt8) <<< 2) ||| (flags.willQos.toU8 <<< 3) ||| (flags.willRetain.toUInt8 <<< 5)
      else 0 := by
    cases present : c.will with
    | none =>
      rw [present, Option.isSome_none] at hasWill
      rw [← hasWill]
      rfl
    | some will =>
      rw [present, Option.isSome_some] at hasWill
      obtain ⟨⟨sameQos, sameRetain⟩, -⟩ := held will present
      rw [← hasWill, ← sameQos, ← sameRetain]
      rfl
  rw [MConnect.flags, ConnectFlags.written, parts.cleanStart, sameWill, hasName, hasPassword]

/-- The flags of an accepted CONNECT are canonical, unless they describe a will without
announcing it. -/
theorem canonicalFlags_iff [Build] {input rest : List UInt8} {c : MConnect}
    (run : parse input = .ok (c, rest)) :
    CanonicalFlags input c ↔
      ∃ byte, flagsByte? input = some byte ∧ (byte &&& 0b100 ≠ 0 ∨ byte &&& 0b11_1000 = 0) := by
  obtain ⟨byte, flags, tail, found, split, behind⟩ := parse_eq_ok run
  obtain ⟨_, parts⟩ := parseBehind_eq_ok behind
  obtain ⟨reserved, sameByte⟩ := ConnectFlags.written_eq_iff found
  have stands : flagsByte? input = some byte := by
    rw [split]
    exact header_flags _ _
  rw [stands]
  constructor
  · intro canonical
    obtain ⟨bytes, emits, same⟩ := canonical.written
    obtain ⟨p, client, w, n, s, -, -, -, -, -, rfl⟩ := write_emits.mp emits
    rw [flagsByte?, header_flags, stands, Option.some.injEq, parts.flags_eq] at same
    exact ⟨byte, rfl, sameByte.mp same⟩
  · rintro ⟨_, ⟨⟩, announced⟩
    obtain ⟨-, bytes, emits, -⟩ := rewrites run
    constructor
    · refine ⟨bytes, emits, ?_⟩
      obtain ⟨p, client, w, n, s, -, -, -, -, -, rfl⟩ := write_emits.mp emits
      rw [flagsByte?, header_flags, stands, parts.flags_eq, sameByte.mpr announced]
    · rw [stands]
      rintro _ ⟨⟩
      exact reserved
    · rw [stands]
      rintro _ ⟨⟩ absent
      exact announced.resolve_left (not_not_intro absent)

attribute [local instance] development

theorem canonicalFlags_iff_clean :
    ∃ c, parse [0, 4, 77, 81, 84, 84, 5, 0x02, 0, 60, 0, 0, 0] = .ok (c, []) ∧
      (CanonicalFlags [0, 4, 77, 81, 84, 84, 5, 0x02, 0, 60, 0, 0, 0] c ↔
        ∃ byte, flagsByte? [0, 4, 77, 81, 84, 84, 5, 0x02, 0, 60, 0, 0, 0] = some byte ∧
          (byte &&& 0b100 ≠ 0 ∨ byte &&& 0b11_1000 = 0)) :=
  ⟨_, rfl, canonicalFlags_iff rfl⟩

/-- A will QoS of 1 without a will is accepted, and forgotten. -/
theorem forgottenFlags :
    ∃ c, parse [0, 4, 77, 81, 84, 84, 5, 0x08, 0, 60, 0, 0, 0] = .ok (c, []) ∧
      ¬ CanonicalFlags [0, 4, 77, 81, 84, 84, 5, 0x08, 0, 60, 0, 0, 0] c := by
  refine ⟨_, rfl, fun canonical => ?_⟩
  have unset : (0x08 : UInt8) &&& 0b11_1000 = 0 := canonical.will 0x08 rfl rfl
  cases unset

end MConnect

/-! ### CONNACK -/

namespace MConnack

/-- Session Present is read from the lowest bit of the first byte, and no other bit may
be set in it. -/
structure ReadsSessionPresent (f : UInt8) (behind : List UInt8)
    (reason : CombinedReasonCode connackReasonCodes) (properties : Properties connackFields) :
    Prop where
  accepted : (∃ c rest, parse (f :: behind) = .ok (c, rest)) ↔ f = 0 ∨ f = 1
  value : f = 0 ∨ f = 1 → parse (f :: behind) = .ok (⟨decide (f = 1), reason, properties⟩, [])

/-- Session Present is written as the lowest bit of the first byte. -/
def WritesSessionPresent [Build] (c : MConnack) : Prop :=
  c.write.emitted.head? = some (if c.sessionPresent then 1 else 0)

theorem parse_cons_eq_ok {f : UInt8} {behind tail rest : List UInt8}
    {reason : CombinedReasonCode connackReasonCodes} {properties : Properties connackFields}
    (reasonRead : CombinedReasonCode.parse connackReasonCodes behind = .ok (reason, tail))
    (read : Properties.parse connackFields tail = .ok (properties, [])) {c : MConnack} :
    parse (f :: behind) = .ok (c, rest) ↔
      f = flags c.sessionPresent ∧ c = ⟨c.sessionPresent, reason, properties⟩ ∧ rest = [] := by
  constructor
  · intro run
    obtain ⟨present, middle, _, _, _, flagsRead, reasonAgain, again, rfl⟩ :=
      Parser.triple_eq_ok.mp run
    obtain ⟨byte, byteRead, found⟩ := Parser.tryMap_eq_ok.mp flagsRead
    obtain ⟨rfl, rfl⟩ := List.cons.inj (u8_eq_ok.mp byteRead)
    obtain ⟨rfl, rfl⟩ := Prod.mk.inj (Except.ok.inj (reasonRead.symm.trans reasonAgain))
    obtain ⟨rfl, rfl⟩ := Prod.mk.inj (Except.ok.inj (read.symm.trans again))
    exact ⟨tryFlags_eq_some.mp found, rfl, rfl⟩
  · rintro ⟨byte, same, rfl⟩
    rw [same]
    apply Parser.triple_eq_ok.mpr
    refine ⟨c.sessionPresent, behind, reason, tail, properties, ?_, reasonRead, read, rfl⟩
    exact Parser.tryMap_eq_ok.mpr ⟨f, u8_eq_ok.mpr rfl, tryFlags_eq_some.mpr byte⟩

theorem readsSessionPresent_iff {f : UInt8} {behind tail : List UInt8}
    {reason : CombinedReasonCode connackReasonCodes} {properties : Properties connackFields}
    (reasonRead : CombinedReasonCode.parse connackReasonCodes behind = .ok (reason, tail))
    (read : Properties.parse connackFields tail = .ok (properties, [])) :
    ReadsSessionPresent f behind reason properties ↔ f ≠ 1 ∧ f ≠ 0x80 := by
  constructor
  · intro layout
    constructor
    · rintro rfl
      have run := layout.value (.inr rfl)
      have byte : (1 : UInt8) = flags true := ((parse_cons_eq_ok reasonRead read).mp run).1
      exact absurd byte (by decide)
    · rintro rfl
      have run : parse (0x80 :: behind) = .ok (⟨true, reason, properties⟩, []) :=
        (parse_cons_eq_ok reasonRead read).mpr ⟨rfl, rfl, rfl⟩
      exact absurd (layout.accepted.mp ⟨_, _, run⟩) (by decide)
  · rintro ⟨notLowest, notHighest⟩
    have value : f = 0 ∨ f = 1 →
        parse (f :: behind) = .ok (⟨decide (f = 1), reason, properties⟩, []) := by
      intro flag
      obtain rfl := flag.resolve_right notLowest
      exact (parse_cons_eq_ok reasonRead read).mpr ⟨rfl, rfl, rfl⟩
    constructor
    · constructor
      · rintro ⟨c, rest, run⟩
        have byte := ((parse_cons_eq_ok reasonRead read).mp run).1
        cases present : c.sessionPresent with
        | false =>
          rw [present] at byte
          exact .inl byte
        | true =>
          rw [present] at byte
          exact absurd byte notHighest
      · intro flag
        exact ⟨_, _, value flag⟩
    · exact value

theorem writesSessionPresent_iff [Build] (c : MConnack) :
    WritesSessionPresent c ↔ c.sessionPresent = false := by
  have first : c.write.emitted.head? = some (flags c.sessionPresent) := rfl
  rw [WritesSessionPresent, first]
  cases c.sessionPresent <;> decide

/-- Both sides put Session Present into the highest bit, so they agree with the wire
format only where it is clear. -/
theorem sessionPresent_iff [Build] {f r : UInt8} {s : List UInt8}
    {reason : CombinedReasonCode connackReasonCodes} {properties : Properties connackFields}
    (reasonRead : CombinedReasonCode.parse connackReasonCodes [r] = .ok (reason, []))
    (read : Properties.parse connackFields s = .ok (properties, [])) (c : MConnack) :
    (ReadsSessionPresent f (r :: s) reason properties ↔ f ≠ 1 ∧ f ≠ 0x80) ∧
      (WritesSessionPresent c ↔ c.sessionPresent = false) := by
  obtain ⟨front, split, reads⟩ := (CombinedReasonCode.exact _).isLocal _ _ _ reasonRead
  rw [List.append_nil] at split
  constructor
  · apply readsSessionPresent_iff _ read
    rw [← List.singleton_append, split]
    exact reads s
  · exact writesSessionPresent_iff c

attribute [local instance] development

theorem sessionPresent_iff_resumed :
    ∃ c, parse [0x80, 0, 0] = .ok (c, []) ∧ c.sessionPresent = true ∧
      (ReadsSessionPresent 1 [0, 0] c.reasonCode c.properties ↔
        (1 : UInt8) ≠ 1 ∧ (1 : UInt8) ≠ 0x80) ∧
      (WritesSessionPresent c ↔ c.sessionPresent = false) :=
  ⟨_, rfl, rfl, sessionPresent_iff (s := [0]) rfl rfl _⟩

/-- A server that resumes a session is refused, and a resumed session is written as
reserved bits are. -/
theorem sessionPresent_highest :
    ∃ c, parse [0x80, 0, 0] = .ok (c, []) ∧ c.sessionPresent = true ∧
      c.write.emitted.head? = some 0x80 ∧ ¬ WritesSessionPresent c ∧
      ¬ ReadsSessionPresent 1 [0, 0] c.reasonCode c.properties := by
  refine ⟨_, rfl, rfl, rfl, fun written => ?_, fun read => ?_⟩
  · cases written
  · cases read.value (.inr rfl)

end MConnack

end V5
