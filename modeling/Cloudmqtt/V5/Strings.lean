import Cloudmqtt.V5.Integers

/-! Strings, binary data, booleans and qualities of service of the MQTT 5 format. -/

set_option autoImplicit false

namespace V5

open Base Rust

-- The writers check a length before they write anything of the field; the size
-- functions below do not check it at all.
def lengthU16 (n : Nat) : Option UInt16 := if n ≤ 65535 then some (.ofNat n) else none

def parseLength : MParser Nat := UInt16.toNat <$> parseU16

def parseBinaryData : MParser (List UInt8) := Parser.lengthTake parseLength .backtrack

def writeBinaryData (slice : List UInt8) : WResult :=
  match lengthU16 slice.length with
  | none => Emit.fault (.error .invariant)
  | some sliceLen => do
    writeU16 sliceLen
    writeSlice slice

def binaryDataBinarySize (data : List UInt8) : Size := castSize (2 + data.length)

def parseString : MParser String := Parser.tryMap parseBinaryData fromUtf8 .backtrack

def stringBinarySize (s : String) : Size := castSize (2 + len s)

def writeString (s : String) : WResult :=
  match lengthU16 (len s) with
  | none => Emit.fault (.error .invariant)
  | some sLen => do
    writeU16 sLen
    writeSlice (asBytes s)

def stringPairBinarySize [Build] (key value : String) : Size :=
  stringBinarySize key + stringBinarySize value

def parseStringPair : MParser (String × String) := do
  let first ← parseString
  let second ← parseString
  pure (first, second)

def parseBool : MParser Bool :=
  Parser.tryMap u8 (fun byte => match byte with
    | 0 => some false
    | 1 => some true
    | _ => none) .backtrack

def writeBool (b : Bool) : WResult := writeByte b.toUInt8

inductive QualityOfService where
  | atMostOnce
  | atLeastOnce
  | exactlyOnce
  deriving DecidableEq, Repr

def QualityOfService.toU8 : QualityOfService → UInt8
  | .atMostOnce => 0
  | .atLeastOnce => 1
  | .exactlyOnce => 2

def QualityOfService.tryFrom : UInt8 → Option QualityOfService
  | 0 => some .atMostOnce
  | 1 => some .atLeastOnce
  | 2 => some .exactlyOnce
  | _ => none

inductive MaximumQualityOfService where
  | atMostOnce
  | atLeastOnce
  deriving DecidableEq, Repr

def MaximumQualityOfService.toU8 : MaximumQualityOfService → UInt8
  | .atMostOnce => 0
  | .atLeastOnce => 1

def MaximumQualityOfService.tryFrom : UInt8 → Option MaximumQualityOfService
  | 0 => some .atMostOnce
  | 1 => some .atLeastOnce
  | _ => none

def parseMaximumQualityOfService : MParser MaximumQualityOfService :=
  Parser.tryMap u8 MaximumQualityOfService.tryFrom .backtrack

def writeMaximumQualityOfService (qos : MaximumQualityOfService) : WResult := writeByte qos.toU8

/-! ### Laws -/

def prefixed (slice : List UInt8) : List UInt8 := u16Bytes (.ofNat slice.length) ++ slice

theorem length_prefixed (slice : List UInt8) : (prefixed slice).length = 2 + slice.length := by
  simp [prefixed, u16Bytes]
  omega

theorem lengthTake_eq_ok {count : MParser Nat} {input rest data : List UInt8} :
    Parser.lengthTake count ErrMode.backtrack input = .ok (data, rest) ↔
      count input = .ok (data.length, data ++ rest) := by
  simp only [Parser.lengthTake, Parser.bind_eq_ok, Parser.take_eq_ok]
  constructor
  · rintro ⟨n, middle, read, rfl, rfl⟩
    exact read
  · intro read
    exact ⟨data.length, data ++ rest, read, rfl, rfl⟩

theorem parseLength_eq_ok {input rest : List UInt8} {n : Nat} :
    parseLength input = .ok (n, rest) ↔ n ≤ 65535 ∧ input = u16Bytes (.ofNat n) ++ rest := by
  simp only [parseLength, Parser.map_eq_ok, parseU16_eq_ok]
  constructor
  · rintro ⟨u, rfl, rfl⟩
    have bound := u.toNat_lt
    exact ⟨by omega, by simp⟩
  · rintro ⟨bound, rfl⟩
    refine ⟨.ofNat n, rfl, ?_⟩
    rw [UInt16.toNat_ofNat']
    omega

theorem parseBinaryData_eq_ok {input rest data : List UInt8} :
    parseBinaryData input = .ok (data, rest) ↔
      data.length ≤ 65535 ∧ input = prefixed data ++ rest := by
  simp only [parseBinaryData, lengthTake_eq_ok, parseLength_eq_ok, prefixed, List.append_assoc]

theorem writeBinaryData_emits {slice bytes : List UInt8} {u : Unit} :
    (writeBinaryData slice).Emits bytes u ↔ slice.length ≤ 65535 ∧ bytes = prefixed slice := by
  unfold writeBinaryData lengthU16
  by_cases short : slice.length ≤ 65535
  · simp [short, Emit.seq_emits, writeU16_emits, writeSlice_emits, prefixed]
  · simp [short]

theorem writeBinaryData_ends (slice : List UInt8) :
    (writeBinaryData slice).Ends (.error .invariant) (¬ slice.length ≤ 65535) where
  fails long := by
    rw [writeBinaryData, lengthU16, if_neg long]
    rfl
  well short := (Emit.emits_iff.mp (writeBinaryData_emits.mpr ⟨not_not.mp short, rfl⟩)).2

theorem parseLength_shrinks : parseLength.Shrinks := parseU16_exact.shrinks.map _

theorem parseBinaryData_shrinks : parseBinaryData.Shrinks :=
  parseLength_shrinks.bind fun _ => (Parser.Local.take _ _).suffixes

theorem parseBinaryData_exact : Exact parseBinaryData binaryDataBinarySize writeBinaryData :=
  .of_canonical parseBinaryData_shrinks
    (by
      intro data bytes emits rest
      obtain ⟨short, rfl⟩ := writeBinaryData_emits.mp emits
      exact parseBinaryData_eq_ok.mpr ⟨short, rfl⟩)
    (by
      intro data bytes emits
      obtain ⟨-, rfl⟩ := writeBinaryData_emits.mp emits
      rw [length_prefixed]
      exact Size.announces_cast _)
    (by
      intro input rest data run
      obtain ⟨short, rfl⟩ := parseBinaryData_eq_ok.mp run
      exact ⟨_, writeBinaryData_emits.mpr ⟨short, rfl⟩, rfl⟩)

theorem parseString_eq_ok {input rest : List UInt8} {s : String} :
    parseString input = .ok (s, rest) ↔
      len s ≤ 65535 ∧ input = prefixed (asBytes s) ++ rest := by
  simp only [parseString, Parser.tryMap_eq_ok, parseBinaryData_eq_ok, fromUtf8_eq_some]
  constructor
  · rintro ⟨data, ⟨short, rfl⟩, rfl⟩
    exact ⟨by simpa using short, rfl⟩
  · rintro ⟨short, rfl⟩
    exact ⟨asBytes s, ⟨by simpa using short, rfl⟩, rfl⟩

theorem writeString_emits {s : String} {bytes : List UInt8} {u : Unit} :
    (writeString s).Emits bytes u ↔ len s ≤ 65535 ∧ bytes = prefixed (asBytes s) := by
  unfold writeString lengthU16
  by_cases short : len s ≤ 65535
  · simp [short, Emit.seq_emits, writeU16_emits, writeSlice_emits, prefixed]
  · simp [short]

theorem writeString_ends (s : String) :
    (writeString s).Ends (.error .invariant) (¬ len s ≤ 65535) where
  fails long := by
    rw [writeString, lengthU16, if_neg long]
    rfl
  well short := (Emit.emits_iff.mp (writeString_emits.mpr ⟨not_not.mp short, rfl⟩)).2

theorem parseString_exact : Exact parseString stringBinarySize writeString :=
  .of_canonical (parseBinaryData_shrinks.tryMap _ _)
    (by
      intro s bytes emits rest
      obtain ⟨short, rfl⟩ := writeString_emits.mp emits
      exact parseString_eq_ok.mpr ⟨short, rfl⟩)
    (by
      intro s bytes emits
      obtain ⟨-, rfl⟩ := writeString_emits.mp emits
      rw [length_prefixed, length_asBytes]
      exact Size.announces_cast _)
    (by
      intro input rest s run
      obtain ⟨short, rfl⟩ := parseString_eq_ok.mp run
      exact ⟨_, writeString_emits.mpr ⟨short, rfl⟩, rfl⟩)

theorem enum_exact {α : Type} {tryFrom : UInt8 → Option α} {toU8 : α → UInt8}
    (inverse : ∀ b a, tryFrom b = some a ↔ b = toU8 a) :
    Exact (Parser.tryMap u8 tryFrom ErrMode.backtrack) (fun _ => 1) (fun a => writeByte (toU8 a)) :=
  .of_canonical (u8_shrinks.tryMap _ _)
    (by
      intro a bytes emits
      obtain rfl := writeByte_emits.mp emits
      exact (u8_reads _).tryMap ((inverse _ _).mpr rfl))
    (fun emits => writeByte_emits.mp emits ▸ Size.announces_literal 1)
    (by
      intro input rest a run
      obtain ⟨b, read, found⟩ := Parser.tryMap_eq_ok.mp run
      exact ⟨_, writeByte_emits.mpr rfl, by rw [← (inverse _ _).mp found]; exact u8_eq_ok.mp read⟩)

theorem parseBool_exact : Exact parseBool (fun _ => 1) writeBool :=
  enum_exact fun b a => by
    constructor
    · intro found
      split at found <;> simp_all <;> subst found <;> rfl
    · rintro rfl
      cases a <;> rfl

theorem MaximumQualityOfService.tryFrom_eq_some {b : UInt8} {qos : MaximumQualityOfService} :
    tryFrom b = some qos ↔ b = qos.toU8 := by
  apply tryFrom_eq_some_of_forall
  · decide +kernel
  · intro qos
    cases qos <;> rfl

theorem parseMaximumQualityOfService_exact :
    Exact parseMaximumQualityOfService (fun _ => 1) writeMaximumQualityOfService :=
  enum_exact fun _ _ => MaximumQualityOfService.tryFrom_eq_some

end V5
