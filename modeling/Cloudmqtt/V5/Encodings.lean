import Cloudmqtt.V5.Integers

/-! Which of the encodings of a variable-length integer is the one that is written. -/

set_option autoImplicit false

namespace V5

open Base Rust

/-- The bytes are the encoding that is written of `n`. -/
structure IsEncoding (bytes : List UInt8) (n : UInt32) : Prop where
  bound : n ≤ variableIntegerMax
  sum [Build] : addDigits bytes = .ok n
  written : (writeVariableU32 n).Emits bytes ()
  size : ∃ k, variableU32BinarySize n = .ok k ∧ k.toNat = bytes.length

theorem digitsValue_concat (front : List UInt8) (last : UInt8) :
    digitsValue (front ++ [last]) =
      digitsValue front + 128 ^ front.length * (last.toNat % 128) := by
  induction front with
  | nil => simp [digitsValue]
  | cons b more ih =>
    rw [List.cons_append, digitsValue, digitsValue, ih, List.length_cons, Nat.pow_succ]
    ring

namespace VariableBytes

theorem uncons {b : UInt8} {more : List UInt8} (shape : VariableBytes (b :: more)) :
    (more = [] ∧ b.toNat < 128) ∨ 128 ≤ b.toNat ∧ VariableBytes more := by
  obtain ⟨front, last, split, short, go, stop⟩ := shape
  cases front with
  | nil =>
    left
    obtain ⟨rfl, rfl⟩ := List.cons.inj split
    rw [continues_eq, decide_eq_false_iff_not] at stop
    exact ⟨rfl, Nat.lt_of_not_le stop⟩
  | cons a front =>
    right
    obtain ⟨rfl, rfl⟩ := List.cons.inj split
    obtain ⟨goes, go⟩ := List.forall_mem_cons.mp go
    rw [continues_eq, decide_eq_true_eq] at goes
    rw [List.length_cons] at short
    exact ⟨goes, front, last, rfl, by omega, go, stop⟩

/-- A value has one encoding of each length. -/
theorem eq_of_value {bytes other : List UInt8} (shape : VariableBytes bytes)
    (shape' : VariableBytes other) (length : bytes.length = other.length)
    (value : digitsValue bytes = digitsValue other) : bytes = other := by
  induction bytes generalizing other with
  | nil => exact (List.length_eq_zero_iff.mp length.symm).symm
  | cons b more ih =>
    cases other with
    | nil => cases length
    | cons c rest =>
      rw [List.length_cons, List.length_cons, Nat.succ_inj] at length
      rw [digitsValue, digitsValue] at value
      have digit : b.toNat % 128 = c.toNat % 128 := by omega
      have later : digitsValue more = digitsValue rest := by omega
      have bound := b.toNat_lt
      have bound' := c.toNat_lt
      rcases shape.uncons with ⟨rfl, stop⟩ | ⟨goes, shape⟩
      · obtain rfl := List.length_eq_zero_iff.mp length.symm
        rcases shape'.uncons with ⟨-, stop'⟩ | ⟨-, none⟩
        · have same : b = c := UInt8.toNat_inj.mp (by omega)
          rw [same]
        · exact absurd none.length.1 (by decide)
      · rcases shape'.uncons with ⟨rfl, -⟩ | ⟨goes', shape'⟩
        · obtain rfl := List.length_eq_zero_iff.mp length
          exact absurd shape.length.1 (by decide)
        · have same : b = c := UInt8.toNat_inj.mp (by omega)
          rw [same, ih shape shape' length later]

/-- The shortest encoding is the one that does not end with a zero, unless it is the
zero alone. -/
theorem shortest_iff {bytes : List UInt8} (shape : VariableBytes bytes) :
    bytes.length = variableWidth (digitsValue bytes) ↔
      bytes.length = 1 ∨ bytes.getLast? ≠ some 0 := by
  obtain ⟨front, last, rfl, short, -, stop⟩ := shape
  have low := digitsValue_lt front
  have digit : last.toNat < 128 := by
    rw [continues_eq, decide_eq_false_iff_not] at stop
    omega
  rw [digitsValue_concat, Nat.mod_eq_of_lt digit, List.length_append, List.length_singleton,
    List.getLast?_concat, Ne, Option.some.injEq, ← UInt8.toNat_inj]
  change _ ↔ _ ∨ ¬ last.toNat = 0
  unfold variableWidth
  generalize digitsValue front = value at low ⊢
  generalize last.toNat = d at digit ⊢
  generalize front.length = k at short low ⊢
  interval_cases k <;> split_ifs <;> omega

end VariableBytes

-- The byte that ends an encoding is the first one that does not continue it.
theorem VariableBytes.ends_iff {bytes : List UInt8} (shape : VariableBytes bytes)
    (rest : List UInt8) : bytes.length = 1 ∨ bytes.getLast? ≠ some 0 ↔
      (bytes ++ rest).takeWhile continues = [] ∨
        ((bytes ++ rest).dropWhile continues).head? ≠ some 0 := by
  obtain ⟨front, last, rfl, -, go, stop⟩ := shape
  have front_eq : (front ++ [last] ++ rest).takeWhile continues = front := by
    rw [List.append_assoc, List.takeWhile_append_of_pos go, List.singleton_append,
      List.takeWhile_cons_of_neg (by simp [stop]), List.append_nil]
  have last_eq : ((front ++ [last] ++ rest).dropWhile continues).head? = some last := by
    rw [List.append_assoc, List.dropWhile_append_of_pos go, List.singleton_append,
      List.dropWhile_cons_of_neg (by simp [stop]), List.head?_cons]
  rw [front_eq, last_eq, List.getLast?_concat, List.length_append, List.length_singleton,
    Nat.add_eq_right, List.length_eq_zero_iff]

/-- What is read stands in the encoding that would be written, unless that has several
bytes and ends with a zero. -/
theorem parseVariableU32_isEncoding_iff {input rest : List UInt8} {n : UInt32}
    (run : parseVariableU32 input = .ok (n, rest)) :
    ∃ c, input = c ++ rest ∧ (IsEncoding c n ↔
      input.takeWhile continues = [] ∨ (input.dropWhile continues).head? ≠ some 0) := by
  have bound := parseVariableU32_le run
  obtain ⟨c, shape, rfl, rfl⟩ := parseVariableU32With_eq_ok.mp run
  have value := toNat_variableU32Value shape.length.2
  refine ⟨c, rfl, ?_⟩
  rw [← shape.ends_iff rest, ← shape.shortest_iff, ← value]
  constructor
  · intro only
    exact (writeVariableU32_emits only.written).2.2
  · intro shortest
    obtain ⟨w, emits⟩ := writeVariableU32_ok bound
    obtain ⟨shape', value', width⟩ := writeVariableU32_emits emits
    obtain rfl := shape'.eq_of_value shape (width.trans shortest.symm) (value'.trans value)
    constructor
    · exact UInt32.le_iff_toNat_le.mpr bound
    · exact addDigits_ok shape.length.2
    · exact emits
    · refine ⟨_, variableU32BinarySize_eq bound, ?_⟩
      rw [← shortest]
      exact UInt32.toNat_ofNat_of_lt (by have := shape.length.2; rw [UInt32.size]; omega)

theorem parseVariableU32_isEncoding_iff_long :
    parseVariableU32 [0xC1, 0x02, 0x07] = .ok (321, [0x07]) ∧
      ∃ c, [0xC1, 0x02, 0x07] = c ++ [0x07] ∧
        (IsEncoding c 321 ↔ [0xC1, 0x02, 0x07].takeWhile continues = [] ∨
          ([0xC1, 0x02, 0x07].dropWhile continues).head? ≠ some 0) := by
  have run : parseVariableU32 [0xC1, 0x02, 0x07] = .ok (321, [0x07]) := rfl
  exact ⟨run, parseVariableU32_isEncoding_iff run⟩

/-- A zero in two bytes, which is written in one. -/
theorem parseVariableU32_overlong : ∃ n, parseVariableU32 [0x80, 0x00] = .ok (n, []) ∧
    ¬ IsEncoding [0x80, 0x00] n := by
  refine ⟨0, rfl, fun only => ?_⟩
  have emits : (writeVariableU32 0).Emits [0x00] () := rfl
  have same := (only.written.unique emits).1
  cases same

end V5
