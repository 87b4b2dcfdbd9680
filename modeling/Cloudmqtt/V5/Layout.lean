import Cloudmqtt.V5.Basic

/-! Formats whose values compare by iteration, and how packets are laid out of formats. -/

set_option autoImplicit false

namespace V5

open Base Rust

structure Faithful {α : Type} (valid : α → Prop) (eq : α → α → Except Panic Bool)
    (parse : MParser α) (binarySize : α → Size) (write : α → WResult) : Prop where
  isLocal : parse.Local
  reads {a : α} {bytes : List UInt8} : valid a → (write a).Emits bytes () →
    bytes.length ≤ 268435455 → ∃ b, parse.Reads bytes b ∧ eq b a = .ok true
  size {a : α} {bytes : List UInt8} : valid a → (write a).Emits bytes () →
    (binarySize a).Announces bytes.length
  rewrites {input rest : List UInt8} {a : α} : parse input = .ok (a, rest) →
    valid a ∧ ∃ bytes, (write a).Emits bytes () ∧ bytes.length + rest.length ≤ input.length

/-- The body of a packet type: written bodies are read to their end, and a body
that was read can be written again. Short forms grow, up to `least` bytes. -/
structure Body (least : Nat) {α : Type} (valid : α → Prop) (eq : α → α → Except Panic Bool)
    (parse : MParser α) (binarySize : α → Size) (write : α → WResult) : Prop where
  reads {a : α} {bytes : List UInt8} : valid a → (write a).Emits bytes () →
    bytes.length ≤ 268435455 → ∃ b, parse bytes = .ok (b, []) ∧ eq b a = .ok true
  size {a : α} {bytes : List UInt8} : valid a → (write a).Emits bytes () →
    (binarySize a).Announces bytes.length
  rewrites {input rest : List UInt8} {a : α} : parse input = .ok (a, rest) →
    valid a ∧ ∃ bytes, (write a).Emits bytes () ∧ bytes.length ≤ max least input.length

theorem Faithful.body {α : Type} {valid : α → Prop} {eq : α → α → Except Panic Bool}
    {parse : MParser α} {binarySize : α → Size} {write : α → WResult}
    (faithful : Faithful valid eq parse binarySize write) :
    Body 0 valid eq parse binarySize write where
  reads valid emits short := by
    obtain ⟨b, reads, same⟩ := faithful.reads valid emits short
    exact ⟨b, reads.whole, same⟩
  size := faithful.size
  rewrites run := by
    obtain ⟨valid, bytes, emits, fewer⟩ := faithful.rewrites run
    exact ⟨valid, bytes, emits, by omega⟩

theorem Body.nothing {α : Type} [DecidableEq α] {unit : α} (only : ∀ a, a = unit) :
    Body 0 (fun _ => True) (fun a b => .ok (decide (a = b)))
      ((fun _ => unit) <$> Parser.eof .backtrack) (fun _ => 0) (fun _ => pure ()) where
  reads {a _} _ emits _ := by
    obtain ⟨rfl, -⟩ := Emit.pure_emits.mp emits
    exact ⟨unit, rfl, by rw [only a, decide_eq_true rfl]⟩
  size _ emits := by
    obtain ⟨rfl, -⟩ := Emit.pure_emits.mp emits
    exact Size.announces_literal 0
  rewrites _ := ⟨trivial, [], Emit.pure_emits.mpr ⟨rfl, rfl⟩, by simp⟩

section Layouts

variable {α β β' γ δ : Type} [DecidableEq α] [DecidableEq β] [Build]
  {parseA : MParser α} {sizeA : α → Size} {writeA : α → WResult}
  {parseB : MParser β} {sizeB : β → Size} {writeB : β → WResult}
  {valid : γ → Prop} {eq : γ → γ → Except Panic Bool}
  {parse : MParser γ} {size : γ → Size} {write : γ → WResult}

theorem Faithful.after_one (first : Exact parseA sizeA writeA)
    (last : Faithful valid eq parse size write) (make : α → γ → δ) (a : δ → α) (c : δ → γ)
    (hA : ∀ x z, a (make x z) = x) (hC : ∀ x z, c (make x z) = z) :
    Faithful (fun d => valid (c d))
      (fun d e => andAlso (.ok (decide (a d = a e))) (eq (c d) (c e)))
      (do let x ← parseA; let z ← parse; pure (make x z))
      (fun d => sizeA (a d) + size (c d))
      (fun d => do writeA (a d); write (c d)) where
  isLocal := first.isLocal.bind fun _ => last.isLocal.bind fun _ => .pure _
  reads {d _} valid emits short := by
    obtain ⟨s, t, firstEmits, lastEmits, rfl⟩ := Emit.seq_emits.mp emits
    rw [List.length_append] at short
    obtain ⟨z, reads, same⟩ := last.reads valid lastEmits (by omega)
    refine ⟨make (a d) z, ?_, andAlso_eq_true.mpr ⟨by rw [hA, decide_eq_true rfl], by rwa [hC]⟩⟩
    have all : Parser.Reads (do let x ← parseA; let z ← parse; pure (make x z)) (s ++ (t ++ []))
        (make (a d) z) := (first.reads firstEmits).bind (reads.bind (.pure _))
    rwa [List.append_nil] at all
  size valid emits := by
    obtain ⟨s, t, firstEmits, lastEmits, rfl⟩ := Emit.seq_emits.mp emits
    rw [List.length_append]
    exact (first.size firstEmits).add (last.size valid lastEmits)
  rewrites run := by
    obtain ⟨x, middle, z, readA, readC, rfl⟩ := Parser.pair_eq_ok.mp run
    obtain ⟨s, firstEmits, fewer⟩ := first.rewrites readA
    obtain ⟨valid, t, lastEmits, fewest⟩ := last.rewrites readC
    simp only [hA, hC]
    refine ⟨valid, s ++ t, Emit.seq_emits.mpr ⟨s, t, firstEmits, lastEmits, rfl⟩, ?_⟩
    rw [List.length_append]
    omega

theorem Faithful.after_two (first : Exact parseA sizeA writeA) (second : Exact parseB sizeB writeB)
    (last : Faithful valid eq parse size write) (make : α → β → γ → δ) (a : δ → α) (b : δ → β)
    (c : δ → γ) (hA : ∀ x y z, a (make x y z) = x)
    (hB : ∀ x y z, b (make x y z) = y) (hC : ∀ x y z, c (make x y z) = z) :
    Faithful (fun d => valid (c d))
      (fun d e => andAlso (.ok (decide (a d = a e)))
        (andAlso (.ok (decide (b d = b e))) (eq (c d) (c e))))
      (do let x ← parseA; let y ← parseB; let z ← parse; pure (make x y z))
      (fun d => sizeA (a d) + sizeB (b d) + size (c d))
      (fun d => do writeA (a d); writeB (b d); write (c d)) where
  isLocal := first.isLocal.bind fun _ => second.isLocal.bind fun _ => last.isLocal.bind fun _ =>
    .pure _
  reads {d _} valid emits short := by
    obtain ⟨s, t, u, firstEmits, secondEmits, lastEmits, rfl⟩ := Emit.seq_seq_emits.mp emits
    simp only [List.length_append] at short
    obtain ⟨z, reads, same⟩ := last.reads valid lastEmits (by omega)
    refine ⟨make (a d) (b d) z, ?_, andAlso_eq_true.mpr ⟨by rw [hA, decide_eq_true rfl],
      andAlso_eq_true.mpr ⟨by rw [hB, decide_eq_true rfl], by rwa [hC]⟩⟩⟩
    have all : Parser.Reads (do let x ← parseA; let y ← parseB; let z ← parse; pure (make x y z))
        (s ++ (t ++ (u ++ []))) (make (a d) (b d) z) :=
      (first.reads firstEmits).bind ((second.reads secondEmits).bind (reads.bind (.pure _)))
    rwa [List.append_nil] at all
  size valid emits := by
    obtain ⟨s, t, u, firstEmits, secondEmits, lastEmits, rfl⟩ := Emit.seq_seq_emits.mp emits
    rw [← List.append_assoc, List.length_append, List.length_append]
    exact ((first.size firstEmits).add (second.size secondEmits)).add (last.size valid lastEmits)
  rewrites run := by
    obtain ⟨x, _, y, _, z, readA, readB, readC, rfl⟩ := Parser.triple_eq_ok.mp run
    obtain ⟨s, firstEmits, fewerA⟩ := first.rewrites readA
    obtain ⟨t, secondEmits, fewerB⟩ := second.rewrites readB
    obtain ⟨valid, u, lastEmits, fewerC⟩ := last.rewrites readC
    simp only [hA, hB, hC]
    refine ⟨valid, s ++ (t ++ u), Emit.seq_seq_emits.mpr ⟨s, t, u, firstEmits,
      secondEmits, lastEmits, rfl⟩, ?_⟩
    simp only [List.length_append]
    omega

theorem Body.after_two {validB : β' → Prop} {eqB : β' → β' → Except Panic Bool}
    {parseB' : MParser β'} {sizeB' : β' → Size} {writeB' : β' → WResult}
    (first : Exact parseA sizeA writeA) (second : Faithful validB eqB parseB' sizeB' writeB')
    (last : Body 0 valid eq parse size write) (make : α → β' → γ → δ) (a : δ → α) (b : δ → β')
    (c : δ → γ) (hA : ∀ x y z, a (make x y z) = x) (hB : ∀ x y z, b (make x y z) = y)
    (hC : ∀ x y z, c (make x y z) = z) :
    Body 0 (fun d => validB (b d) ∧ valid (c d))
      (fun d e => andAlso (.ok (decide (a d = a e))) (andAlso (eqB (b d) (b e)) (eq (c d) (c e))))
      (do let x ← parseA; let y ← parseB'; let z ← parse; pure (make x y z))
      (fun d => sizeA (a d) + sizeB' (b d) + size (c d))
      (fun d => do writeA (a d); writeB' (b d); write (c d)) where
  reads {d _} valid emits short := by
    obtain ⟨s, t, u, firstEmits, secondEmits, lastEmits, rfl⟩ := Emit.seq_seq_emits.mp emits
    simp only [List.length_append] at short
    obtain ⟨y, reads, sameB⟩ := second.reads valid.1 secondEmits (by omega)
    obtain ⟨z, read, sameC⟩ := last.reads valid.2 lastEmits (by omega)
    refine ⟨make (a d) y z, ?_, andAlso_eq_true.mpr ⟨by rw [hA, decide_eq_true rfl],
      andAlso_eq_true.mpr ⟨by rwa [hB], by rwa [hC]⟩⟩⟩
    exact Parser.triple_eq_ok.mpr ⟨_, _, _, _, _, first.reads firstEmits _, reads _, read, rfl⟩
  size valid emits := by
    obtain ⟨s, t, u, firstEmits, secondEmits, lastEmits, rfl⟩ := Emit.seq_seq_emits.mp emits
    rw [← List.append_assoc, List.length_append, List.length_append]
    exact ((first.size firstEmits).add (second.size valid.1 secondEmits)).add
      (last.size valid.2 lastEmits)
  rewrites run := by
    obtain ⟨x, _, y, _, z, readA, readB, readC, rfl⟩ := Parser.triple_eq_ok.mp run
    obtain ⟨s, firstEmits, fewerA⟩ := first.rewrites readA
    obtain ⟨validB, t, secondEmits, fewerB⟩ := second.rewrites readB
    obtain ⟨validC, u, lastEmits, fewerC⟩ := last.rewrites readC
    simp only [hA, hB, hC]
    refine ⟨⟨validB, validC⟩, s ++ (t ++ u), Emit.seq_seq_emits.mpr ⟨s, t, u, firstEmits,
      secondEmits, lastEmits, rfl⟩, ?_⟩
    simp only [List.length_append]
    omega

end Layouts

def unlessEmpty {α : Type} (default : α) (parse : MParser α) : MParser α := do
  if ← Parser.isEmpty then pure default else parse

theorem unlessEmpty_eq_ok {α : Type} {default : α} {parse : MParser α} {input rest : List UInt8}
    {a : α} : unlessEmpty default parse input = .ok (a, rest) ↔
      (input = [] ∧ a = default ∧ rest = []) ∨ (input ≠ [] ∧ parse input = .ok (a, rest)) := by
  cases input with
  | nil =>
    simp only [unlessEmpty, Parser.bind_apply, Parser.isEmpty, List.isEmpty_nil, if_true,
      Parser.pure_apply, Except.ok.injEq, Prod.mk.injEq, true_and, ne_eq, not_true, false_and,
      or_false]
    exact and_congr eq_comm eq_comm
  | cons b bytes => simp [unlessEmpty, Parser.bind_apply, Parser.isEmpty]

theorem unlessEmpty_of_ok {α : Type} {default : α} {parse : MParser α} (shrinks : parse.Shrinks)
    {input rest : List UInt8} {a : α} (run : parse input = .ok (a, rest)) :
    unlessEmpty default parse input = .ok (a, rest) := by
  have shorter := shrinks _ _ _ run
  refine unlessEmpty_eq_ok.mpr (.inr ⟨?_, run⟩)
  rintro rfl
  simp at shorter

def optional {α : Type} (flag : Bool) (parse : MParser α) : MParser (Option α) :=
  if flag then some <$> parse else pure none

def optionSize {α : Type} (binarySize : α → Size) : Option α → Size
  | some a => binarySize a
  | none => 0

def writeOption {α : Type} (write : α → WResult) : Option α → WResult
  | some a => write a
  | none => pure ()

def optionEq {α : Type} (eq : α → α → Except Panic Bool) : Option α → Option α → Except Panic Bool
  | some a, some b => eq a b
  | none, none => .ok true
  | _, _ => .ok false

theorem Exact.faithful {α : Type} [DecidableEq α] {parse : MParser α} {binarySize : α → Size}
    {write : α → WResult} (exact : Exact parse binarySize write) :
    Faithful (fun _ => True) (fun a b => .ok (decide (a = b))) parse binarySize write where
  isLocal := exact.isLocal
  reads _ emits _ := ⟨_, exact.reads emits, by simp⟩
  size _ emits := exact.size emits
  rewrites run := ⟨trivial, exact.rewrites run⟩

theorem optionEq_exact {α : Type} [DecidableEq α] {a b : Option α} :
    optionEq (fun a b => .ok (decide (a = b))) a b = .ok true ↔ a = b := by
  cases a <;> cases b <;> simp [optionEq]

theorem optionSize_announces {α : Type} {parse : MParser α} {binarySize : α → Size}
    {write : α → WResult} (exact : Exact parse binarySize write) {a : Option α}
    {bytes : List UInt8} (emits : (writeOption write a).Emits bytes ()) :
    (optionSize binarySize a).Announces bytes.length := by
  cases a with
  | none =>
    obtain ⟨rfl, -⟩ := Emit.pure_emits.mp emits
    exact Size.announces_literal 0
  | some a => exact exact.size emits

theorem Faithful.option {α : Type} {valid : α → Prop} {eq : α → α → Except Panic Bool}
    {parse : MParser α} {binarySize : α → Size} {write : α → WResult}
    (inner : Faithful valid eq parse binarySize write) (flag : Bool) :
    Faithful (fun a => a.isSome = flag ∧ ∀ b, a = some b → valid b) (optionEq eq)
      (optional flag parse) (optionSize binarySize) (writeOption write) where
  isLocal := by
    cases flag with
    | true => exact inner.isLocal.map _
    | false => exact .pure _
  reads {a _} valid emits short := by
    obtain ⟨rfl, valid⟩ := valid
    cases a with
    | none =>
      obtain ⟨rfl, -⟩ := Emit.pure_emits.mp emits
      exact ⟨none, Parser.Reads.pure none, rfl⟩
    | some a =>
      obtain ⟨b, reads, same⟩ := inner.reads (valid a rfl) emits short
      exact ⟨some b, reads.map some, same⟩
  size {a _} valid emits := by
    cases a with
    | none =>
      obtain ⟨rfl, -⟩ := Emit.pure_emits.mp emits
      exact Size.announces_literal 0
    | some a => exact inner.size (valid.2 a rfl) emits
  rewrites {input rest a} run := by
    cases flag with
    | true =>
      obtain ⟨b, read, rfl⟩ := Parser.map_eq_ok.mp run
      obtain ⟨valid, bytes, emits, fewer⟩ := inner.rewrites read
      exact ⟨⟨rfl, by rintro _ ⟨⟩; exact valid⟩, bytes, emits, fewer⟩
    | false =>
      obtain ⟨rfl, rfl⟩ := Prod.mk.inj (Except.ok.inj run)
      exact ⟨⟨rfl, by simp⟩, [], Emit.pure_emits.mpr ⟨rfl, rfl⟩, by simp⟩

end V5
