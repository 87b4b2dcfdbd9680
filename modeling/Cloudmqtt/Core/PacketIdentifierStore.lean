import Cloudmqtt.V5.VariableHeader

/-! Packet identifiers in use by the client, and the exchange each is used for.

`LawfulStore` is what the state machine needs of a store: a partial map from
identifiers to usages. The store of two bitmaps is such a map.
-/

set_option autoImplicit false

namespace Core

open Rust V5

inductive PacketIdentifierUsage where
  | publish
  | nonPublish
  deriving DecidableEq, Repr

def PacketIdentifierUsage.isPublish : PacketIdentifierUsage → Bool
  | publish => true
  | nonPublish => false

class PacketIdentifierStore (σ : Type) where
  getNextFree : σ → PacketIdentifierUsage → Except Panic (Option PacketIdentifier × σ)
  release : σ → PacketIdentifier → Except Panic σ
  releaseNonPublishSlots : σ → σ
  contains : σ → PacketIdentifier → Bool

/-- A store behaves as a partial map from identifiers to usages. -/
class LawfulStore (σ : Type) [PacketIdentifierStore σ] where
  usage : σ → PacketIdentifier → Option PacketIdentifierUsage
  getNextFree_usage {s s' : σ} {u : PacketIdentifierUsage} {id : PacketIdentifier} :
    PacketIdentifierStore.getNextFree s u = .ok (some id, s') →
      usage s id = none ∧ usage s' = Function.update (usage s) id (some u)
  release_usage {s s' : σ} {id : PacketIdentifier} :
    PacketIdentifierStore.release s id = .ok s' → usage s' = Function.update (usage s) id none
  releaseNonPublishSlots_usage (s : σ) (id : PacketIdentifier) :
    usage (PacketIdentifierStore.releaseNonPublishSlots s) id = (usage s id).filter (·.isPublish)
  contains_usage (s : σ) (id : PacketIdentifier) :
    PacketIdentifierStore.contains s id = (usage s id).isSome

/-! ### The store of two bitmaps -/

theorem and_eq_left_iff {w : Nat} {x y : BitVec w} :
    x &&& y = x ↔ ∀ i, x.getLsbD i = true → y.getLsbD i = true := by
  constructor
  · intro same i set
    have bit := congrArg (fun z => z.getLsbD i) same
    simp only [BitVec.getLsbD_and, set, Bool.true_and] at bit
    exact bit
  · intro within
    refine BitVec.eq_of_getLsbD_eq fun i _ => ?_
    rw [BitVec.getLsbD_and]
    cases set : x.getLsbD i with
    | true => rw [within i set, Bool.and_self]
    | false => rfl

structure UsizePacketIdentifierStore [Target] where
  slots : Usize
  isPublish : Usize
  /-- Only slots in use are flagged. -/
  flagged : isPublish &&& slots = isPublish

namespace UsizePacketIdentifierStore

def bit (id : PacketIdentifier) : Nat := id.value.get.toNat - 1

theorem bit_injective : Function.Injective bit := by
  intro id other same
  have nonzero : id.value.get.toNat ≠ 0 := fun zero => id.value.nonzero (UInt16.toNat_inj.mp zero)
  have nonzero' : other.value.get.toNat ≠ 0 :=
    fun zero => other.value.nonzero (UInt16.toNat_inj.mp zero)
  obtain ⟨⟨u, _⟩⟩ := id
  obtain ⟨⟨v, _⟩⟩ := other
  simp only [bit] at same nonzero nonzero'
  obtain rfl : u = v := UInt16.toNat_inj.mp (by omega)
  rfl

variable [Target]

def mask (bitIndex : Nat) : Usize := BitVec.twoPow _ bitIndex

def new : UsizePacketIdentifierStore := ⟨0, 0, by simp⟩

/-- The flag of `PacketIdentifierUsage`, in every bit. -/
def flags (usage : PacketIdentifierUsage) : Usize :=
  if usage.isPublish then BitVec.allOnes _ else 0

def take (self : UsizePacketIdentifierStore) (bitIndex : Nat) (usage : PacketIdentifierUsage) :
    UsizePacketIdentifierStore where
  slots := self.slots ||| mask bitIndex
  isPublish := self.isPublish ||| (mask bitIndex &&& flags usage)
  flagged := by
    have flagged := and_eq_left_iff.mp self.flagged
    rw [and_eq_left_iff]
    intro i
    simp only [BitVec.getLsbD_or, BitVec.getLsbD_and, Bool.or_eq_true, Bool.and_eq_true]
    exact Or.imp (flagged i) And.left

-- One bit for each identifier from 1 on, as many as a `usize` has.
def getNextFree (self : UsizePacketIdentifierStore) (usage : PacketIdentifierUsage) :
    Except Panic (Option PacketIdentifier × UsizePacketIdentifierStore) :=
  match (List.range Target.pointerWidth).find? fun bitIndex => self.slots &&& mask bitIndex == 0 with
  | some bitIndex =>
    match NonZeroU16.new (.ofNat bitIndex + 1) with
    | some id => .ok (some ⟨id⟩, self.take bitIndex usage)
    | none => .error (.expect "usize had more bits than fits into u16::MAX-1??")
  | none => .ok (none, self)

def release (self : UsizePacketIdentifierStore) (id : PacketIdentifier) :
    Except Panic UsizePacketIdentifierStore :=
  if bit id < Target.pointerWidth then .ok
    { slots := self.slots &&& ~~~mask (bit id)
      isPublish := self.isPublish &&& ~~~mask (bit id)
      flagged := by
        have flagged := and_eq_left_iff.mp self.flagged
        rw [and_eq_left_iff]
        intro i
        simp only [BitVec.getLsbD_and, Bool.and_eq_true]
        exact And.imp_left (flagged i) }
  else .error .assertion

def releaseNonPublishSlots (self : UsizePacketIdentifierStore) : UsizePacketIdentifierStore where
  slots := self.slots &&& self.isPublish
  isPublish := self.isPublish
  flagged := by
    rw [BitVec.and_comm, BitVec.and_assoc, BitVec.and_self, BitVec.and_comm, self.flagged]

-- An identifier beyond the bitmap is not contained, while `release` asserts it away.
def contains (self : UsizePacketIdentifierStore) (id : PacketIdentifier) : Bool :=
  if Target.pointerWidth ≤ bit id then false
  else self.slots &&& mask (bit id) != 0

instance : PacketIdentifierStore UsizePacketIdentifierStore where
  getNextFree := getNextFree
  release := release
  releaseNonPublishSlots := releaseNonPublishSlots
  contains := contains

theorem getLsbD_mask {bitIndex : Nat} (fits : bitIndex < Target.pointerWidth) (i : Nat) :
    (mask bitIndex).getLsbD i = decide (bitIndex = i) := by
  simp [mask, BitVec.getLsbD_twoPow, fits]

theorem and_mask_eq_zero {x : Usize} {bitIndex : Nat} (fits : bitIndex < Target.pointerWidth) :
    x &&& mask bitIndex = 0 ↔ x.getLsbD bitIndex = false := by
  constructor
  · intro zero
    have bit := congrArg (fun z => z.getLsbD bitIndex) zero
    simpa [getLsbD_mask fits] using bit
  · intro clear
    rw [mask, BitVec.and_twoPow, clear]
    rfl

def usageOfBits (used flag : Bool) : Option PacketIdentifierUsage :=
  bif used then some (bif flag then .publish else .nonPublish) else none

def usage (self : UsizePacketIdentifierStore) (id : PacketIdentifier) :
    Option PacketIdentifierUsage :=
  usageOfBits (self.slots.getLsbD (bit id)) (self.isPublish.getLsbD (bit id))

theorem new_usage (id : PacketIdentifier) : new.usage id = none := by
  simp [usage, usageOfBits, new]

theorem usage_eq_none {self : UsizePacketIdentifierStore} {id : PacketIdentifier} :
    self.usage id = none ↔ self.slots.getLsbD (bit id) = false := by
  cases used : self.slots.getLsbD (bit id) <;> simp [usage, usageOfBits, used]

theorem take_usage {self : UsizePacketIdentifierStore} {id : PacketIdentifier}
    (fits : bit id < Target.pointerWidth) (free : self.slots.getLsbD (bit id) = false)
    (u : PacketIdentifierUsage) :
    (self.take (bit id) u).usage = Function.update self.usage id (some u) := by
  funext other
  simp only [usage, take, BitVec.getLsbD_or, BitVec.getLsbD_and, getLsbD_mask fits]
  by_cases same : other = id
  · subst same
    have unflagged : self.isPublish.getLsbD (bit other) = false :=
      Bool.eq_false_iff.mpr fun set =>
        Bool.eq_false_iff.mp free (and_eq_left_iff.mp self.flagged _ set)
    have flag : (flags u).getLsbD (bit other) = u.isPublish := by
      cases u <;> simp [flags, PacketIdentifierUsage.isPublish, fits]
    rw [Function.update_self, unflagged, flag, decide_eq_true rfl, Bool.or_true, Bool.false_or,
      Bool.true_and]
    cases u <;> rfl
  · have apart : decide (bit id = bit other) = false :=
      decide_eq_false fun h => same (bit_injective h.symm)
    rw [Function.update_of_ne same, apart, Bool.or_false, Bool.false_and, Bool.or_false]
    rfl

/-- The identifier of the lowest bit that is clear. -/
theorem getNextFree_eq {self s' : UsizePacketIdentifierStore} {u : PacketIdentifierUsage}
    {id : PacketIdentifier} (run : self.getNextFree u = .ok (some id, s')) :
    bit id < Target.pointerWidth ∧ self.slots.getLsbD (bit id) = false ∧
      (∀ i < bit id, self.slots.getLsbD i = true) ∧ s' = self.take (bit id) u := by
  unfold getNextFree at run
  split at run
  next bitIndex found =>
    obtain ⟨clear, member, below⟩ := List.find?_range_eq_some.mp found
    have fits := List.mem_range.mp member
    have set : ∀ i < bitIndex, self.slots.getLsbD i = true := by
      intro i less
      by_contra unset
      have zero := (and_mask_eq_zero (Nat.lt_trans less fits)).mpr (Bool.eq_false_iff.mpr unset)
      have passed := below i less
      rw [zero] at passed
      cases passed
    split at run
    next n nonzero =>
      obtain ⟨same, rfl⟩ := Prod.mk.inj (Except.ok.inj run)
      obtain rfl := Option.some.inj same
      have value := NonZeroU16.new_eq_some.mp nonzero
      have width : Target.pointerWidth ≤ 64 := by
        rcases Target.known with known | known | known <;> omega
      have isBit : bit ⟨n⟩ = bitIndex := by
        rw [bit, ← value, UInt16.toNat_add, UInt16.toNat_ofNat']
        simp
        omega
      rw [isBit]
      exact ⟨fits, (and_mask_eq_zero fits).mp (eq_of_beq clear), set, rfl⟩
    next => simp at run
  next => simp at run

theorem getNextFree_ok (self : UsizePacketIdentifierStore) (u : PacketIdentifierUsage) :
    ∃ result, self.getNextFree u = .ok result := by
  unfold getNextFree
  split
  next bitIndex found =>
    have member := List.mem_range.mp (List.find?_range_eq_some.mp found).2.1
    have width : Target.pointerWidth ≤ 64 := by
      rcases Target.known with known | known | known <;> omega
    have nonzero : UInt16.ofNat bitIndex + 1 ≠ 0 := by
      intro zero
      have value := congrArg UInt16.toNat zero
      rw [UInt16.toNat_add, UInt16.toNat_ofNat'] at value
      simp at value
      omega
    rw [NonZeroU16.new, dif_pos nonzero]
    exact ⟨_, rfl⟩
  next => exact ⟨_, rfl⟩

theorem getNextFree_eq_none {self s' : UsizePacketIdentifierStore} {u : PacketIdentifierUsage}
    {id : Option PacketIdentifier} (run : self.getNextFree u = .ok (id, s')) :
    id = none ↔ self.slots = BitVec.allOnes _ := by
  unfold getNextFree at run
  split at run
  next bitIndex found =>
    obtain ⟨clear, member, -⟩ := List.find?_range_eq_some.mp found
    have fits := List.mem_range.mp member
    have unset := (and_mask_eq_zero fits).mp (eq_of_beq clear)
    split at run
    next =>
      obtain ⟨rfl, -⟩ := Prod.mk.inj (Except.ok.inj run)
      apply iff_of_false (by simp)
      intro full
      rw [full, BitVec.getLsbD_allOnes, decide_eq_true fits] at unset
      cases unset
    next => cases run
  next none =>
    obtain ⟨rfl, -⟩ := Prod.mk.inj (Except.ok.inj run)
    apply iff_of_true rfl
    rw [List.find?_eq_none] at none
    apply BitVec.eq_of_getLsbD_eq
    intro i fits
    rw [BitVec.getLsbD_allOnes, decide_eq_true fits]
    by_contra unset
    have clear := (and_mask_eq_zero fits).mpr (Bool.eq_false_iff.mpr unset)
    exact none i (List.mem_range.mpr fits) (beq_iff_eq.mpr clear)

theorem getNextFree_unchanged {self s' : UsizePacketIdentifierStore} {u : PacketIdentifierUsage}
    (run : self.getNextFree u = .ok (none, s')) : s' = self := by
  unfold getNextFree at run
  split at run
  next => split at run <;> cases run
  next => exact (Prod.mk.inj (Except.ok.inj run)).2.symm

theorem release_ok (self : UsizePacketIdentifierStore) {id : PacketIdentifier}
    (fits : bit id < Target.pointerWidth) : ∃ s', self.release id = .ok s' := by
  unfold release
  rw [if_pos fits]
  exact ⟨_, rfl⟩

theorem release_usage {self s' : UsizePacketIdentifierStore} {id : PacketIdentifier}
    (run : self.release id = .ok s') : s'.usage = Function.update self.usage id none := by
  unfold release at run
  split at run
  next fits =>
    obtain rfl := Except.ok.inj run
    funext other
    by_cases same : other = id
    · subst same
      rw [Function.update_self, usage_eq_none]
      simp only [BitVec.getLsbD_and, BitVec.getLsbD_not, getLsbD_mask fits]
      simp
    · have apart : decide (bit id = bit other) = false :=
        decide_eq_false fun h => same (bit_injective h.symm)
      rw [Function.update_of_ne same]
      simp only [usage, BitVec.getLsbD_and, BitVec.getLsbD_not, getLsbD_mask fits, apart]
      cases used : self.slots.getLsbD (bit other) with
      | false => rfl
      | true => simp [BitVec.lt_of_getLsbD used]
  next => simp at run

theorem releaseNonPublishSlots_usage (self : UsizePacketIdentifierStore) (id : PacketIdentifier) :
    self.releaseNonPublishSlots.usage id = (self.usage id).filter (·.isPublish) := by
  simp only [usage, releaseNonPublishSlots, BitVec.getLsbD_and]
  cases self.slots.getLsbD (bit id) <;> cases self.isPublish.getLsbD (bit id) <;> rfl

theorem contains_usage (self : UsizePacketIdentifierStore) (id : PacketIdentifier) :
    self.contains id = (self.usage id).isSome := by
  unfold contains
  split
  next outside => simp [usage, usageOfBits, BitVec.getLsbD_of_ge _ _ outside]
  next inside =>
    have zero := and_mask_eq_zero (x := self.slots) (Nat.lt_of_not_le inside)
    cases used : self.slots.getLsbD (bit id) with
    | false => simp [usage, usageOfBits, used, zero.mpr used]
    | true =>
      have set : self.slots &&& mask (bit id) ≠ 0 := fun h => by simp [zero.mp h] at used
      simpa [usage, usageOfBits, used] using set

instance : LawfulStore UsizePacketIdentifierStore where
  usage := usage
  getNextFree_usage run := by
    obtain ⟨fits, free, -, rfl⟩ := getNextFree_eq run
    exact ⟨usage_eq_none.mpr free, take_usage fits free _⟩
  release_usage := release_usage
  releaseNonPublishSlots_usage := releaseNonPublishSlots_usage
  contains_usage := contains_usage

end UsizePacketIdentifierStore

end Core
