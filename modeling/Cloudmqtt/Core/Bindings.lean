import Cloudmqtt.Base.LeastFree
import Cloudmqtt.Core.PacketIdentifierStore

/-! The store of two bitmaps is a map from its identifiers to their usages, which
gives out the least identifier that is free.
-/

set_option autoImplicit false

namespace Core

open Base Rust V5

def number (id : PacketIdentifier) : Nat := id.value.get.toNat

theorem number_injective : Function.Injective number := by
  intro id other same
  obtain ⟨⟨u, _⟩⟩ := id
  obtain ⟨⟨v, _⟩⟩ := other
  obtain rfl : u = v := UInt16.toNat_inj.mp same
  rfl

instance : PartialOrder PacketIdentifier := PartialOrder.lift number number_injective

inductive StoreCall where
  | getNextFree (usage : PacketIdentifierUsage)
  | release (id : PacketIdentifier)
  | releaseNonPublishSlots
  | contains (id : PacketIdentifier)

def StoreCall.request : StoreCall → Request PacketIdentifier PacketIdentifierUsage
  | getNextFree usage => .bind usage
  | release id => .unbind id
  | releaseNonPublishSlots => .unbindUnless (·.isPublish)
  | contains id => .isBound id

def call {σ : Type} [PacketIdentifierStore σ] (store : σ) :
    StoreCall → Except Panic (Response PacketIdentifier × σ)
  | .getNextFree usage =>
    (PacketIdentifierStore.getNextFree store usage).map fun (id, store) => (.bound id, store)
  | .release id => (PacketIdentifierStore.release store id).map fun store => (.done, store)
  | .releaseNonPublishSlots => .ok (.done, PacketIdentifierStore.releaseNonPublishSlots store)
  | .contains id => .ok (.isBound (PacketIdentifierStore.contains store id), store)

def identifiers [Target] : Set PacketIdentifier := {id | number id ∈ Set.Icc 1 Target.pointerWidth}

abbrev MapRun [Target] : List (Entry (Bindings identifiers PacketIdentifierUsage) StoreCall
    (Response PacketIdentifier)) → Bindings identifiers PacketIdentifierUsage → Prop :=
  Run (fun self method => self.Answers method.request) .empty

namespace UsizePacketIdentifierStore

theorem number_eq (id : PacketIdentifier) : number id = bit id + 1 := by
  have nonzero : id.value.get.toNat ≠ 0 := fun zero => id.value.nonzero (UInt16.toNat_inj.mp zero)
  rw [number, bit]
  omega

section

variable [Target]

theorem mem_identifiers {id : PacketIdentifier} :
    id ∈ identifiers ↔ bit id < Target.pointerWidth := by
  rw [identifiers, Set.mem_ofPred_eq, Set.mem_Icc, number_eq]
  omega

/-- The map a store stands for. -/
def bindings (self : UsizePacketIdentifierStore) :
    Bindings identifiers PacketIdentifierUsage where
  use := self.usage
  within {id} used := by
    rw [mem_identifiers]
    by_contra outside
    apply used
    rw [usage_eq_none]
    exact BitVec.getLsbD_of_ge _ _ (Nat.le_of_not_lt outside)

theorem free_iff {self : UsizePacketIdentifierStore} {id : PacketIdentifier} :
    self.bindings.Free id ↔
      bit id < Target.pointerWidth ∧ self.slots.getLsbD (bit id) = false := by
  rw [Bindings.Free, mem_identifiers]
  exact and_congr_right' usage_eq_none

theorem bindings_new : new.bindings = .empty := by
  apply Bindings.ext
  exact new_usage

theorem getNextFree_answers {self next : UsizePacketIdentifierStore} {u : PacketIdentifierUsage}
    {id : Option PacketIdentifier} (run : self.getNextFree u = .ok (id, next)) :
    self.bindings.Answers (.bind u) (.bound id) next.bindings := by
  cases id with
  | some id =>
    obtain ⟨fits, clear, below, rfl⟩ := getNextFree_eq run
    have least : IsLeast {id | self.bindings.Free id} id := by
      constructor
      · exact free_iff.mpr ⟨fits, clear⟩
      · intro other free
        have unset := (free_iff.mp free).2
        have above : ¬ bit other < bit id := fun less => by
          rw [below _ less] at unset
          cases unset
        show number id ≤ number other
        rw [number_eq, number_eq]
        omega
    have taken : (self.take (bit id) u).bindings = self.bindings.bind least.1.1 u := by
      apply Bindings.ext
      exact congrFun (take_usage fits clear u)
    rw [taken]
    exact .least least
  | none =>
    have full := (getNextFree_eq_none run).mp rfl
    obtain rfl := getNextFree_unchanged run
    apply Bindings.Answers.full
    intro id free
    obtain ⟨fits, clear⟩ := free_iff.mp free
    rw [full, BitVec.getLsbD_allOnes, decide_eq_true fits] at clear
    cases clear

/-- Every method answers as the map does; `release` must be given an identifier of the store. -/
theorem call_answers (self : UsizePacketIdentifierStore) (method : StoreCall)
    (inside : ∀ id, method = .release id → id ∈ identifiers) : ∃ response next,
    call self method = .ok (response, next) ∧
      self.bindings.Answers method.request response next.bindings := by
  cases method with
  | getNextFree u =>
    obtain ⟨⟨id, next⟩, run⟩ := self.getNextFree_ok u
    refine ⟨.bound id, next, ?_, getNextFree_answers run⟩
    exact congrArg (Except.map _) run
  | release id =>
    obtain ⟨next, run⟩ := release_ok self (mem_identifiers.mp (inside id rfl))
    have released : next.bindings = self.bindings.unbind id := by
      apply Bindings.ext
      exact congrFun (release_usage run)
    refine ⟨.done, next, congrArg (Except.map _) run, ?_⟩
    rw [released]
    exact .unbind
  | releaseNonPublishSlots =>
    have kept : self.releaseNonPublishSlots.bindings =
        self.bindings.unbindUnless (·.isPublish) := by
      apply Bindings.ext
      exact releaseNonPublishSlots_usage self
    refine ⟨.done, self.releaseNonPublishSlots, rfl, ?_⟩
    rw [kept]
    exact .unbindUnless
  | contains id =>
    refine ⟨.isBound (self.contains id), self, rfl, ?_⟩
    rw [contains_usage]
    exact .isBound

/-- The calls on an empty store are answered, as the map answers them and in no
other way. -/
def AnsweredAsMap (calls : List StoreCall) : Prop :=
  ∃ trace final, answerAll call new calls = .ok (trace.map (·.output), final) ∧
    MapRun trace final.bindings ∧ trace.map (·.input) = calls ∧
    ∀ trace' final', MapRun trace' final' → trace'.map (·.input) = calls → trace' = trace

theorem calls_refine (calls : List StoreCall)
    (inside : ∀ id, .release id ∈ calls → id ∈ identifiers) : AnsweredAsMap calls := by
  have allowed : ∀ method ∈ calls, ∀ id, method = .release id → id ∈ identifiers := by
    rintro method member id rfl
    exact inside id member
  obtain ⟨trace, final, answered, run, inputs⟩ := answerAll_refines
    (fun self method => self.Answers method.request) bindings call_answers new allowed
  rw [bindings_new] at run
  refine ⟨trace, final, answered, run, inputs, fun trace' final' run' inputs' => ?_⟩
  have same := run'.unique Bindings.Answers.deterministic run (inputs'.trans inputs.symm)
  exact same.1

end

attribute [local instance] x86_64

def reuse : List StoreCall :=
  [.getNextFree .nonPublish, .getNextFree .publish, .releaseNonPublishSlots,
    .release ⟨⟨2, by decide⟩⟩, .contains ⟨⟨2, by decide⟩⟩, .contains ⟨⟨65, by decide⟩⟩]

theorem calls_refine_reuse :
    (∀ id, .release id ∈ reuse → id ∈ identifiers) ∧ AnsweredAsMap reuse := by
  have inside : ∀ id, .release id ∈ reuse → id ∈ identifiers := by
    intro id member
    simp only [reuse, List.mem_cons, reduceCtorEq, StoreCall.release.injEq, List.not_mem_nil,
      or_false, false_or] at member
    rw [member, mem_identifiers]
    decide
  exact ⟨inside, calls_refine reuse inside⟩

end UsizePacketIdentifierStore

end Core
