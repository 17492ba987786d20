import FilterQuery.Proofs.Filter.Induction
import Mathlib.Order.Bounds.Defs
import Mathlib.Order.MinMax
/-!
# The height of a filter

The height is the number of levels of sub-filters below a filter.  Only sub-filters
that hold a value count, so nulls and empty sub-filters add no level.  It is the length of
the longest chain of such sub-filters, each held by the one before it.
-/

namespace FilterQuery

mutual

def Value.height : Value → Nat
  | .sub filter => if filter.isEmpty then 0 else filter.height + 1
  | _ => 0

def Slot.height : List Slot → Nat
  | [] => 0
  | ⟨_, none⟩ :: rest => Slot.height rest
  | ⟨_, some value⟩ :: rest => max value.height (Slot.height rest)

/-- The number of levels of sub-filters below a filter. -/
def Filter.height : Filter → Nat
  | ⟨_, slots, _, _⟩ => Slot.height slots

end

namespace Slot

variable (declared : DeclaredField) (rest : List Slot)

@[simp] theorem height_nil : Slot.height [] = 0 := rfl

@[simp] theorem height_unset : Slot.height (⟨declared, none⟩ :: rest) = Slot.height rest :=
  rfl

@[simp] theorem height_null :
    Slot.height (⟨declared, some (.scalar .null)⟩ :: rest) = Slot.height rest := by
  simp [Slot.height, Value.height]

theorem height_leaf {value : Value} (hleaf : value.isLeaf) :
    Slot.height (⟨declared, some value⟩ :: rest) = Slot.height rest := by
  cases value with
  | sub filter => simp [Value.isLeaf] at hleaf
  | scalar json => simp [Slot.height, Value.height]
  | list items => simp [Slot.height, Value.height]
  | bool b => simp [Slot.height, Value.height]

theorem height_sub_of_isEmpty {filter : Filter} (hempty : filter.isEmpty) :
    Slot.height (⟨declared, some (.sub filter)⟩ :: rest) = Slot.height rest := by
  simp [Slot.height, Value.height, hempty]

theorem height_sub {filter : Filter} (hempty : filter.isEmpty = false) :
    Slot.height (⟨declared, some (.sub filter)⟩ :: rest) =
      max (filter.height + 1) (Slot.height rest) := by
  simp [Slot.height, Value.height, hempty]

/-! ## Chains of sub-filters -/

theorem lt_height_iff {slots : List Slot} {levels : Nat} :
    levels < Slot.height slots ↔
      ∃ declared sub, ⟨declared, some (.sub sub)⟩ ∈ slots ∧ sub.isEmpty = false ∧
        levels ≤ sub.height := by
  induction slots with
  | nil => simp
  | cons slot rest ih =>
      obtain ⟨declared, _ | value⟩ := slot
      · simp [ih]
      rcases value.isLeaf_cases with rfl | ⟨filter, rfl⟩ | hleaf
      · simp [ih]
      · cases hempty : filter.isEmpty with
        | true =>
            rw [height_sub_of_isEmpty _ _ hempty, ih]
            grind
        | false =>
            rw [height_sub _ _ hempty, lt_max_iff, ih, Nat.lt_succ_iff]
            grind
      · have hvalue : ∀ filter, value ≠ .sub filter := by
          rintro filter rfl
          cases hleaf
        rw [height_leaf _ _ hleaf, ih]
        grind

end Slot

namespace Filter

/-- Sub-filters that hold a value, the first of them held by a filter and each other by the
one before it. -/
inductive Nests : Filter → List Filter → Prop
  | nil (filter : Filter) : Nests filter []
  | cons {filter sub : Filter} {declared : DeclaredField} {inner : List Filter}
      (hslot : ⟨declared, some (.sub sub)⟩ ∈ filter.slots) (hset : sub.isEmpty = false)
      (hinner : Nests sub inner) : Nests filter (sub :: inner)

theorem exists_nests_iff {filter : Filter} {levels : Nat} :
    (∃ chain, filter.Nests chain ∧ chain.length = levels) ↔ levels ≤ filter.height := by
  induction levels generalizing filter with
  | zero => exact ⟨fun _ => Nat.zero_le _, fun _ => ⟨[], .nil filter, rfl⟩⟩
  | succ levels ih =>
      obtain ⟨name, slots, constants, ordering⟩ := filter
      rw [Nat.succ_le_iff, height, Slot.lt_height_iff]
      constructor
      · rintro ⟨_, hnests, hlength⟩
        cases hnests with
        | nil => cases hlength
        | cons hslot hset hinner =>
            exact ⟨_, _, hslot, hset, ih.1 ⟨_, hinner, Nat.succ_inj.1 hlength⟩⟩
      · rintro ⟨declared, sub, hslot, hset, hle⟩
        obtain ⟨inner, hinner, hlength⟩ := ih.2 hle
        exact ⟨sub :: inner, .cons hslot hset hinner, by rw [List.length_cons, hlength]⟩

/-- The height of a filter is the length of the longest chain of sub-filters below it. -/
theorem isGreatest_height (filter : Filter) :
    IsGreatest {levels | ∃ chain, filter.Nests chain ∧ chain.length = levels} filter.height :=
  ⟨exists_nests_iff.2 (Nat.le_refl _), fun _ hlevels => exists_nests_iff.1 hlevels⟩

end Filter

end FilterQuery
