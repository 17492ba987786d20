import FilterQuery.Filter.Conditions
/-!
# Induction over filters

A filter is a tree: a slot holds nothing, a null, a value of its own, or a filter
further down.  The operations on filters tell exactly these four apart, so one
induction principle with a case for each carries all their laws.
-/

namespace FilterQuery

/-- Whether a value stands for itself: it is no null and no sub-filter. -/
def Value.isLeaf : Value → Bool
  | .scalar .null => false
  | .sub _ => false
  | _ => true

theorem Value.isLeaf_cases (value : Value) :
    value = .scalar .null ∨ (∃ filter, value = .sub filter) ∨ value.isLeaf := by
  cases value with
  | scalar json => cases json <;> simp [Value.isLeaf]
  | list items => simp [Value.isLeaf]
  | bool b => simp [Value.isLeaf]
  | sub filter => simp

section Leaf

variable {value : Value} (hleaf : value.isLeaf)

include hleaf

theorem Value.isVoid_of_isLeaf : value.isVoid = false := by
  cases value with
  | scalar json => cases json <;> simp_all [Value.isLeaf, Value.isVoid]
  | list items => rfl
  | bool b => rfl
  | sub filter => simp [Value.isLeaf] at hleaf

theorem Value.isNull_of_isLeaf : value.isNull = false := by
  cases value with
  | scalar json => cases json <;> simp_all [Value.isLeaf, Value.isNull]
  | list items => rfl
  | bool b => rfl
  | sub filter => rfl

theorem Value.conditions_of_isLeaf (limit depth : Nat) (constants : Constants)
    (declared : DeclaredField) :
    value.conditions limit depth constants declared =
      .ok (declared.condition? constants value).toList := by
  cases value with
  | scalar json => cases json <;> simp_all [Value.isLeaf, Value.conditions]
  | list items => rfl
  | bool b => rfl
  | sub filter => simp [Value.isLeaf] at hleaf

end Leaf

namespace Filter

theorem sizeOf_sub_lt {slots : List Slot} {sub : Filter} {declared : DeclaredField}
    (hmem : (⟨declared, some (.sub sub)⟩ : Slot) ∈ slots) (name : String)
    (constants : Constants) (ordering : List String) :
    sizeOf sub < sizeOf (Filter.mk name slots constants ordering) := by
  have hslot := List.sizeOf_lt_of_mem hmem
  simp only [Slot.mk.sizeOf_spec, Option.some.sizeOf_spec, Value.sub.sizeOf_spec,
    Filter.mk.sizeOf_spec] at hslot ⊢
  omega

/-- A law of filters follows from a law of their slots, which may use the law of
filters for the sub-filters among them. -/
theorem induction {P : Filter → Prop} {Q : List Slot → Prop}
    (filter : ∀ name slots constants ordering, Q slots →
      P ⟨name, slots, constants, ordering⟩)
    (nil : Q [])
    (unset : ∀ declared rest, Q rest → Q (⟨declared, none⟩ :: rest))
    (null : ∀ declared rest, Q rest → Q (⟨declared, some (.scalar .null)⟩ :: rest))
    (leaf : ∀ declared value rest, value.isLeaf → Q rest →
      Q (⟨declared, some value⟩ :: rest))
    (sub : ∀ declared sub rest, P sub → Q rest →
      Q (⟨declared, some (.sub sub)⟩ :: rest)) : ∀ f, P f := by
  -- The recursion goes down the slots of one filter at a time, so what it needs of the
  -- sub-filters is a fact about members of that list.
  have hslots : ∀ slots : List Slot,
      (∀ declared below, ⟨declared, some (.sub below)⟩ ∈ slots → P below) → Q slots := by
    intro slots hbelow
    induction slots with
    | nil => exact nil
    | cons slot rest ih =>
        have hrest : Q rest := ih fun declared below hmem =>
          hbelow declared below (List.mem_cons_of_mem _ hmem)
        obtain ⟨declared, _ | value⟩ := slot
        · exact unset declared rest hrest
        · rcases value.isLeaf_cases with rfl | ⟨below, rfl⟩ | hleaf
          · exact null declared rest hrest
          · exact sub declared below rest (hbelow declared below List.mem_cons_self) hrest
          · exact leaf declared value rest hleaf hrest
  intro f
  induction hsize : sizeOf f using Nat.strongRecOn generalizing f with
  | _ n ih =>
      obtain ⟨name, slots, constants, ordering⟩ := f
      apply filter
      apply hslots
      intro declared below hmem
      have hlt := sizeOf_sub_lt hmem name constants ordering
      exact ih _ (hsize ▸ hlt) below rfl

end Filter

/-! ## What the operations on slots do in each case -/

namespace Slot

variable (limit depth : Nat) (constants : Constants) (declared : DeclaredField)
  (rest : List Slot)

@[simp] theorem conditions_nil : Slot.conditions limit depth constants [] = .ok [] := rfl

@[simp] theorem conditions_unset :
    Slot.conditions limit depth constants (⟨declared, none⟩ :: rest) =
      Slot.conditions limit depth constants rest := rfl

@[simp] theorem conditions_null :
    Slot.conditions limit depth constants (⟨declared, some (.scalar .null)⟩ :: rest) =
      Slot.conditions limit depth constants rest := by
  rw [Slot.conditions, Value.conditions]
  cases Slot.conditions limit depth constants rest <;> rfl

theorem conditions_leaf {value : Value} (hleaf : value.isLeaf) :
    Slot.conditions limit depth constants (⟨declared, some value⟩ :: rest) =
      (Slot.conditions limit depth constants rest).map
        ((declared.condition? constants value).toList ++ ·) := by
  rw [Slot.conditions, Value.conditions_of_isLeaf hleaf]
  cases Slot.conditions limit depth constants rest <;> rfl

theorem conditions_sub (filter : Filter) :
    Slot.conditions limit depth constants (⟨declared, some (.sub filter)⟩ :: rest) = do
      let first ← filter.linkedConditions limit declared.name depth
      return first ++ (← Slot.conditions limit depth constants rest) := by
  rw [Slot.conditions, Value.conditions_sub]

end Slot

end FilterQuery
