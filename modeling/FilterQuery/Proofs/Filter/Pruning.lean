import FilterQuery.Proofs.Conditions.Origin
import FilterQuery.Proofs.Filter.Runs
/-!
# Pruning a filter

A null and an empty sub-filter count as no value, at any depth.  Pruning a filter clears the
fields that hold them, from the top down.  Emptiness and conditions are found by recursions of
their own; neither can tell a filter from the pruned one, and the nesting of what is cleared is
never looked at.
-/

namespace FilterQuery

mutual

def Value.prune? : Value → Option Value
  | .scalar .null => none
  | .sub filter => if filter.isEmpty then none else some (.sub filter.prune)
  | value => some value

def Slot.prune : List Slot → List Slot
  | [] => []
  | ⟨declared, none⟩ :: rest => ⟨declared, none⟩ :: Slot.prune rest
  | ⟨declared, some value⟩ :: rest => ⟨declared, value.prune?⟩ :: Slot.prune rest

/-- A filter with every null and every empty sub-filter cleared, at every level. -/
def Filter.prune : Filter → Filter
  | ⟨name, slots, constants, ordering⟩ => ⟨name, Slot.prune slots, constants, ordering⟩

end

namespace Slot

variable (declared : DeclaredField) (rest : List Slot)

@[simp] theorem prune_nil : Slot.prune [] = [] := rfl

@[simp] theorem prune_unset :
    Slot.prune (⟨declared, none⟩ :: rest) = ⟨declared, none⟩ :: Slot.prune rest := rfl

@[simp] theorem prune_null :
    Slot.prune (⟨declared, some (.scalar .null)⟩ :: rest) =
      ⟨declared, none⟩ :: Slot.prune rest := rfl

theorem prune_leaf {value : Value} (hleaf : value.isLeaf) :
    Slot.prune (⟨declared, some value⟩ :: rest) =
      ⟨declared, some value⟩ :: Slot.prune rest := by
  have hvalue : value.prune? = some value := by
    cases value with
    | sub filter => simp [Value.isLeaf] at hleaf
    | scalar json => cases json <;> simp_all [Value.isLeaf, Value.prune?]
    | list items => rfl
    | bool b => rfl
  rw [Slot.prune, hvalue]

theorem prune_sub_of_isEmpty {filter : Filter} (hempty : filter.isEmpty) :
    Slot.prune (⟨declared, some (.sub filter)⟩ :: rest) =
      ⟨declared, none⟩ :: Slot.prune rest := by
  simp [Slot.prune, Value.prune?, hempty]

theorem prune_sub {filter : Filter} (hempty : filter.isEmpty = false) :
    Slot.prune (⟨declared, some (.sub filter)⟩ :: rest) =
      ⟨declared, some (.sub filter.prune)⟩ :: Slot.prune rest := by
  simp [Slot.prune, Value.prune?, hempty]

end Slot

/-! ## Nothing that is cleared is seen -/

namespace Filter

theorem isEmpty_prune (filter : Filter) : filter.prune.isEmpty = filter.isEmpty := by
  refine Filter.induction (P := fun filter => filter.prune.isEmpty = filter.isEmpty)
    (Q := fun slots => Slot.allVoid (Slot.prune slots) = Slot.allVoid slots)
    ?filter ?nil ?unset ?null ?leaf ?sub filter
  case filter =>
    intro name slots constants ordering hslots
    rwa [prune, isEmpty, isEmpty]
  case nil => rfl
  case unset =>
    intro declared rest ih
    simpa [Slot.allVoid] using ih
  case null =>
    intro declared rest ih
    simpa [Slot.allVoid, Value.isVoid] using ih
  case leaf =>
    intro declared value rest hleaf _
    rw [Slot.prune_leaf _ _ hleaf, Slot.allVoid, Slot.allVoid, Value.isVoid_of_isLeaf hleaf,
      Bool.false_and, Bool.false_and]
  case sub =>
    intro declared sub rest hsub ih
    by_cases hempty : sub.isEmpty
    · rw [Slot.prune_sub_of_isEmpty _ _ hempty]
      simpa [Slot.allVoid, Value.isVoid, hempty] using ih
    · rw [Bool.not_eq_true] at hempty
      rw [Slot.prune_sub _ _ hempty]
      simp [Slot.allVoid, Value.isVoid, hsub, hempty]

/-- Pruning changes neither the conditions nor why there are none. -/
theorem conditions_prune (limit : Nat) (filter : Filter) : ∀ depth,
    filter.prune.conditions limit depth = filter.conditions limit depth := by
  refine Filter.induction
    (P := fun filter => ∀ depth, filter.prune.conditions limit depth =
      filter.conditions limit depth)
    (Q := fun slots => ∀ depth constants, Slot.conditions limit depth constants
      (Slot.prune slots) = Slot.conditions limit depth constants slots)
    ?filter ?nil ?unset ?null ?leaf ?sub filter
  case filter =>
    intro name slots constants ordering hslots depth
    rw [prune, conditions, conditions, hslots]
  case nil =>
    intro depth constants
    rfl
  case unset =>
    intro declared rest ih depth constants
    rw [Slot.prune_unset, Slot.conditions_unset, Slot.conditions_unset, ih]
  case null =>
    intro declared rest ih depth constants
    rw [Slot.prune_null, Slot.conditions_unset, Slot.conditions_null, ih]
  case leaf =>
    intro declared value rest hleaf ih depth constants
    rw [Slot.prune_leaf _ _ hleaf, Slot.conditions_leaf _ _ _ _ _ hleaf,
      Slot.conditions_leaf _ _ _ _ _ hleaf, ih]
  case sub =>
    intro declared sub rest hsub ih depth constants
    by_cases hempty : sub.isEmpty
    · -- The level below is not entered, so it does not matter how deep it lies.
      have hnothing : sub.linkedConditions limit declared.name depth = .ok [] := if_pos hempty
      rw [Slot.prune_sub_of_isEmpty _ _ hempty, Slot.conditions_unset, Slot.conditions_sub,
        hnothing, ih]
      cases Slot.conditions limit depth constants rest <;> rfl
    · rw [Bool.not_eq_true] at hempty
      have hbelow : sub.prune.linkedConditions limit declared.name depth =
          sub.linkedConditions limit declared.name depth := by
        rw [linkedConditions, linkedConditions, isEmpty_prune, hsub]
      rw [Slot.prune_sub _ _ hempty, Slot.conditions_sub, Slot.conditions_sub, hbelow, ih]

end Filter

/-! ## What is left -/

/-- Whether no value counts as none, of the filter and of the filters it contains. -/
def Filter.Pruned (filter : Filter) : Prop :=
  ∀ inner, filter.Contains inner → ∀ slot ∈ inner.slots, ∀ value, slot.value = some value →
    value.isVoid = false

def Slot.AllPruned (slots : List Slot) : Prop :=
  ∀ slot ∈ slots, ∀ value, slot.value = some value →
    value.isVoid = false ∧ ∀ sub, value = .sub sub → sub.Pruned

namespace Slot

variable {declared : DeclaredField} {rest : List Slot} (hrest : Slot.AllPruned rest)

include hrest

theorem AllPruned.unset : Slot.AllPruned (⟨declared, none⟩ :: rest) := by
  intro slot hmem value hvalue
  rcases List.mem_cons.1 hmem with rfl | hmem
  · cases hvalue
  · exact hrest slot hmem value hvalue

theorem AllPruned.cons {value : Value} (hset : value.isVoid = false)
    (hbelow : ∀ sub, value = .sub sub → sub.Pruned) :
    Slot.AllPruned (⟨declared, some value⟩ :: rest) := by
  intro slot hmem held hheld
  rcases List.mem_cons.1 hmem with rfl | hmem
  · cases hheld
    exact ⟨hset, hbelow⟩
  · exact hrest slot hmem held hheld

end Slot

namespace Filter

theorem pruned_of_slots {filter : Filter} (hslots : Slot.AllPruned filter.slots) :
    filter.Pruned := by
  intro inner hinner slot hmem value hvalue
  cases hinner with
  | self => exact (hslots slot hmem value hvalue).1
  | @deeper _ sub _ declared hslot hinner =>
      have hsub : sub.Pruned := (hslots _ hslot _ rfl).2 sub rfl
      exact hsub inner hinner slot hmem value hvalue

theorem pruned_prune (filter : Filter) : filter.prune.Pruned := by
  refine Filter.induction (P := fun filter => filter.prune.Pruned)
    (Q := fun slots => Slot.AllPruned (Slot.prune slots))
    ?filter ?nil ?unset ?null ?leaf ?sub filter
  case filter =>
    intro name slots constants ordering hslots
    exact pruned_of_slots hslots
  case nil => exact nofun
  case unset =>
    intro declared rest ih
    exact ih.unset
  case null =>
    intro declared rest ih
    exact ih.unset
  case leaf =>
    intro declared value rest hleaf ih
    rw [Slot.prune_leaf _ _ hleaf]
    refine ih.cons (Value.isVoid_of_isLeaf hleaf) ?_
    rintro sub rfl
    cases hleaf
  case sub =>
    intro declared sub rest hsub ih
    by_cases hempty : sub.isEmpty
    · rw [Slot.prune_sub_of_isEmpty _ _ hempty]
      exact ih.unset
    · rw [Bool.not_eq_true] at hempty
      rw [Slot.prune_sub _ _ hempty]
      refine ih.cons ((isEmpty_prune sub).trans hempty) ?_
      intro below heq
      cases heq
      exact hsub

end Filter

/-! ## Filters without conditions -/

theorem DeclaredField.conditionBelow?_eq_none_iff {start : Nat} {chain : List String}
    {declared : DeclaredField} {constants : Constants} {value : Value} :
    declared.conditionBelow? start chain constants value = none ↔
      declared.field.operator = some .isNull ∧ value.isTruthy := by
  unfold DeclaredField.conditionBelow?
  cases declared.field.operator with
  | none => by_cases hsearches : constants.searches declared.name <;> simp [hsearches]
  | some operator =>
      dsimp only
      rw [Option.map_eq_none_iff, operator.expression?_eq_none_iff, Option.some.injEq]

/-- Whether a field with a value asks for nothing: the value is an empty sub-filter, or the field
asks for null and the value is true. -/
def DeclaredField.AsksNothing (declared : DeclaredField) (value : Value) : Prop :=
  (∃ sub, value = .sub sub ∧ sub.isEmpty) ∨
    (declared.field.operator = some .isNull ∧ value.isTruthy)

section Walk

variable {start : Nat} {chain : List String} {constants : Constants} {declared : DeclaredField}

theorem Value.walk_eq_nil_iff {value : Value} (hset : value.isNull = false)
    (hplain : value.sub? ≠ none → declared.field.operator = none) :
    value.walk start chain constants declared = [] ↔ declared.AsksNothing value := by
  unfold DeclaredField.AsksNothing
  rcases value.isLeaf_cases with rfl | ⟨sub, rfl⟩ | hleaf
  · cases hset
  · have hoperator : declared.field.operator = none := hplain (by simp [Value.sub?])
    rw [Value.walk]
    by_cases hempty : sub.isEmpty <;> simp [hempty, hoperator]
  · have hnotsub : ¬ ∃ sub, value = .sub sub ∧ sub.isEmpty := by
      rintro ⟨sub, rfl, _⟩
      cases hleaf
    rw [Value.walk_of_isLeaf hleaf, Option.toList_eq_nil_iff,
      DeclaredField.conditionBelow?_eq_none_iff]
    exact (or_iff_right hnotsub).symm

theorem Slot.walk_eq_nil_iff {slots : List Slot} :
    Slot.walk start chain constants slots = [] ↔
      ∀ slot ∈ slots, ∀ value, slot.set? = some value →
        value.walk start chain constants slot.declared = [] := by
  induction slots with
  | nil => simp
  | cons slot rest ih =>
      rw [List.forall_mem_cons, ← ih]
      obtain ⟨declared, _ | value⟩ := slot
      · simp [Slot.set?]
      · rw [Slot.walk, List.append_eq_nil_iff]
        refine and_congr_left fun _ => ?_
        by_cases hnull : value.isNull
        · simp [Value.isNull_iff.1 hnull, Value.walk, Slot.set?_eq_some_iff, Value.isNull]
        · rw [Bool.not_eq_true] at hnull
          simp [Slot.set?_eq_some_iff, hnull]

end Walk

namespace Filter

variable {filter : Filter}

theorem Made.built (hmade : filter.Made) : filter.definition.Built := by
  obtain ⟨hbuilt, _⟩ := hmade
  rwa [definition_afterAll, definition_blank]

theorem Made.operator_of_sub (hmade : filter.Made) {slot : Slot} (hmem : slot ∈ filter.slots)
    {value : Value} (hvalue : slot.value = some value) (hsub : value.sub? ≠ none) :
    slot.declared.field.operator = none := by
  obtain ⟨holds, _⟩ := hmade.sound
  obtain ⟨sub, hsub⟩ := Option.ne_none_iff_exists'.1 hsub
  have hkind : slot.declared.kind.nested? = some sub.definition := by
    rw [← holds slot hmem value hvalue, hsub, Option.map_some]
  exact hmade.built.operator_of_nested? (declared_mem_fields hmem) hkind

theorem Made.walk_eq_nil_iff (hmade : filter.Made) (start : Nat) (chain : List String) :
    filter.walk start chain = [] ↔
      ∀ entry ∈ filter.setFields, entry.1.AsksNothing entry.2 := by
  have hwalk : filter.walk start chain = Slot.walk start chain filter.constants filter.slots := by
    cases filter
    rfl
  have hslot : ∀ slot ∈ filter.slots, ∀ value, slot.set? = some value →
      (value.walk start chain filter.constants slot.declared = [] ↔
        slot.declared.AsksNothing value) := by
    intro slot hmem value hset
    obtain ⟨hvalue, hnull⟩ := Slot.set?_eq_some_iff.1 hset
    exact Value.walk_eq_nil_iff hnull (hmade.operator_of_sub hmem hvalue)
  rw [hwalk, Slot.walk_eq_nil_iff]
  constructor
  · rintro hnothing ⟨declared, value⟩ hentry
    obtain ⟨slot, hmem, rfl, hset⟩ := mem_setFields.1 hentry
    exact (hslot slot hmem value hset).1 (hnothing slot hmem value hset)
  · intro hnothing slot hmem value hset
    have hentry : (slot.declared, value) ∈ filter.setFields :=
      mem_setFields.2 ⟨slot, hmem, rfl, hset⟩
    exact (hslot slot hmem value hset).2 (hnothing _ hentry)

/-- Pruning leaves nothing that counts as no value, and nobody sees it: the pruned filter is empty
when the filter is, and has the same conditions or none for the same reason.  Where there are
conditions, there is one at least unless each set field holds an empty sub-filter, or a true value
and asks for null. -/
theorem Made.pruned_unseen (hmade : filter.Made) (limit depth : Nat) :
    filter.prune.Pruned ∧
      filter.prune.isEmpty = filter.isEmpty ∧
      filter.prune.conditions limit depth = filter.conditions limit depth ∧
      ∀ conditions, filter.conditions limit depth = .ok conditions →
        (conditions = [] ↔ ∀ entry ∈ filter.setFields,
          (∃ sub, entry.2 = .sub sub ∧ sub.isEmpty) ∨
            (entry.1.field.operator = some .isNull ∧ entry.2.isTruthy)) := by
  refine ⟨pruned_prune filter, isEmpty_prune filter, conditions_prune limit filter depth, ?_⟩
  intro conditions hconditions
  obtain ⟨_, _, rfl⟩ := conditions_eq_ok_iff.1 hconditions
  exact hmade.walk_eq_nil_iff depth []

end Filter

/-! ## A note without a writer -/

namespace Definition.Sample

def unnamedWriter : Filter :=
  (Filter.blank writer).afterAll [.set "name" (.scalar .null)]

def noteFilter : Filter :=
  (Filter.blank note).afterAll
    [.set "gone__isnull" (.bool true), .set "writer" (.sub unnamedWriter)]

theorem unnamedWriter_made : unnamedWriter.Made := by
  refine .of_calls writer_built ?_
  intro call hmem sub hvalue
  cases List.mem_singleton.1 hmem
  cases hvalue

theorem noteFilter_made : noteFilter.Made := by
  refine .of_calls note_built ?_
  intro call hmem sub hvalue
  simp only [List.mem_cons, List.not_mem_nil, or_false] at hmem
  rcases hmem with rfl | rfl <;> cases hvalue
  exact unnamedWriter_made

/-- The writer is empty and lies beyond the limit, and the note asks for null: the pruned note
has one field set, neither is empty, and there are no conditions. -/
theorem note_pruned :
    noteFilter.Made ∧ noteFilter.isEmpty = false ∧ noteFilter.prune.isEmpty = false ∧
      noteFilter.prune.setFields.length = 1 ∧
      noteFilter.conditions 1 1 = .ok [] ∧ noteFilter.prune.conditions 1 1 = .ok [] ∧
      ∀ entry ∈ noteFilter.setFields,
        (∃ sub, entry.2 = .sub sub ∧ sub.isEmpty) ∨
          (entry.1.field.operator = some .isNull ∧ entry.2.isTruthy) := by
  have hempty : noteFilter.isEmpty = false := by rfl
  have hconditions : noteFilter.conditions 1 1 = .ok [] := by rfl
  obtain ⟨_, hprune, hsame, hnothing⟩ := noteFilter_made.pruned_unseen 1 1
  exact ⟨noteFilter_made, hempty, hprune.trans hempty, rfl, hconditions, hsame.trans hconditions,
    (hnothing [] hconditions).1 rfl⟩

end Definition.Sample

end FilterQuery
