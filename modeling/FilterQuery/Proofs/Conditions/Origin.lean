import FilterQuery.Proofs.Conditions.Walk
/-!
# Where conditions come from

Each condition of a filter comes from one slot, of the filter or of one that it contains at some
level: a guard from a slot that holds a sub-filter, any other condition from a slot that holds a
value of its own.  What such a condition constrains by is made of that value alone.
-/

namespace FilterQuery

/-! ## Contained filters -/

/-- A filter contains itself and the sub-filters that it holds, at every level. -/
inductive Filter.Contains : Filter → Filter → Prop
  | self (filter : Filter) : Filter.Contains filter filter
  | deeper {filter sub inner : Filter} {declared : DeclaredField}
      (hslot : ⟨declared, some (.sub sub)⟩ ∈ filter.slots)
      (hinner : Filter.Contains sub inner) : Filter.Contains filter inner

/-- A condition below `start` that comes from a slot of a filter or of one that it contains. -/
inductive Condition.StemsFrom (start : Nat) (filter : Filter) : Condition → Prop
  | guard {inner sub : Filter} {declared : DeclaredField} (hinner : filter.Contains inner)
      (hslot : ⟨declared, some (.sub sub)⟩ ∈ inner.slots) (chain : List String) :
      StemsFrom start filter (.guardBelow start chain declared.name)
  | leaf {inner : Filter} {declared : DeclaredField} {value : Value} {condition : Condition}
      (hinner : filter.Contains inner) (hslot : ⟨declared, some value⟩ ∈ inner.slots)
      (hleaf : value.isLeaf) (chain : List String)
      (hcondition : declared.conditionBelow? start chain inner.constants value = some condition) :
      StemsFrom start filter condition

theorem Condition.StemsFrom.below {start : Nat} {filter sub : Filter} {declared : DeclaredField}
    {condition : Condition} (hslot : ⟨declared, some (.sub sub)⟩ ∈ filter.slots)
    (hstems : condition.StemsFrom start sub) : condition.StemsFrom start filter := by
  cases hstems with
  | guard hinner hmem chain => exact .guard (.deeper hslot hinner) hmem chain
  | leaf hinner hmem hleaf chain hcondition =>
      exact .leaf (.deeper hslot hinner) hmem hleaf chain hcondition

theorem Filter.stemsFrom_of_mem_walk (start : Nat) (filter : Filter) :
    ∀ (chain : List String) (condition : Condition), condition ∈ filter.walk start chain →
      condition.StemsFrom start filter := by
  -- Of a list of slots only those are known to stem from the filter that are among its own.
  refine Filter.induction
    (P := fun filter => ∀ chain condition, condition ∈ filter.walk start chain →
      condition.StemsFrom start filter)
    (Q := fun slots => ∀ filter : Filter, slots ⊆ filter.slots → ∀ chain condition,
      condition ∈ Slot.walk start chain filter.constants slots →
      condition.StemsFrom start filter)
    ?filter ?nil ?unset ?null ?leaf ?sub filter
  case filter =>
    intro name slots constants ordering hslots chain condition hmem
    exact hslots ⟨name, slots, constants, ordering⟩ (List.Subset.refl slots) chain condition hmem
  case nil =>
    intro filter _ chain condition hmem
    cases hmem
  case unset =>
    intro declared rest ih filter hsubset chain condition hmem
    exact ih filter (List.subset_of_cons_subset hsubset) chain condition hmem
  case null =>
    intro declared rest ih filter hsubset chain condition hmem
    exact ih filter (List.subset_of_cons_subset hsubset) chain condition hmem
  case leaf =>
    intro declared value rest hleaf ih filter hsubset chain condition hmem
    rw [Slot.walk_leaf _ _ _ _ _ hleaf] at hmem
    rcases List.mem_append.1 hmem with hhead | hrest
    · exact .leaf (.self filter) (hsubset List.mem_cons_self) hleaf chain
        (Option.mem_toList.1 hhead)
    · exact ih filter (List.subset_of_cons_subset hsubset) chain condition hrest
  case sub =>
    intro declared sub rest hsub ih filter hsubset chain condition hmem
    have hslot : ⟨declared, some (.sub sub)⟩ ∈ filter.slots := hsubset List.mem_cons_self
    have hrest := ih filter (List.subset_of_cons_subset hsubset) chain condition
    by_cases hempty : sub.isEmpty
    · rw [Slot.walk_sub_of_isEmpty _ _ _ _ _ hempty] at hmem
      exact hrest hmem
    · rw [Bool.not_eq_true] at hempty
      rw [Slot.walk_sub _ _ _ _ _ hempty] at hmem
      rcases List.mem_append.1 hmem with hmem | hmem
      · rcases List.mem_cons.1 hmem with rfl | hmem
        · exact .guard (.self filter) hslot chain
        · exact (hsub _ condition hmem).below hslot
      · exact hrest hmem

/-- Every condition of a filter comes from one slot. -/
theorem Filter.stemsFrom_of_conditions {limit depth : Nat} {filter : Filter}
    {conditions : List Condition} (hok : filter.conditions limit depth = .ok conditions)
    {condition : Condition} (hmem : condition ∈ conditions) :
    condition.StemsFrom depth filter := by
  obtain ⟨_, _, rfl⟩ := Filter.conditions_eq_ok_iff.1 hok
  exact filter.stemsFrom_of_mem_walk depth [] condition hmem

/-! ## What a condition constrains by -/

mutual

def Predicate.constraints : Predicate → List Constraint
  | .field _ constraint => [constraint]
  | .any branches => Predicate.branchConstraints branches

def Predicate.branchConstraints : List Predicate → List Constraint
  | [] => []
  | branch :: rest => branch.constraints ++ Predicate.branchConstraints rest

end

theorem Predicate.branchConstraints_eq_flatMap (branches : List Predicate) :
    branchConstraints branches = branches.flatMap constraints := by
  induction branches with
  | nil => rfl
  | cons branch rest ih => rw [branchConstraints, ih, List.flatMap_cons]

/-- The constraints that a field may put on a document for a value. -/
inductive DeclaredField.Constrains (declared : DeclaredField) (value : Value) : Constraint → Prop
  | operator {operator : Operator} {expression : Expression}
      (hoperator : declared.field.operator = some operator)
      (hexpression : operator.expression? value = some expression) :
      Constrains declared value (.meets expression)
  | search (hplain : declared.field.operator = none) :
      Constrains declared value (.meets (.contains value true))
  | equals (hplain : declared.field.operator = none) :
      Constrains declared value (.equals value.toJson)

theorem DeclaredField.constrains_of_mem {start : Nat} {chain : List String}
    {declared : DeclaredField} {constants : Constants} {value : Value} {condition : Condition}
    (hcondition : declared.conditionBelow? start chain constants value = some condition)
    {constraint : Constraint} (hmem : constraint ∈ condition.predicate.constraints) :
    declared.Constrains value constraint := by
  unfold DeclaredField.conditionBelow? at hcondition
  cases hoperator : declared.field.operator with
  | some operator =>
      rw [hoperator] at hcondition
      obtain ⟨expression, hexpression, rfl⟩ := Option.map_eq_some_iff.1 hcondition
      rw [List.mem_singleton.1 hmem]
      exact .operator hoperator hexpression
  | none =>
      rw [hoperator] at hcondition
      dsimp only at hcondition
      split at hcondition
      · cases hcondition
        rw [Predicate.constraints, Predicate.branchConstraints_eq_flatMap] at hmem
        obtain ⟨branch, hbranch, hmem⟩ := List.mem_flatMap.1 hmem
        obtain ⟨path, _, rfl⟩ := List.mem_map.1 hbranch
        rw [List.mem_singleton.1 hmem]
        exact .search hoperator
      · cases hcondition
        rw [List.mem_singleton.1 hmem]
        exact .equals hoperator

end FilterQuery
