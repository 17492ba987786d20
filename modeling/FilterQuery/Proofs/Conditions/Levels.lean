import FilterQuery.Proofs.Conditions.Walk
/-!
# The levels that conditions record

Every condition below a chain of nested fields has the hints of its level, and every level of
sub-filters has at least the condition that its document is there.  The levels that the
conditions of a filter record are therefore those from one to its height, whatever the
sub-filters ask for besides.
-/

namespace FilterQuery

theorem Hints.below_append_singleton (start : Nat) (chain : List String) (name : String) :
    Hints.below start (chain ++ [name]) = .linked (start + chain.length) := by
  cases chain with
  | nil => rfl
  | cons head inner =>
      rw [List.cons_append, Hints.below, List.length_append]
      rfl

theorem DeclaredField.hints_of_conditionBelow? {start : Nat} {chain : List String}
    {declared : DeclaredField} {constants : Constants} {value : Value} {condition : Condition}
    (hcondition : declared.conditionBelow? start chain constants value = some condition) :
    condition.hints = .below start chain := by
  unfold DeclaredField.conditionBelow? at hcondition
  split at hcondition
  · obtain ⟨expression, _, rfl⟩ := Option.map_eq_some_iff.1 hcondition
    rfl
  · split at hcondition <;> cases hcondition <;> rfl

theorem Filter.hints_of_mem_walk (start : Nat) (filter : Filter) :
    ∀ (chain : List String) (condition : Condition), condition ∈ filter.walk start chain →
      condition.hints = .below start chain ∨
        ∃ levels < filter.height, condition.hints = .linked (start + chain.length + levels) := by
  refine Filter.induction
    (P := fun filter => ∀ chain condition, condition ∈ filter.walk start chain →
      condition.hints = .below start chain ∨
        ∃ levels < filter.height, condition.hints = .linked (start + chain.length + levels))
    (Q := fun slots => ∀ chain constants condition,
      condition ∈ Slot.walk start chain constants slots →
      condition.hints = .below start chain ∨
        ∃ levels < Slot.height slots,
          condition.hints = .linked (start + chain.length + levels))
    ?filter ?nil ?unset ?null ?leaf ?sub filter
  case filter =>
    intro name slots constants ordering hslots chain condition hmem
    exact hslots chain constants condition hmem
  case nil =>
    intro chain constants condition hmem
    cases hmem
  case unset =>
    intro declared rest ih
    exact ih
  case null =>
    intro declared rest ih chain constants condition hmem
    rw [Slot.height_null]
    exact ih chain constants condition hmem
  case leaf =>
    intro declared value rest hleaf ih chain constants condition hmem
    rw [Slot.walk_leaf _ _ _ _ _ hleaf] at hmem
    rw [Slot.height_leaf _ _ hleaf]
    rcases List.mem_append.1 hmem with hhead | hrest
    · exact .inl (DeclaredField.hints_of_conditionBelow? (Option.mem_toList.1 hhead))
    · exact ih chain constants condition hrest
  case sub =>
    intro declared sub rest hsub ih chain constants condition hmem
    cases hempty : sub.isEmpty with
    | true =>
        rw [Slot.walk_sub_of_isEmpty _ _ _ _ _ hempty] at hmem
        rw [Slot.height_sub_of_isEmpty _ _ hempty]
        exact ih chain constants condition hmem
    | false =>
        rw [Slot.walk_sub _ _ _ _ _ hempty] at hmem
        rw [Slot.height_sub _ _ hempty]
        rcases List.mem_append.1 hmem with hmem | hrest
        · -- The link and the conditions on its document itself record one level, those further
          -- down a greater one.
          right
          rcases List.mem_cons.1 hmem with rfl | hbelow
          · exact ⟨0, by omega, rfl⟩
          rcases hsub _ condition hbelow with hhints | ⟨levels, hlt, hhints⟩
          · exact ⟨0, by omega, hhints.trans (Hints.below_append_singleton _ _ _)⟩
          · refine ⟨levels + 1, by omega, hhints.trans (congrArg Hints.linked ?_)⟩
            rw [List.length_append, List.length_singleton]
            omega
        · exact (ih chain constants condition hrest).imp_right fun ⟨levels, hlt, hhints⟩ =>
            ⟨levels, by omega, hhints⟩

/-- A sub-filter that holds a value is walked, after the condition that its document is
there. -/
theorem Slot.subset_walk {start : Nat} {chain : List String} {constants : Constants}
    {slots : List Slot} {declared : DeclaredField} {sub : Filter}
    (hslot : ⟨declared, some (.sub sub)⟩ ∈ slots) (hset : sub.isEmpty = false) :
    .guardBelow start chain declared.name :: sub.walk start (chain ++ [declared.name]) ⊆
      Slot.walk start chain constants slots := by
  induction slots with
  | nil => cases hslot
  | cons slot rest ih =>
      rcases List.mem_cons.1 hslot with rfl | hrest
      · rw [Slot.walk_sub _ _ _ _ _ hset]
        exact List.subset_append_left _ _
      · obtain ⟨other, _ | value⟩ := slot
        · exact ih hrest
        · exact List.Subset.trans (ih hrest) (List.subset_append_right _ _)

theorem Filter.exists_level_mem_walk {levels : Nat} {filter : Filter}
    (hlevels : levels < filter.height) (start : Nat) (chain : List String) :
    ∃ condition ∈ filter.walk start chain,
      condition.hints = .linked (start + chain.length + levels) := by
  induction levels generalizing filter chain with
  | zero =>
      obtain ⟨name, slots, constants, ordering⟩ := filter
      obtain ⟨declared, sub, hslot, hset, _⟩ := Slot.lt_height_iff.1 hlevels
      exact ⟨_, Slot.subset_walk hslot hset List.mem_cons_self, rfl⟩
  | succ levels ih =>
      obtain ⟨name, slots, constants, ordering⟩ := filter
      obtain ⟨declared, sub, hslot, hset, hlt⟩ := Slot.lt_height_iff.1 hlevels
      obtain ⟨condition, hmem, hhints⟩ := ih hlt (chain ++ [declared.name])
      refine ⟨condition, Slot.subset_walk hslot hset (.tail _ hmem), ?_⟩
      rw [hhints, List.length_append, List.length_singleton]
      congr 1
      omega

theorem Filter.hints_of_mem_walk_one {filter : Filter} {condition : Condition}
    (hmem : condition ∈ filter.walk 1 []) :
    condition.hints = {} ∨
      ∃ depth, 1 ≤ depth ∧ depth ≤ filter.height ∧ condition.hints = .linked depth := by
  refine (filter.hints_of_mem_walk 1 [] condition hmem).imp_right ?_
  rintro ⟨levels, hlt, hhints⟩
  exact ⟨1 + levels, by omega, by omega, hhints⟩

/-- The levels that the conditions of a filter record are those from one to its height. -/
theorem Filter.exists_depth_iff {filter : Filter} {depth : Nat} :
    (∃ condition ∈ filter.walk 1 [], condition.hints.depth = some depth) ↔
      1 ≤ depth ∧ depth ≤ filter.height := by
  constructor
  · rintro ⟨condition, hmem, hdepth⟩
    rcases Filter.hints_of_mem_walk_one hmem with hhints | ⟨level, hone, hle, hhints⟩
    · rw [hhints] at hdepth
      cases hdepth
    · rw [hhints] at hdepth
      cases hdepth
      exact ⟨hone, hle⟩
  · rintro ⟨hone, hle⟩
    obtain ⟨condition, hmem, hhints⟩ :=
      Filter.exists_level_mem_walk (Nat.sub_one_lt_of_le hone hle) 1 []
    refine ⟨condition, hmem, ?_⟩
    rw [hhints, List.length_nil, Nat.add_zero, Nat.add_sub_cancel' hone]
    rfl

theorem Filter.fetchLinks_iff_of_mem_walk {filter : Filter} {condition : Condition}
    (hmem : condition ∈ filter.walk 1 []) :
    condition.hints.fetchLinks ↔ condition.hints.depth.isSome := by
  rcases Filter.hints_of_mem_walk_one hmem with hhints | ⟨depth, _, _, hhints⟩
  · simp [hhints]
  · simp [hhints, Hints.linked]

end FilterQuery
