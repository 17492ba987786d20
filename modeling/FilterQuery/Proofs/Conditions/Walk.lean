import FilterQuery.Proofs.Filter.Height
/-!
# The conditions of a filter, read from the top

The conditions of a filter are built from the inside out: each level moves what the
level below returned under its own field.  Here the same conditions are read off the
filter in one walk from the top, which carries the chain of nested fields it has gone
through.  A condition stands at the path of its chain, and its hints tell the level of
the innermost field of the chain.

`Filter.conditions_eq` says everything that taking conditions does: which levels are
refused and how, and that otherwise the walk is what comes out.
-/

namespace FilterQuery

def pathBelow (chain : List String) (path : String) : String :=
  ".".intercalate (chain ++ [path])

/-- The hints of a condition below a chain of nested fields, the outermost of which is
at level `start`. -/
def Hints.below (start : Nat) : List String → Hints
  | [] => {}
  | _ :: inner => .linked (start + inner.length)

/-- The condition that the document linked under a field is there. -/
def Condition.guardBelow (start : Nat) (chain : List String) (field : String) : Condition :=
  ⟨.field (pathBelow chain field) (.meets (.compare .ne .null)), .linked (start + chain.length)⟩

/-- The condition of a field below a chain whose value is not a sub-filter. -/
def DeclaredField.conditionBelow? (start : Nat) (chain : List String)
    (declared : DeclaredField) (constants : Constants) (value : Value) : Option Condition :=
  match declared.field.operator with
  | some operator =>
      (operator.expression? value).map fun expression =>
        ⟨.field (pathBelow chain declared.field.path) (.meets expression), .below start chain⟩
  | none =>
      if constants.searches declared.name then
        some ⟨.any (constants.searchPaths.map fun path =>
          .field (pathBelow chain path) (.meets (.contains value true))), .below start chain⟩
      else
        some ⟨.field (pathBelow chain declared.name) (.equals value.toJson),
          .below start chain⟩

mutual

def Value.walk (start : Nat) (chain : List String) (constants : Constants)
    (declared : DeclaredField) : Value → List Condition
  | .sub filter =>
      if filter.isEmpty then []
      else .guardBelow start chain declared.name ::
        filter.walk start (chain ++ [declared.name])
  | .scalar .null => []
  | value => (declared.conditionBelow? start chain constants value).toList

def Slot.walk (start : Nat) (chain : List String) (constants : Constants) :
    List Slot → List Condition
  | [] => []
  | ⟨_, none⟩ :: rest => Slot.walk start chain constants rest
  | ⟨declared, some value⟩ :: rest =>
      value.walk start chain constants declared ++ Slot.walk start chain constants rest

/-- The conditions of a filter below a chain. -/
def Filter.walk (start : Nat) (chain : List String) : Filter → List Condition
  | ⟨_, slots, constants, _⟩ => Slot.walk start chain constants slots

end

theorem Value.walk_of_isLeaf {value : Value} (hleaf : value.isLeaf) (start : Nat)
    (chain : List String) (constants : Constants) (declared : DeclaredField) :
    value.walk start chain constants declared =
      (declared.conditionBelow? start chain constants value).toList := by
  cases value with
  | sub filter => simp [Value.isLeaf] at hleaf
  | scalar json => cases json <;> simp_all [Value.isLeaf, Value.walk]
  | list items => rfl
  | bool b => rfl

namespace Slot

variable (start : Nat) (chain : List String) (constants : Constants)
  (declared : DeclaredField) (rest : List Slot)

@[simp] theorem walk_nil : Slot.walk start chain constants [] = [] := rfl

@[simp] theorem walk_unset :
    Slot.walk start chain constants (⟨declared, none⟩ :: rest) =
      Slot.walk start chain constants rest := rfl

@[simp] theorem walk_null :
    Slot.walk start chain constants (⟨declared, some (.scalar .null)⟩ :: rest) =
      Slot.walk start chain constants rest := rfl

theorem walk_leaf {value : Value} (hleaf : value.isLeaf) :
    Slot.walk start chain constants (⟨declared, some value⟩ :: rest) =
      (declared.conditionBelow? start chain constants value).toList ++
        Slot.walk start chain constants rest := by
  rw [Slot.walk, Value.walk_of_isLeaf hleaf]

theorem walk_sub_of_isEmpty {filter : Filter} (hempty : filter.isEmpty) :
    Slot.walk start chain constants (⟨declared, some (.sub filter)⟩ :: rest) =
      Slot.walk start chain constants rest := by
  simp [Slot.walk, Value.walk, hempty]

theorem walk_sub {filter : Filter} (hempty : filter.isEmpty = false) :
    Slot.walk start chain constants (⟨declared, some (.sub filter)⟩ :: rest) =
      .guardBelow start chain declared.name ::
        filter.walk start (chain ++ [declared.name]) ++
        Slot.walk start chain constants rest := by
  simp [Slot.walk, Value.walk, hempty]

end Slot

/-! ## One more field at the head of the chain -/

theorem pathBelow_nil (path : String) : pathBelow [] path = path := by
  simp [pathBelow]

theorem pathBelow_cons (name : String) (chain : List String) (path : String) :
    pathBelow (name :: chain) path = name ++ "." ++ pathBelow chain path := by
  unfold pathBelow
  rw [List.cons_append, String.intercalate_cons_of_ne_nil (by simp)]

theorem Hints.below_cons (start : Nat) (name : String) (chain : List String) :
    Hints.below start (name :: chain) =
      .merge (.linked start) (Hints.below (start + 1) chain) := by
  cases chain with
  | nil => rfl
  | cons inner chain =>
      simp only [Hints.below, Hints.merge, Hints.linked, List.length_cons, Bool.or_self,
        Option.some_or]
      congr 2
      omega

theorem Condition.guardBelow_cons (start : Nat) (name : String) (chain : List String)
    (field : String) :
    Condition.guardBelow start (name :: chain) field =
      (Condition.guardBelow (start + 1) chain field).linkedUnder name start := by
  unfold Condition.guardBelow Condition.linkedUnder
  simp only [Predicate.under, pathBelow_cons, Hints.merge, Hints.linked, List.length_cons,
    Bool.or_self, Option.some_or]
  congr 3
  omega

theorem DeclaredField.conditionBelow?_cons (start : Nat) (name : String)
    (chain : List String) (declared : DeclaredField) (constants : Constants)
    (value : Value) :
    declared.conditionBelow? start (name :: chain) constants value =
      (declared.conditionBelow? (start + 1) chain constants value).map
        (Condition.linkedUnder name start) := by
  unfold DeclaredField.conditionBelow?
  cases declared.field.operator with
  | some operator =>
      simp [Condition.linkedUnder, Predicate.under, pathBelow_cons, Hints.below_cons,
        Function.comp_def]
  | none =>
      by_cases hsearch : constants.searches declared.name
      · simp [hsearch, Condition.linkedUnder, Predicate.under,
          Predicate.branchesUnder_eq_map, pathBelow_cons, Hints.below_cons]
      · simp [hsearch, Condition.linkedUnder, Predicate.under, pathBelow_cons,
          Hints.below_cons]

/-- Below a longer chain a filter asks for the same, moved under the head of the
chain. -/
theorem Filter.walk_cons (filter : Filter) : ∀ (start : Nat) (name : String)
    (chain : List String),
    filter.walk start (name :: chain) =
      (filter.walk (start + 1) chain).map (Condition.linkedUnder name start) := by
  refine Filter.induction (P := fun filter => ∀ start name chain, filter.walk start
      (name :: chain) = (filter.walk (start + 1) chain).map (Condition.linkedUnder name start))
    (Q := fun slots => ∀ start name chain constants, Slot.walk start (name :: chain)
      constants slots =
        (Slot.walk (start + 1) chain constants slots).map (Condition.linkedUnder name start))
    ?filter ?nil ?unset ?null ?leaf ?sub filter
  case filter =>
    intro _ slots constants _ hslots start name chain
    exact hslots start name chain constants
  case nil =>
    intro start name chain constants
    rfl
  case unset =>
    intro declared rest ih start name chain constants
    simpa using ih start name chain constants
  case null =>
    intro declared rest ih start name chain constants
    simpa using ih start name chain constants
  case leaf =>
    intro declared value rest hleaf ih start name chain constants
    rw [Slot.walk_leaf _ _ _ _ _ hleaf, Slot.walk_leaf _ _ _ _ _ hleaf,
      DeclaredField.conditionBelow?_cons, ih, List.map_append, Option.toList_map]
  case sub =>
    intro declared sub rest hsub ih start name chain constants
    by_cases hempty : sub.isEmpty
    · rw [Slot.walk_sub_of_isEmpty _ _ _ _ _ hempty, Slot.walk_sub_of_isEmpty _ _ _ _ _ hempty,
        ih]
    · rw [Bool.not_eq_true] at hempty
      have hchain : sub.walk start (name :: chain ++ [declared.name]) =
          (sub.walk (start + 1) (chain ++ [declared.name])).map
            (Condition.linkedUnder name start) := hsub start name (chain ++ [declared.name])
      rw [Slot.walk_sub _ _ _ _ _ hempty, Slot.walk_sub _ _ _ _ _ hempty, ih, hchain,
        Condition.guardBelow_cons]
      simp

/-! ## What taking conditions does -/

theorem Condition.linkedAll_walk (field : String) (depth : Nat) (filter : Filter) :
    Condition.linkedAll field depth (filter.walk (depth + 1) []) =
      .guardBelow depth [] field :: filter.walk depth [field] := by
  rw [Filter.walk_cons, Condition.linkedAll, Condition.guard, Condition.guardBelow,
    pathBelow_nil]
  rfl

theorem DeclaredField.conditionBelow?_nil (start : Nat) (declared : DeclaredField)
    (constants : Constants) (value : Value) :
    declared.conditionBelow? start [] constants value = declared.condition? constants value := by
  unfold DeclaredField.conditionBelow? DeclaredField.condition?
  simp only [pathBelow_nil]
  rfl

/-- The conditions of a filter under a field, from those it has by itself one level further
down. -/
theorem Filter.linkedConditions_of_conditions {limit depth : Nat} {filter : Filter}
    (hlimit : depth ≤ limit) (hset : filter.isEmpty = false) (field : String)
    (hconditions : filter.conditions limit (depth + 1) =
      if depth + 1 = 0 then .error (.invalidDepth 0)
      else if limit < depth + 1 then .error (.tooDeep (depth + 1) limit)
      else if limit < depth + 1 + filter.height then .error (.tooDeep (limit + 1) limit)
      else .ok (filter.walk (depth + 1) [])) :
    filter.linkedConditions limit field depth =
      if limit < depth + 1 + filter.height then .error (.tooDeep (limit + 1) limit)
      else .ok (.guardBelow depth [] field :: filter.walk depth [field]) := by
  rw [Filter.linkedConditions, if_neg (by simp [hset]), hconditions,
    if_neg (Nat.succ_ne_zero depth)]
  by_cases hnext : limit < depth + 1
  · -- The first level below is then the one just beyond the limit.
    have hlevel : depth = limit := by omega
    rw [if_pos hnext, if_pos (by omega), hlevel]
    rfl
  by_cases hdeep : limit < depth + 1 + filter.height
  · rw [if_neg hnext, if_pos hdeep, if_pos hdeep]
    rfl
  · rw [if_neg hnext, if_neg hdeep, if_neg hdeep, Except.map, Condition.linkedAll_walk]

/-- A filter has conditions when its levels start at one and all lie within the limit.
A first level beyond the limit is refused as it is, any other at the level just beyond. -/
theorem Filter.conditions_eq (limit depth : Nat) (filter : Filter) :
    filter.conditions limit depth =
      if depth = 0 then .error (.invalidDepth 0)
      else if limit < depth then .error (.tooDeep depth limit)
      else if limit < depth + filter.height then .error (.tooDeep (limit + 1) limit)
      else .ok (filter.walk depth []) := by
  -- The level of a filter is checked before its slots are looked at.
  refine Filter.induction
    (P := fun filter => ∀ depth, filter.conditions limit depth =
      if depth = 0 then .error (.invalidDepth 0)
      else if limit < depth then .error (.tooDeep depth limit)
      else if limit < depth + filter.height then .error (.tooDeep (limit + 1) limit)
      else .ok (filter.walk depth []))
    (Q := fun slots => ∀ depth constants, depth ≠ 0 → depth ≤ limit →
      Slot.conditions limit depth constants slots =
        if limit < depth + Slot.height slots then .error (.tooDeep (limit + 1) limit)
        else .ok (Slot.walk depth [] constants slots))
    ?filter ?nil ?unset ?null ?leaf ?sub filter depth
  case filter =>
    intro name slots constants ordering hslots depth
    rw [Filter.conditions, checkDepth, Filter.height, Filter.walk]
    by_cases hzero : depth = 0
    · simp [hzero, Bind.bind, Except.bind]
    by_cases hdeep : limit < depth
    · simp [hzero, hdeep, Bind.bind, Except.bind]
    rw [if_neg hzero, if_neg hdeep, if_neg hzero, if_neg hdeep,
      ← hslots depth constants hzero (Nat.le_of_not_lt hdeep)]
    rfl
  case nil =>
    intro depth constants _ hlimit
    rw [Slot.conditions_nil, Slot.height_nil, if_neg (by omega), Slot.walk_nil]
  case unset =>
    intro declared rest ih depth constants hzero hlimit
    exact ih depth constants hzero hlimit
  case null =>
    intro declared rest ih depth constants hzero hlimit
    rw [Slot.conditions_null, Slot.height_null, Slot.walk_null]
    exact ih depth constants hzero hlimit
  case leaf =>
    intro declared value rest hleaf ih depth constants hzero hlimit
    rw [Slot.conditions_leaf _ _ _ _ _ hleaf, ih depth constants hzero hlimit,
      Slot.height_leaf _ _ hleaf, Slot.walk_leaf _ _ _ _ _ hleaf,
      DeclaredField.conditionBelow?_nil]
    split <;> rfl
  case sub =>
    intro declared sub rest hsub ih depth constants hzero hlimit
    rw [Slot.conditions_sub, ih depth constants hzero hlimit]
    by_cases hempty : sub.isEmpty
    · rw [Filter.linkedConditions, if_pos hempty, Slot.height_sub_of_isEmpty _ _ hempty,
        Slot.walk_sub_of_isEmpty _ _ _ _ _ hempty]
      split <;> rfl
    rw [Bool.not_eq_true] at hempty
    have hlinked := Filter.linkedConditions_of_conditions hlimit hempty declared.name
      (hsub (depth + 1))
    have hheight : limit < depth + max (sub.height + 1) (Slot.height rest) ↔
        limit < depth + 1 + sub.height ∨ limit < depth + Slot.height rest := by omega
    rw [hlinked, Slot.height_sub _ _ hempty, Slot.walk_sub _ _ _ _ _ hempty]
    simp only [hheight]
    by_cases hsubDeep : limit < depth + 1 + sub.height
    · rw [if_pos hsubDeep, if_pos (Or.inl hsubDeep)]
      rfl
    by_cases hrestDeep : limit < depth + Slot.height rest
    · rw [if_neg hsubDeep, if_pos hrestDeep, if_pos (Or.inr hrestDeep)]
      rfl
    · rw [if_neg hsubDeep, if_neg hrestDeep, if_neg (by simp [hsubDeep, hrestDeep])]
      rfl

theorem Filter.conditions_eq_ok_iff {limit depth : Nat} {filter : Filter}
    {conditions : List Condition} :
    filter.conditions limit depth = .ok conditions ↔
      1 ≤ depth ∧ depth + filter.height ≤ limit ∧ conditions = filter.walk depth [] := by
  rw [Filter.conditions_eq]
  by_cases hzero : depth = 0
  · simp [hzero]
  by_cases hdeep : limit < depth
  · rw [if_neg hzero, if_pos hdeep]
    constructor
    · intro h
      cases h
    · rintro ⟨_, hheight, _⟩
      omega
  rw [if_neg hzero, if_neg hdeep]
  by_cases hheight : limit < depth + filter.height
  · rw [if_pos hheight]
    constructor
    · intro h
      cases h
    · rintro ⟨_, hle, _⟩
      omega
  · rw [if_neg hheight, Except.ok.injEq]
    constructor
    · intro h
      exact ⟨by omega, by omega, h.symm⟩
    · rintro ⟨_, _, rfl⟩
      rfl

theorem Operator.expression?_eq_none_iff (operator : Operator) (value : Value) :
    operator.expression? value = none ↔ operator = .isNull ∧ value.isTruthy := by
  cases operator with
  | isNull => by_cases htrue : value.isTruthy <;> simp [Operator.expression?, htrue]
  | _ => simp [Operator.expression?]

/-- The conditions of a filter are those met on one walk from the top, in the same order;
the one field without a condition of its own asks for null with a true value. -/
theorem Filter.conditions_eq_walk {limit depth : Nat} {filter : Filter}
    {conditions : List Condition} (hok : filter.conditions limit depth = .ok conditions) :
    conditions = filter.walk depth [] ∧
      ∀ (operator : Operator) (value : Value),
        operator.expression? value = none ↔ operator = .isNull ∧ value.isTruthy := by
  obtain ⟨_, _, hwalk⟩ := Filter.conditions_eq_ok_iff.1 hok
  exact ⟨hwalk, Operator.expression?_eq_none_iff⟩

/-! ## A filter with two levels below it -/

namespace Sample

def company : Definition := ⟨"Company", [⟨.plain "country", .string⟩], {}⟩

def author : Definition :=
  ⟨"Author",
    [⟨⟨"age__gt", "age", some .gt⟩, .integer⟩, ⟨.plain "company", .nested company⟩,
      ⟨.plain "q", .string⟩],
    { searchField := some "q", searchPaths := ["name", "bio"] }⟩

def companyFilter : Filter :=
  ⟨"Company", [⟨⟨.plain "country", .string⟩, some (.scalar (.string "NL"))⟩], {}, []⟩

def authorFilter : Filter :=
  ⟨"Author",
    [⟨⟨⟨"age__gt", "age", some .gt⟩, .integer⟩, some (.scalar (.int 30))⟩,
      ⟨⟨.plain "company", .nested company⟩, some (.sub companyFilter)⟩,
      ⟨⟨.plain "q", .string⟩, some (.scalar (.string "ann"))⟩],
    { searchField := some "q", searchPaths := ["name", "bio"] }, []⟩

def postFilter : Filter :=
  ⟨"Post",
    [⟨⟨.plain "author", .nested author⟩, some (.sub authorFilter)⟩,
      ⟨⟨⟨"gone__isnull", "gone", some .isNull⟩, .boolean⟩, some (.bool true)⟩,
      ⟨⟨.plain "title", .string⟩, some (.scalar (.string "lean"))⟩], {}, []⟩

def postConditions : List Condition :=
  [⟨.field "author" (.meets (.compare .ne .null)), .linked 1⟩,
    ⟨.field "author.age" (.meets (.compare .gt (.int 30))), .linked 1⟩,
    ⟨.field "author.company" (.meets (.compare .ne .null)), .linked 2⟩,
    ⟨.field "author.company.country" (.equals (.string "NL")), .linked 2⟩,
    ⟨.any [.field "author.name" (.meets (.regex ".*ann.*" true)),
      .field "author.bio" (.meets (.regex ".*ann.*" true))], .linked 1⟩,
    ⟨.field "title" (.equals (.string "lean")), {}⟩]

/-- Three levels with a guard for each nested field, a search moved branch by branch, and
a field that asks for nothing. -/
theorem postFilter_conditions :
    postFilter.conditions 3 1 = .ok postConditions ∧ postConditions = postFilter.walk 1 [] := by
  have hok : postFilter.conditions 3 1 = .ok postConditions := rfl
  exact ⟨hok, (Filter.conditions_eq_walk hok).1⟩

/-- A condition that is no guard may have hints: below a nested field, links have to be
fetched for it too. -/
theorem nested_condition_hints :
    ¬ ∀ (limit depth : Nat) (filter : Filter) (conditions : List Condition),
      filter.conditions limit depth = .ok conditions →
      ∀ condition ∈ conditions, condition.predicate.key? ≠ some "$ne" →
        condition.hints = {} := by
  intro hplain
  have hage := hplain 3 1 postFilter postConditions rfl
    ⟨.field "author.age" (.meets (.compare .gt (.int 30))), .linked 1⟩
    (by simp [postConditions]) (by simp [Predicate.key?, Expression.key, Comparison.key])
  simp [Hints.linked] at hage

end Sample

end FilterQuery
