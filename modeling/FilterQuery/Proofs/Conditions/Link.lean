import FilterQuery.Proofs.Conditions.Depth
import FilterQuery.Proofs.Conditions.Levels
import FilterQuery.Proofs.Outcome
/-!
# A filter under a field

The conditions of a sub-filter under a field can be asked for by themselves, at any level.  From
level one on they are those of a filter in which nothing else is set.  The level that is given is
not checked, only the one after it, so at level zero there are conditions too.
-/

namespace FilterQuery

/-! ## Filters in which one field is set -/

section SetFields

variable (start : Nat) (chain : List String)

theorem Slot.walk_eq_flatMap (constants : Constants) (slots : List Slot) :
    Slot.walk start chain constants slots =
      (slots.filterMap fun slot => slot.set?.map (slot.declared, ·)).flatMap
        fun (declared, value) => value.walk start chain constants declared := by
  induction slots with
  | nil => rfl
  | cons slot rest ih =>
      obtain ⟨declared, _ | value⟩ := slot
      · exact ih
      rw [Slot.walk, ih, List.filterMap_cons]
      cases hnull : value.isNull with
      | true =>
          rw [Value.isNull_iff.1 hnull]
          rfl
      | false =>
          rw [Slot.set?_eq_some_iff.2 ⟨rfl, hnull⟩]
          rfl

theorem Slot.height_eq_foldr (slots : List Slot) :
    Slot.height slots =
      (slots.filterMap fun slot => slot.set?.map (slot.declared, ·)).foldr
        (fun field height => max field.2.height height) 0 := by
  induction slots with
  | nil => rfl
  | cons slot rest ih =>
      obtain ⟨declared, _ | value⟩ := slot
      · exact ih
      rw [Slot.height, ih, List.filterMap_cons]
      cases hnull : value.isNull with
      | true =>
          rw [Value.isNull_iff.1 hnull]
          exact Nat.zero_max _
      | false =>
          rw [Slot.set?_eq_some_iff.2 ⟨rfl, hnull⟩]
          rfl

variable {sub parent : Filter} {declared : DeclaredField} (hset : sub.isEmpty = false)
  (hparent : parent.setFields = [(declared, .sub sub)])

include hset hparent

theorem Filter.walk_of_setFields : parent.walk start chain =
    .guardBelow start chain declared.name :: sub.walk start (chain ++ [declared.name]) := by
  obtain ⟨name, slots, constants, ordering⟩ := parent
  rw [Filter.setFields] at hparent
  rw [Filter.walk, Slot.walk_eq_flatMap, hparent]
  simp [Value.walk, hset]

theorem Filter.height_of_setFields : parent.height = sub.height + 1 := by
  obtain ⟨name, slots, constants, ordering⟩ := parent
  rw [Filter.setFields] at hparent
  rw [Filter.height, Slot.height_eq_foldr, hparent]
  simp [Value.height, hset]

end SetFields

/-! ## What a link does -/

section Link

variable {limit depth : Nat} {sub parent : Filter} {declared : DeclaredField}
  (hset : sub.isEmpty = false)

include hset

theorem Filter.linkedConditions_beyond (hbeyond : limit < depth + 1) (field : String) :
    sub.linkedConditions limit field depth = .error (.tooDeep (depth + 1) limit) := by
  rw [linkedConditions, if_neg (by simp [hset]), conditions_eq, if_neg (Nat.succ_ne_zero depth),
    if_pos hbeyond]
  rfl

theorem Filter.linkedConditions_within (hlimit : depth ≤ limit) (field : String) :
    sub.linkedConditions limit field depth =
      if limit < depth + 1 + sub.height then .error (.tooDeep (limit + 1) limit)
      else .ok (.guardBelow depth [] field :: sub.walk depth [field]) :=
  linkedConditions_of_conditions hlimit hset field (conditions_eq limit (depth + 1) sub)

theorem Filter.linkedConditions_eq_ok_iff {field : String} {conditions : List Condition} :
    sub.linkedConditions limit field depth = .ok conditions ↔
      depth + 1 + sub.height ≤ limit ∧
        conditions = .guardBelow depth [] field :: sub.walk depth [field] := by
  by_cases hbeyond : limit < depth + 1
  · rw [linkedConditions_beyond hset hbeyond]
    constructor
    · nofun
    · rintro ⟨hheight, _⟩
      omega
  rw [linkedConditions_within hset (by omega)]
  by_cases hheight : limit < depth + 1 + sub.height
  · rw [if_pos hheight]
    constructor
    · nofun
    · rintro ⟨hle, _⟩
      omega
  · rw [if_neg hheight, Except.ok.injEq, eq_comm]
    exact (and_iff_right (Nat.le_of_not_lt hheight)).symm

/-- From level one to the limit, a filter in which nothing else is set has the same conditions,
or none for the same reason. -/
theorem Filter.linkedConditions_eq_conditions (hone : 1 ≤ depth) (hlimit : depth ≤ limit)
    (hparent : parent.setFields = [(declared, .sub sub)]) :
    sub.linkedConditions limit declared.name depth = parent.conditions limit depth := by
  have hheight : depth + parent.height = depth + 1 + sub.height := by
    rw [height_of_setFields hset hparent]
    omega
  rw [linkedConditions_within hset hlimit, conditions_eq, if_neg (Nat.ne_of_gt hone),
    if_neg (Nat.not_lt.2 hlimit), hheight, walk_of_setFields depth [] hset hparent]
  rfl

end Link

theorem Filter.levels_of_linkedConditions {limit depth : Nat} {sub : Filter} {field : String}
    {conditions : List Condition} (hset : sub.isEmpty = false)
    (hok : sub.linkedConditions limit field depth = .ok conditions) {condition : Condition}
    (hmem : condition ∈ conditions) :
    ∃ level, condition.hints = .linked level ∧ depth ≤ level ∧ level ≤ depth + sub.height := by
  obtain ⟨_, rfl⟩ := (linkedConditions_eq_ok_iff hset).1 hok
  rcases List.mem_cons.1 hmem with rfl | hmem
  · exact ⟨depth, rfl, by omega, by omega⟩
  rcases sub.hints_of_mem_walk depth [field] condition hmem with hhints | ⟨levels, hlt, hhints⟩
  · exact ⟨depth, hhints, by omega, by omega⟩
  · refine ⟨depth + 1 + levels, hhints, by omega, by omega⟩

/-- With levels in words a sub-filter has the same conditions under a field, as far as the levels
that are needed fit.  One that holds a value has them exactly when the levels below the given one
lie within the limit.  The first is that its document is there, which records the given
level; none records a lesser one.  From level one to the limit, a filter in which nothing else
is set comes to the same, refusals and words that do not suffice included.  Beyond the limit both
are refused, the filter for its own level and the link for the next. -/
theorem Filter.link_within_limit (limit : UInt32) {depth : UInt32}
    (hroom : depth.toNat + 1 < UInt32.size) {sub parent : Filter} {declared : DeclaredField}
    (hset : sub.isEmpty = false)
    (hparent : parent.setFields = [(declared, .sub sub)]) :
    sub.wordLinkedConditions limit declared.name depth =
      (sub.linkedConditions limit.toNat declared.name depth.toNat).mapError .ofNesting ∧
    ((∃ conditions, sub.wordLinkedConditions limit declared.name depth = .ok conditions) ↔
      depth.toNat + 1 + sub.height ≤ limit.toNat) ∧
    (∀ conditions, sub.wordLinkedConditions limit declared.name depth = .ok conditions →
      conditions.head? = some (.guard declared.name depth.toNat) ∧
        ∀ condition ∈ conditions, ∃ level, condition.hints = .linked level ∧
          depth.toNat ≤ level ∧ level ≤ depth.toNat + sub.height) ∧
    (1 ≤ depth.toNat → depth ≤ limit →
      sub.wordLinkedConditions limit declared.name depth = parent.wordConditions limit depth) ∧
    (1 ≤ depth.toNat → limit < depth →
      sub.wordLinkedConditions limit declared.name depth =
          .error (.nesting (.tooDeep (depth.toNat + 1) limit.toNat)) ∧
        parent.wordConditions limit depth =
          .error (.nesting (.tooDeep depth.toNat limit.toNat))) := by
  have hwords := wordLinkedConditions_eq limit declared.name depth sub
  refine ⟨hwords, ?_⟩
  rw [hwords, wordConditions_eq_mapError]
  simp only [Outcome.mapError_eq_ok]
  refine ⟨?_, ?_, ?_, ?_⟩
  · simp only [linkedConditions_eq_ok_iff hset, exists_and_left, exists_eq, and_true]
  · intro conditions hok
    refine ⟨?_, fun condition hmem => levels_of_linkedConditions hset hok hmem⟩
    obtain ⟨_, rfl⟩ := (linkedConditions_eq_ok_iff hset).1 hok
    rw [List.head?_cons, Condition.guardBelow, Condition.guard, pathBelow_nil]
    rfl
  · intro hone hlimit
    rw [linkedConditions_eq_conditions hset hone (UInt32.le_iff_toNat_le.1 hlimit) hparent]
  · intro hone hlimit
    have hdeep : limit.toNat < depth.toNat := UInt32.lt_iff_toNat_lt.1 hlimit
    rw [linkedConditions_beyond hset (by omega), conditions_eq, if_neg (by omega), if_pos hdeep]
    constructor
    · rw [Except.mapError, WordFault.ofNesting, if_pos hroom]
    · rw [Except.mapError, WordFault.ofNesting, if_pos depth.toNat_lt_size]

namespace Sample

def companyLink : DeclaredField := ⟨.plain "company", .nested company⟩

def companyAuthor : Filter :=
  ⟨"Author",
    [⟨⟨⟨"age__gt", "age", some .gt⟩, .integer⟩, some (.scalar .null)⟩,
      ⟨companyLink, some (.sub companyFilter)⟩, ⟨⟨.plain "q", .string⟩, none⟩],
    { searchField := some "q", searchPaths := ["name", "bio"] }, []⟩

/-- One level lies below the author, so a limit of two lets the link through and a limit of one
does not. -/
theorem company_link :
    (1 : UInt32).toNat + 1 < UInt32.size ∧ companyFilter.isEmpty = false ∧
      companyAuthor.setFields = [(companyLink, .sub companyFilter)] ∧
      (∃ conditions, companyFilter.wordLinkedConditions 2 "company" 1 = .ok conditions) ∧
      companyFilter.wordLinkedConditions 2 "company" 1 = companyAuthor.wordConditions 2 1 ∧
      ¬ ∃ conditions, companyFilter.wordLinkedConditions 1 "company" 1 = .ok conditions := by
  have hroom : (1 : UInt32).toNat + 1 < UInt32.size := by decide
  have hset : companyFilter.isEmpty = false := by rfl
  have hparent : companyAuthor.setFields = [(companyLink, .sub companyFilter)] := by rfl
  obtain ⟨_, hlow, _⟩ := Filter.link_within_limit 1 hroom hset hparent
  obtain ⟨_, hsucceeds, _, hequal, _⟩ := Filter.link_within_limit 2 hroom hset hparent
  exact ⟨hroom, hset, hparent, hsucceeds.2 (by decide), hequal (by decide) (by decide),
    fun hok => absurd (hlow.1 hok) (by decide)⟩

/-- At level zero the filter is refused and the link is not: it records a level of zero. -/
theorem company_link_at_zero :
    companyFilter.isEmpty = false ∧
      companyAuthor.setFields = [(companyLink, .sub companyFilter)] ∧
      companyAuthor.conditions 16 0 = .error (.invalidDepth 0) ∧
      companyFilter.linkedConditions 16 "company" 0 =
        .ok [⟨.field "company" (.meets (.compare .ne .null)), .linked 0⟩,
          ⟨.field "company.country" (.equals (.string "NL")), .linked 0⟩] := by
  refine ⟨by rfl, by rfl, by rfl, by rfl⟩

end Sample

end FilterQuery
