import FilterQuery.Proofs.Conditions.Walk
/-!
# Levels of nesting

A level is a word of 32 bits wherever filters are nested by a program, and the next
level is found by adding one.  `Filter.wordConditions` takes conditions with such words
and gives up where the sum does not fit.  Below the greatest word as a limit it never
gives up, since a level is checked against the limit before one is added to it.
-/

namespace FilterQuery

inductive WordFault where
  /-- the next level does not fit a word -/
  | overflow
  | nesting (cause : NestingError)
deriving DecidableEq, Repr

/-- The level after a level, where it fits a word. -/
def nextLevel (depth : UInt32) : Except WordFault UInt32 :=
  if depth.toNat + 1 < UInt32.size then .ok (depth + 1) else .error .overflow

def checkLevel (limit depth : UInt32) : Except WordFault Unit :=
  if depth = 0 then .error (.nesting (.invalidDepth depth.toNat))
  else if limit < depth then .error (.nesting (.tooDeep depth.toNat limit.toNat))
  else .ok ()

mutual

def Value.wordConditions (limit depth : UInt32) (constants : Constants)
    (declared : DeclaredField) : Value → Except WordFault (List Condition)
  | .sub filter =>
      if filter.isEmpty then .ok []
      else do
        let next ← nextLevel depth
        let inner ← filter.wordConditions limit next
        return Condition.linkedAll declared.name depth.toNat inner
  | .scalar .null => .ok []
  | value => .ok (declared.condition? constants value).toList

def Slot.wordConditions (limit depth : UInt32) (constants : Constants) :
    List Slot → Except WordFault (List Condition)
  | [] => .ok []
  | ⟨_, none⟩ :: rest => Slot.wordConditions limit depth constants rest
  | ⟨declared, some value⟩ :: rest => do
      let first ← value.wordConditions limit depth constants declared
      return first ++ (← Slot.wordConditions limit depth constants rest)

/-- The conditions of a filter at a level, with levels in words. -/
def Filter.wordConditions (limit depth : UInt32) :
    Filter → Except WordFault (List Condition)
  | ⟨_, slots, constants, _⟩ => do
      checkLevel limit depth
      Slot.wordConditions limit depth constants slots

end

def Filter.wordLinkedConditions (limit : UInt32) (field : String) (depth : UInt32)
    (filter : Filter) : Except WordFault (List Condition) :=
  if filter.isEmpty then .ok []
  else do
    let next ← nextLevel depth
    let inner ← filter.wordConditions limit next
    return Condition.linkedAll field depth.toNat inner

/-- A refusal with levels in words.  A level that does not fit a word is never checked, since it
is not found. -/
def WordFault.ofNesting : NestingError → WordFault
  | .tooDeep depth limit =>
      if depth < UInt32.size then .nesting (.tooDeep depth limit) else .overflow
  | .invalidDepth depth => .nesting (.invalidDepth depth)

theorem checkLevel_eq (limit depth : UInt32) :
    checkLevel limit depth = (checkDepth limit.toNat depth.toNat).mapError .ofNesting := by
  unfold checkLevel checkDepth
  by_cases hzero : depth = 0
  · subst hzero
    rfl
  have hnat : depth.toNat ≠ 0 := fun h => hzero (UInt32.toNat_inj.1 h)
  rw [if_neg hzero, if_neg hnat]
  by_cases hdeep : limit < depth
  · have hfits : depth.toNat < UInt32.size := depth.toNat_lt_size
    rw [if_pos hdeep, if_pos (UInt32.lt_iff_toNat_lt.1 hdeep), Except.mapError,
      WordFault.ofNesting, if_pos hfits]
  · rw [if_neg hdeep, if_neg fun h => hdeep (UInt32.lt_iff_toNat_lt.2 h)]
    rfl

theorem nextLevel_eq {depth : UInt32} (h : depth.toNat + 1 < UInt32.size) :
    ∃ next, nextLevel depth = .ok next ∧ next.toNat = depth.toNat + 1 := by
  refine ⟨depth + 1, if_pos h, ?_⟩
  rw [UInt32.toNat_add]
  exact Nat.mod_eq_of_lt h

theorem nextLevel_ne_zero {depth next : UInt32} (hnext : nextLevel depth = .ok next) :
    next ≠ 0 := by
  rintro rfl
  by_cases hroom : depth.toNat + 1 < UInt32.size
  · obtain ⟨found, hfound, hsucc⟩ := nextLevel_eq hroom
    rw [hnext] at hfound
    cases hfound
    cases hsucc
  · rw [nextLevel, if_neg hroom] at hnext
    cases hnext

namespace Slot

variable (limit depth : UInt32) (constants : Constants) (declared : DeclaredField)
  (rest : List Slot)

@[simp] theorem wordConditions_unset :
    Slot.wordConditions limit depth constants (⟨declared, none⟩ :: rest) =
      Slot.wordConditions limit depth constants rest := rfl

@[simp] theorem wordConditions_null :
    Slot.wordConditions limit depth constants (⟨declared, some (.scalar .null)⟩ :: rest) =
      Slot.wordConditions limit depth constants rest := by
  rw [Slot.wordConditions, Value.wordConditions]
  cases Slot.wordConditions limit depth constants rest <;> rfl

theorem wordConditions_sub (filter : Filter) :
    Slot.wordConditions limit depth constants (⟨declared, some (.sub filter)⟩ :: rest) = do
      let first ← filter.wordLinkedConditions limit declared.name depth
      return first ++ (← Slot.wordConditions limit depth constants rest) := by
  rw [Slot.wordConditions, Value.wordConditions, Filter.wordLinkedConditions]

theorem wordConditions_leaf {value : Value} (hleaf : value.isLeaf) :
    Slot.wordConditions limit depth constants (⟨declared, some value⟩ :: rest) =
      (Slot.wordConditions limit depth constants rest).map
        ((declared.condition? constants value).toList ++ ·) := by
  have hvalue : value.wordConditions limit depth constants declared =
      .ok (declared.condition? constants value).toList := by
    cases value with
    | scalar json => cases json <;> simp_all [Value.isLeaf, Value.wordConditions]
    | list items => rfl
    | bool b => rfl
    | sub filter => simp [Value.isLeaf] at hleaf
  rw [Slot.wordConditions, hvalue]
  cases Slot.wordConditions limit depth constants rest <;> rfl

end Slot

/-- The next level either fits a word or lies beyond every limit. -/
theorem Filter.wordLinkedConditions_of_conditions {limit : UInt32} {filter : Filter}
    (hconditions : ∀ next : UInt32, filter.wordConditions limit next =
      (filter.conditions limit.toNat next.toNat).mapError .ofNesting) (field : String)
    (depth : UInt32) : filter.wordLinkedConditions limit field depth =
      (filter.linkedConditions limit.toNat field depth.toNat).mapError .ofNesting := by
  rw [wordLinkedConditions, linkedConditions]
  by_cases hempty : filter.isEmpty
  · rw [if_pos hempty, if_pos hempty]
    rfl
  rw [if_neg hempty, if_neg hempty]
  by_cases hroom : depth.toNat + 1 < UInt32.size
  · obtain ⟨next, hnext, hsucc⟩ := nextLevel_eq hroom
    rw [hnext, ← hsucc]
    change (filter.wordConditions limit next).map (Condition.linkedAll field depth.toNat) = _
    rw [hconditions]
    cases filter.conditions limit.toNat next.toNat <;> rfl
  · have hbeyond : limit.toNat < depth.toNat + 1 := by
      have := limit.toNat_lt_size
      omega
    rw [nextLevel, if_neg hroom, conditions_eq, if_neg (Nat.succ_ne_zero _), if_pos hbeyond]
    change _ = Except.error (WordFault.ofNesting _)
    rw [WordFault.ofNesting, if_neg hroom]
    rfl

/-- Conditions with levels in words are those with levels in numbers, as far as the levels that
are needed fit. -/
theorem Filter.wordConditions_eq_mapError (limit depth : UInt32) (filter : Filter) :
    filter.wordConditions limit depth =
      (filter.conditions limit.toNat depth.toNat).mapError .ofNesting := by
  refine Filter.induction
    (P := fun filter => ∀ depth : UInt32, filter.wordConditions limit depth =
      (filter.conditions limit.toNat depth.toNat).mapError .ofNesting)
    (Q := fun slots => ∀ (depth : UInt32) constants,
      Slot.wordConditions limit depth constants slots =
        (Slot.conditions limit.toNat depth.toNat constants slots).mapError .ofNesting)
    ?filter ?nil ?unset ?null ?leaf ?sub filter depth
  case filter =>
    intro name slots constants ordering hslots depth
    rw [Filter.wordConditions, Filter.conditions, checkLevel_eq, hslots depth constants]
    cases checkDepth limit.toNat depth.toNat <;> rfl
  case nil =>
    intro depth constants
    rfl
  case unset =>
    intro declared rest ih depth constants
    exact ih depth constants
  case null =>
    intro declared rest ih depth constants
    rw [Slot.conditions_null, Slot.wordConditions_null, ih depth constants]
  case leaf =>
    intro declared value rest hleaf ih depth constants
    rw [Slot.conditions_leaf _ _ _ _ _ hleaf, Slot.wordConditions_leaf _ _ _ _ _ hleaf,
      ih depth constants]
    cases Slot.conditions limit.toNat depth.toNat constants rest <;> rfl
  case sub =>
    intro declared sub rest hsub ih depth constants
    rw [Slot.conditions_sub, Slot.wordConditions_sub, ih depth constants,
      wordLinkedConditions_of_conditions hsub]
    cases sub.linkedConditions limit.toNat declared.name depth.toNat with
    | error cause => rfl
    | ok first => cases Slot.conditions limit.toNat depth.toNat constants rest <;> rfl

theorem Filter.wordLinkedConditions_eq (limit : UInt32) (field : String) (depth : UInt32)
    (filter : Filter) :
    filter.wordLinkedConditions limit field depth =
      (filter.linkedConditions limit.toNat field depth.toNat).mapError .ofNesting :=
  wordLinkedConditions_of_conditions (fun next => wordConditions_eq_mapError limit next filter)
    field depth

theorem Filter.error_of_conditions {limit depth : Nat} {filter : Filter}
    {cause : NestingError} (herror : filter.conditions limit depth = .error cause) :
    cause =
      if depth = 0 then .invalidDepth 0
      else if limit < depth then .tooDeep depth limit
      else .tooDeep (limit + 1) limit := by
  rw [Filter.conditions_eq] at herror
  by_cases hzero : depth = 0
  · rw [if_pos hzero] at herror ⊢
    exact (Except.error.inj herror).symm
  rw [if_neg hzero] at herror ⊢
  by_cases hdeep : limit < depth
  · rw [if_pos hdeep] at herror ⊢
    exact (Except.error.inj herror).symm
  rw [if_neg hdeep] at herror ⊢
  by_cases hheight : limit < depth + filter.height
  · rw [if_pos hheight] at herror
    exact (Except.error.inj herror).symm
  · rw [if_neg hheight] at herror
    cases herror

theorem Filter.wordConditions_eq {limit : UInt32} (hlimit : limit.toNat + 1 < UInt32.size)
    (depth : UInt32) (filter : Filter) :
    filter.wordConditions limit depth =
      (filter.conditions limit.toNat depth.toNat).mapError .nesting := by
  rw [wordConditions_eq_mapError]
  cases hconditions : filter.conditions limit.toNat depth.toNat with
  | ok conditions => rfl
  | error cause =>
      have hfits : depth.toNat < UInt32.size := depth.toNat_lt_size
      have hwords : WordFault.ofNesting cause = .nesting cause := by
        rw [error_of_conditions hconditions]
        split
        · rfl
        split
        · rw [WordFault.ofNesting, if_pos hfits]
        · rw [WordFault.ofNesting, if_pos hlimit]
      rw [Except.mapError, Except.mapError, hwords]

/-- Sub-filters nest within the limit, or the refusal names the level at fault: the
first level if it is none or lies beyond the limit, and otherwise the level just beyond
the limit.  Every level fits a word, and a higher limit changes no conditions. -/
theorem Filter.conditions_within_limit {limit : UInt32}
    (hlimit : limit.toNat + 1 < UInt32.size) (depth : UInt32) (filter : Filter) :
    filter.wordConditions limit depth =
        (filter.conditions limit.toNat depth.toNat).mapError .nesting ∧
      ((∃ conditions, filter.conditions limit.toNat depth.toNat = .ok conditions) ↔
        1 ≤ depth.toNat ∧ depth.toNat + filter.height ≤ limit.toNat) ∧
      (∀ cause, filter.conditions limit.toNat depth.toNat = .error cause →
        cause =
          if depth.toNat = 0 then .invalidDepth 0
          else if limit.toNat < depth.toNat then .tooDeep depth.toNat limit.toNat
          else .tooDeep (limit.toNat + 1) limit.toNat) ∧
      (∀ (conditions : List Condition) (higher : UInt32), limit ≤ higher →
        higher.toNat + 1 < UInt32.size →
        filter.conditions limit.toNat depth.toNat = .ok conditions →
        filter.conditions higher.toNat depth.toNat = .ok conditions) := by
  refine ⟨wordConditions_eq hlimit depth filter, ?_, ?_, ?_⟩
  · simp only [conditions_eq_ok_iff]
    constructor
    · rintro ⟨_, hlevel, hheight, _⟩
      exact ⟨hlevel, hheight⟩
    · rintro ⟨hlevel, hheight⟩
      exact ⟨_, hlevel, hheight, rfl⟩
  · intro cause hcause
    exact error_of_conditions hcause
  · intro conditions higher hle _ hok
    obtain ⟨hlevel, hheight, hwalk⟩ := conditions_eq_ok_iff.1 hok
    have hlimits : limit.toNat ≤ higher.toNat := UInt32.le_iff_toNat_le.1 hle
    exact conditions_eq_ok_iff.2 ⟨hlevel, Nat.le_trans hheight hlimits, hwalk⟩

/-- Two levels lie below the filter, so a limit of three lets it through and a limit of
two does not. -/
theorem Sample.postFilter_within_limit :
    (3 : UInt32).toNat + 1 < UInt32.size ∧
      ∃ conditions, postFilter.conditions (3 : UInt32).toNat (1 : UInt32).toNat =
        .ok conditions := by
  have hlimit : (3 : UInt32).toNat + 1 < UInt32.size := by decide
  have hlevels : 1 ≤ (1 : UInt32).toNat ∧
      (1 : UInt32).toNat + postFilter.height ≤ (3 : UInt32).toNat := by decide
  exact ⟨hlimit, (Filter.conditions_within_limit hlimit 1 postFilter).2.1.2 hlevels⟩

end FilterQuery
