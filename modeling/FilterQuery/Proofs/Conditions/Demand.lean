import FilterQuery.Proofs.Conditions.Walk
import FilterQuery.Proofs.Param.Destination
/-!
# What a filter asks for

A filter asks for linked documents to be there and for fields to agree with values.
Each such demand is listed here with its place in the filter, and the conditions of the
filter are those of its demands, one for one.  The list can be told from the outside: a
demand belongs to the slot of the first name of its place, so demands of distinct slots
are distinct.
-/

namespace FilterQuery

/-- One thing that a filter asks for. -/
inductive Demand where
  /-- the document linked through a chain of nested fields is there -/
  | link (chain : List String)
  /-- a field agrees with a value -/
  | field (leaf : Leaf) (value : Value)

def Condition.linkAt (chain : List String) : Condition :=
  ⟨.field (".".intercalate chain) (.meets (.compare .ne .null)), .linked chain.length⟩

namespace Demand

/-- A demand as it is seen from outside a nested field. -/
def under (name : String) : Demand → Demand
  | link chain => link (name :: chain)
  | field leaf value => field (leaf.under name) value

def top? : Demand → Option String
  | link chain => chain.head?
  | field leaf _ => (leaf.chain ++ [leaf.declared.name]).head?

def conditionBelow? (chain : List String) : Demand → Option Condition
  | link inner => some (.linkAt (chain ++ inner))
  | field leaf value =>
      leaf.declared.conditionBelow? 1 (chain ++ leaf.chain) leaf.constants value

@[simp] theorem top?_under (name : String) (demand : Demand) :
    (demand.under name).top? = some name := by
  cases demand <;> rfl

@[simp] theorem conditionBelow?_under (name : String) (chain : List String)
    (demand : Demand) :
    (demand.under name).conditionBelow? chain =
      demand.conditionBelow? (chain ++ [name]) := by
  cases demand <;> simp [under, Leaf.under, conditionBelow?]

theorem under_injective (name : String) : Function.Injective (under name) := by
  rintro (_ | ⟨⟨_, _, _⟩, _⟩) (_ | ⟨⟨_, _, _⟩, _⟩) heq <;> cases heq <;> rfl

end Demand

mutual

def Value.demands (constants : Constants) (declared : DeclaredField) : Value → List Demand
  | .sub filter =>
      if filter.isEmpty then []
      else .link [declared.name] :: filter.demands.map (.under declared.name)
  | .scalar .null => []
  | value => [.field ⟨[], declared, constants⟩ value]

def Slot.demands (constants : Constants) : List Slot → List Demand
  | [] => []
  | ⟨_, none⟩ :: rest => Slot.demands constants rest
  | ⟨declared, some value⟩ :: rest =>
      value.demands constants declared ++ Slot.demands constants rest

/-- What a filter asks for. -/
def Filter.demands : Filter → List Demand
  | ⟨_, slots, constants, _⟩ => Slot.demands constants slots

end

theorem Value.demands_of_isLeaf {value : Value} (hleaf : value.isLeaf)
    (constants : Constants) (declared : DeclaredField) :
    value.demands constants declared = [.field ⟨[], declared, constants⟩ value] := by
  cases value with
  | sub filter => simp [Value.isLeaf] at hleaf
  | scalar json => cases json <;> simp_all [Value.isLeaf, Value.demands]
  | list items => rfl
  | bool b => rfl

theorem Value.demands_sub (constants : Constants) (declared : DeclaredField)
    (filter : Filter) :
    (Value.sub filter).demands constants declared =
      if filter.isEmpty then []
      else .link [declared.name] :: filter.demands.map (.under declared.name) := by
  rw [Value.demands]

/-! ## Demands and conditions -/

theorem Condition.guardBelow_one (chain : List String) (field : String) :
    Condition.guardBelow 1 chain field = .linkAt (chain ++ [field]) := by
  unfold Condition.guardBelow Condition.linkAt
  rw [List.length_append, List.length_singleton, Nat.add_comm]
  rfl

/-- The conditions met on a walk are those of the demands of the filter. -/
theorem Filter.walk_eq_demands (filter : Filter) : ∀ chain : List String,
    filter.walk 1 chain = filter.demands.filterMap (Demand.conditionBelow? chain) := by
  refine Filter.induction
    (P := fun filter => ∀ chain,
      filter.walk 1 chain = filter.demands.filterMap (Demand.conditionBelow? chain))
    (Q := fun slots => ∀ chain constants, Slot.walk 1 chain constants slots =
      (Slot.demands constants slots).filterMap (Demand.conditionBelow? chain))
    ?filter ?nil ?unset ?null ?leaf ?sub filter
  case filter =>
    intro _ slots constants _ hslots chain
    exact hslots chain constants
  case nil =>
    intro chain constants
    rfl
  case unset =>
    intro declared rest ih chain constants
    exact ih chain constants
  case null =>
    intro declared rest ih chain constants
    exact ih chain constants
  case leaf =>
    intro declared value rest hleaf ih chain constants
    rw [Slot.walk_leaf _ _ _ _ _ hleaf, Slot.demands, Value.demands_of_isLeaf hleaf, ih,
      List.filterMap_append, List.filterMap_cons, Demand.conditionBelow?, List.append_nil]
    cases declared.conditionBelow? 1 chain constants value <;> rfl
  case sub =>
    intro declared sub rest hsub ih chain constants
    rw [Slot.demands, Value.demands_sub, List.filterMap_append, ← ih]
    by_cases hempty : sub.isEmpty
    · rw [if_pos hempty, Slot.walk_sub_of_isEmpty _ _ _ _ _ hempty]
      rfl
    · rw [Bool.not_eq_true] at hempty
      have hinner : (sub.demands.map (.under declared.name)).filterMap
          (Demand.conditionBelow? chain) = sub.walk 1 (chain ++ [declared.name]) := by
        rw [hsub, List.filterMap_map]
        congr 1
        funext demand
        exact Demand.conditionBelow?_under declared.name chain demand
      rw [Slot.walk_sub _ _ _ _ _ hempty, if_neg (by simp [hempty]), List.filterMap_cons,
        hinner, Condition.guardBelow_one]
      rfl

theorem Filter.isEmpty_iff_demands (filter : Filter) :
    filter.isEmpty ↔ filter.demands = [] := by
  refine Filter.induction (P := fun filter => filter.isEmpty ↔ filter.demands = [])
    (Q := fun slots => ∀ constants, Slot.allVoid slots ↔ Slot.demands constants slots = [])
    ?filter ?nil ?unset ?null ?leaf ?sub filter
  case filter =>
    intro _ slots constants _ hslots
    exact hslots constants
  case nil =>
    intro constants
    exact iff_of_true rfl rfl
  case unset =>
    intro declared rest ih constants
    exact ih constants
  case null =>
    intro declared rest ih constants
    exact ih constants
  case leaf =>
    intro declared value rest hleaf ih constants
    rw [Slot.allVoid, Value.isVoid_of_isLeaf hleaf, Slot.demands,
      Value.demands_of_isLeaf hleaf]
    simp
  case sub =>
    intro declared sub rest hsub ih constants
    rw [Slot.allVoid, Value.isVoid, Slot.demands, Value.demands_sub, Bool.and_eq_true, ih constants]
    by_cases hempty : sub.isEmpty
    · simp [hempty]
    · simp [hempty]

theorem Value.demands_sub_eq (constants : Constants) (declared : DeclaredField)
    (filter : Filter) :
    (Value.sub filter).demands constants declared =
      if filter.demands = [] then []
      else .link [declared.name] :: filter.demands.map (.under declared.name) := by
  rw [Value.demands_sub]
  simp only [Filter.isEmpty_iff_demands]

/-! ## The demands of one value -/

namespace Value

variable {constants own : Constants} {declared other : DeclaredField} {value asked : Value}
  {name : String} {chain : List String}

theorem top?_of_mem_demands {demand : Demand}
    (hmem : demand ∈ value.demands constants declared) : demand.top? = some declared.name := by
  rcases value.isLeaf_cases with rfl | ⟨filter, rfl⟩ | hleaf
  · cases hmem
  · rw [demands_sub_eq] at hmem
    split at hmem
    · cases hmem
    · rcases List.mem_cons.1 hmem with rfl | hmem
      · rfl
      · obtain ⟨inner, _, rfl⟩ := List.mem_map.1 hmem
        exact Demand.top?_under declared.name inner
  · rw [demands_of_isLeaf hleaf] at hmem
    rw [List.mem_singleton.1 hmem]
    rfl

theorem field_nil_mem_demands :
    .field ⟨[], other, own⟩ asked ∈ value.demands constants declared ↔
      value.isLeaf ∧ asked = value ∧ other = declared ∧ own = constants := by
  rcases value.isLeaf_cases with rfl | ⟨filter, rfl⟩ | hleaf
  · simp [demands, isLeaf]
  · rw [demands_sub_eq]
    constructor
    · intro hmem
      split at hmem
      · cases hmem
      · rcases List.mem_cons.1 hmem with heq | hmem
        · cases heq
        · obtain ⟨inner, _, heq⟩ := List.mem_map.1 hmem
          cases inner <;> cases heq
    · rintro ⟨hleaf, _⟩
      cases hleaf
  · rw [demands_of_isLeaf hleaf]
    simp only [List.mem_singleton, Demand.field.injEq, Leaf.mk.injEq, hleaf, true_and]
    constructor
    · rintro ⟨⟨rfl, rfl⟩, rfl⟩
      exact ⟨rfl, rfl, rfl⟩
    · rintro ⟨rfl, rfl, rfl⟩
      exact ⟨⟨rfl, rfl⟩, rfl⟩

theorem field_cons_mem_demands :
    .field ⟨name :: chain, other, own⟩ asked ∈ value.demands constants declared ↔
      name = declared.name ∧ ∃ filter, value = .sub filter ∧
        .field ⟨chain, other, own⟩ asked ∈ filter.demands := by
  rcases value.isLeaf_cases with rfl | ⟨filter, rfl⟩ | hleaf
  · simp [demands]
  · rw [demands_sub_eq]
    constructor
    · intro hmem
      split at hmem
      · cases hmem
      · rcases List.mem_cons.1 hmem with heq | hmem
        · cases heq
        · obtain ⟨inner, hinner, heq⟩ := List.mem_map.1 hmem
          obtain _ | ⟨⟨_, _, _⟩, _⟩ := inner <;> cases heq
          exact ⟨rfl, filter, rfl, hinner⟩
    · rintro ⟨rfl, _, heq, hmem⟩
      cases heq
      rw [if_neg (List.ne_nil_of_mem hmem)]
      exact .tail _ (List.mem_map.2 ⟨_, hmem, rfl⟩)
  · rw [demands_of_isLeaf hleaf]
    constructor
    · intro hmem
      cases List.mem_singleton.1 hmem
    · rintro ⟨_, _, rfl, _⟩
      cases hleaf

theorem link_cons_mem_demands :
    .link (name :: chain) ∈ value.demands constants declared ↔
      name = declared.name ∧ ∃ filter, value = .sub filter ∧ filter.demands ≠ [] ∧
        (chain = [] ∨ .link chain ∈ filter.demands) := by
  rcases value.isLeaf_cases with rfl | ⟨filter, rfl⟩ | hleaf
  · simp [demands]
  · rw [demands_sub_eq]
    constructor
    · intro hmem
      split at hmem
      · cases hmem
      · rename_i hne
        rcases List.mem_cons.1 hmem with heq | hmem
        · cases heq
          exact ⟨rfl, filter, rfl, hne, .inl rfl⟩
        · obtain ⟨inner, hinner, heq⟩ := List.mem_map.1 hmem
          cases inner <;> cases heq
          exact ⟨rfl, filter, rfl, hne, .inr hinner⟩
    · rintro ⟨rfl, _, heq, hne, hchain⟩
      cases heq
      rw [if_neg hne]
      rcases hchain with rfl | hmem
      · exact .head _
      · exact .tail _ (List.mem_map.2 ⟨_, hmem, rfl⟩)
  · rw [demands_of_isLeaf hleaf]
    constructor
    · intro hmem
      cases List.mem_singleton.1 hmem
    · rintro ⟨_, _, rfl, _⟩
      cases hleaf

theorem nodup_demands
    (hsub : ∀ filter, value = .sub filter → filter.demands.Nodup ∧ .link [] ∉ filter.demands) :
    (value.demands constants declared).Nodup := by
  rcases value.isLeaf_cases with rfl | ⟨filter, rfl⟩ | hleaf
  · exact .nil
  · obtain ⟨hnodup, hlink⟩ := hsub filter rfl
    rw [demands_sub_eq]
    split
    · exact .nil
    · refine List.nodup_cons.2 ⟨?_, hnodup.map (Demand.under_injective _)⟩
      intro hmem
      obtain ⟨inner, hinner, heq⟩ := List.mem_map.1 hmem
      cases inner <;> cases heq
      exact hlink hinner
  · rw [demands_of_isLeaf hleaf]
    simp

end Value

/-! ## The demands of a filter -/

theorem Slot.mem_demands {constants : Constants} {slots : List Slot} {demand : Demand} :
    demand ∈ Slot.demands constants slots ↔
      ∃ slot ∈ slots, ∃ value, slot.value = some value ∧
        demand ∈ value.demands constants slot.declared := by
  induction slots with
  | nil => simp [Slot.demands]
  | cons slot rest ih =>
      obtain ⟨declared, _ | value⟩ := slot
      · rw [Slot.demands, ih]
        simp
      · rw [Slot.demands, List.mem_append, ih]
        simp

theorem Filter.mem_demands {filter : Filter} {demand : Demand} :
    demand ∈ filter.demands ↔
      ∃ slot ∈ filter.slots, ∃ value, slot.value = some value ∧
        demand ∈ value.demands filter.constants slot.declared := by
  obtain ⟨_, slots, constants, _⟩ := filter
  rw [Filter.demands]
  exact Slot.mem_demands

theorem Filter.link_nil_not_mem_demands (filter : Filter) : .link [] ∉ filter.demands := by
  intro hmem
  obtain ⟨_, _, _, _, hvalue⟩ := Filter.mem_demands.1 hmem
  cases Value.top?_of_mem_demands hvalue

theorem Slot.nodup_demands {constants : Constants} {slots : List Slot}
    (hnames : (slots.map Slot.name).Nodup)
    (hsub : ∀ slot ∈ slots, ∀ filter, slot.value = some (.sub filter) → filter.demands.Nodup) :
    (Slot.demands constants slots).Nodup := by
  induction slots with
  | nil => exact .nil
  | cons slot rest ih =>
      obtain ⟨hfresh, hnames⟩ := List.nodup_cons.1 hnames
      have hrest := ih hnames fun slot hmem => hsub slot (.tail _ hmem)
      obtain ⟨declared, _ | value⟩ := slot
      · exact hrest
      · rw [Slot.demands, List.nodup_append]
        refine ⟨Value.nodup_demands ?_, hrest, ?_⟩
        · rintro filter rfl
          exact ⟨hsub _ (.head _) filter rfl, filter.link_nil_not_mem_demands⟩
        -- Demands of different slots begin with different names.
        · rintro demand hfirst _ hother rfl
          obtain ⟨slot, hslot, _, _, hmem⟩ := Slot.mem_demands.1 hother
          have htop := Value.top?_of_mem_demands hfirst
          rw [Value.top?_of_mem_demands hmem] at htop
          exact hfresh (List.mem_map.2 ⟨slot, hslot, Option.some.inj htop⟩)

theorem Filter.nodup_demands {filter : Filter} (hnames : (filter.slots.map Slot.name).Nodup)
    (hsub : ∀ slot ∈ filter.slots, ∀ sub, slot.value = some (.sub sub) → sub.demands.Nodup) :
    filter.demands.Nodup := by
  obtain ⟨_, slots, constants, _⟩ := filter
  rw [Filter.demands]
  exact Slot.nodup_demands hnames hsub

end FilterQuery
