import FilterQuery.Proofs.Definition.Built
import FilterQuery.Proofs.Param.Prefixes
import Mathlib.Data.List.Dedup
/-!
# Where parameters lead

The key of a parameter leads through nested fields to a field that is not nested, or to
the ordering of a filter on the way.  Here this is followed to its end for each key by
itself, without collecting the parameters of a nested field first.

What leads through a nested field to a leaf is what leads to the rest of the leaf from
the parameters collected for that field, so the two readings agree level by level.
-/

namespace FilterQuery

/-- A field that is not nested, with the nested fields that lead to it, from the outside
in. -/
structure Leaf where
  chain : List String
  declared : DeclaredField
  /-- the constants of the definition that declares the field -/
  constants : Constants
deriving DecidableEq

def Leaf.under (field : String) (leaf : Leaf) : Leaf :=
  { leaf with chain := field :: leaf.chain }

inductive Destination where
  /-- the ordering of the filter below a chain of nested fields -/
  | ordering (chain : List String)
  | leaf (leaf : Leaf)

namespace Destination

def under (field : String) : Destination → Destination
  | ordering chain => ordering (field :: chain)
  | leaf inner => leaf (inner.under field)

def leaf? : Destination → Option Leaf
  | ordering _ => none
  | leaf inner => some inner

end Destination

namespace Definition

def destination? (definition : Definition) (key : String) : Option Destination :=
  match definition.route key with
  | .ordering => some (.ordering [])
  | .leaf declared => some (.leaf ⟨[], declared, definition.constants⟩)
  | .nested field rest =>
      match _h : definition.nested? field with
      | some sub => (sub.destination? rest).map (.under field)
      | none => none
  | .bareNested | .unknown => none
termination_by sizeOf definition
decreasing_by exact Definition.sizeOf_nested? _h

/-- The leaf that a key leads to, if it does not lead to an ordering. -/
def leaf? (definition : Definition) (key : String) : Option Leaf :=
  (definition.destination? key).bind Destination.leaf?

def rawsOf (definition : Definition) (params : List Param) (leaf : Leaf) : List String :=
  params.filterMap fun param =>
    if definition.leaf? param.key = some leaf then some param.raw else none

def leaves (definition : Definition) (params : List Param) : List Leaf :=
  (params.filterMap fun param => definition.leaf? param.key).dedup

/-- A parameter as it is passed on to the filter under a nested field, if that is where
its key leads. -/
def passed? (definition : Definition) (field : String) (param : Param) : Option Param :=
  match definition.route param.key with
  | .nested name rest => if name = field then some ⟨rest, param.raw⟩ else none
  | _ => none

/-- The parameters passed on to the filter under a nested field, in order. -/
def groupOf (definition : Definition) (params : List Param) (field : String) : List Param :=
  params.filterMap (definition.passed? field)

variable {definition sub : Definition} {params : List Param} {key field : String}

/-! ## What a route tells -/

theorem name_of_field? {declared : DeclaredField}
    (hfield : definition.field? key = some declared) : declared.name = key := by
  simpa using List.find?_some hfield

theorem field?_of_route {declared : DeclaredField}
    (hroute : definition.route key = .leaf declared) :
    definition.field? key = some declared ∧ declared.kind.nested? = none := by
  unfold route at hroute
  split at hroute
  · cases hroute
  split at hroute
  · rename_i found hfound
    split at hroute
    · cases hroute
    · rename_i hkind
      cases hroute
      exact ⟨hfound, by simpa using hkind⟩
  · split at hroute <;> cases hroute

theorem Regular.nested?_of_route (hregular : definition.Regular) {rest : String}
    (hroute : definition.route key = .nested field rest) :
    ∃ sub, definition.nested? field = some sub := by
  obtain ⟨declared, hmem, rfl, hkind⟩ := (reads_of_route hroute).nested
  rw [nested?_of_field? (hregular.field?_of_mem hmem)]
  exact Option.isSome_iff_exists.1 hkind

/-! ## One level of a key -/

theorem destination?_eq (definition : Definition) (key : String) :
    definition.destination? key =
      match definition.route key with
      | .ordering => some (.ordering [])
      | .leaf declared => some (.leaf ⟨[], declared, definition.constants⟩)
      | .nested field rest =>
          (definition.nested? field).bind fun sub => (sub.destination? rest).map (.under field)
      | .bareNested | .unknown => none := by
  rw [destination?]
  cases definition.route key with
  | nested field rest =>
      dsimp only
      split
      · rename_i sub hnested
        rw [hnested]
        rfl
      · rename_i hnone
        rw [hnone]
        rfl
  | _ => rfl

theorem leaf?_eq (definition : Definition) (key : String) :
    definition.leaf? key =
      match definition.route key with
      | .leaf declared => some ⟨[], declared, definition.constants⟩
      | .nested field rest =>
          (definition.nested? field).bind fun sub => (sub.leaf? rest).map (.under field)
      | _ => none := by
  unfold leaf?
  rw [destination?_eq]
  cases definition.route key with
  | nested field rest =>
      dsimp only
      rw [Option.bind_assoc]
      congr 1
      funext sub
      cases sub.destination? rest with
      | none => rfl
      | some destination => cases destination <;> rfl
  | _ => rfl

theorem leaf?_eq_some_nil {declared : DeclaredField} {constants : Constants} :
    definition.leaf? key = some ⟨[], declared, constants⟩ ↔
      definition.route key = .leaf declared ∧ constants = definition.constants := by
  rw [leaf?_eq]
  cases definition.route key with
  | nested field rest =>
      constructor
      · intro hleaf
        obtain ⟨_, _, hbelow⟩ := Option.bind_eq_some_iff.1 hleaf
        obtain ⟨_, _, heq⟩ := Option.map_eq_some_iff.1 hbelow
        cases heq
      · rintro ⟨heq, _⟩
        cases heq
  | leaf other => simp [eq_comm]
  | _ => simp

theorem leaf?_eq_some_cons {chain : List String} {declared : DeclaredField}
    {constants : Constants} :
    definition.leaf? key = some ⟨field :: chain, declared, constants⟩ ↔
      ∃ rest sub, definition.route key = .nested field rest ∧
        definition.nested? field = some sub ∧
        sub.leaf? rest = some ⟨chain, declared, constants⟩ := by
  rw [leaf?_eq]
  cases definition.route key with
  | nested name rest =>
      constructor
      · intro hleaf
        obtain ⟨sub, hnested, hbelow⟩ := Option.bind_eq_some_iff.1 hleaf
        obtain ⟨⟨_, _, _⟩, hinner, heq⟩ := Option.map_eq_some_iff.1 hbelow
        cases heq
        exact ⟨rest, sub, rfl, hnested, hinner⟩
      · rintro ⟨_, sub, heq, hnested, hinner⟩
        cases heq
        simp [hnested, hinner, Leaf.under]
  | _ => simp

/-! ## One level of all parameters -/

theorem mem_leaves {leaf : Leaf} :
    leaf ∈ definition.leaves params ↔
      ∃ param ∈ params, definition.leaf? param.key = some leaf := by
  simp [leaves]

theorem rawsOf_eq_nil_iff {leaf : Leaf} :
    definition.rawsOf params leaf = [] ↔ leaf ∉ definition.leaves params := by
  simp [rawsOf, mem_leaves]

theorem rawsOf_cons {chain : List String} {declared : DeclaredField} {constants : Constants}
    (hnested : definition.nested? field = some sub) :
    definition.rawsOf params ⟨field :: chain, declared, constants⟩ =
      sub.rawsOf (definition.groupOf params field) ⟨chain, declared, constants⟩ := by
  unfold rawsOf groupOf
  rw [List.filterMap_filterMap]
  apply List.filterMap_congr
  intro param _
  rw [passed?]
  by_cases hleaf : definition.leaf? param.key = some ⟨field :: chain, declared, constants⟩
  · obtain ⟨rest, found, hroute, hfound, hinner⟩ := leaf?_eq_some_cons.1 hleaf
    have hsub : found = sub := Option.some.inj (hfound.symm.trans hnested)
    rw [if_pos hleaf, hroute]
    simp [hsub ▸ hinner]
  · rw [if_neg hleaf]
    split
    · rename_i name rest hroute
      by_cases hname : name = field
      · subst hname
        have hinner : sub.leaf? rest ≠ some ⟨chain, declared, constants⟩ := fun hinner =>
          hleaf (leaf?_eq_some_cons.2 ⟨rest, sub, hroute, hnested, hinner⟩)
        simp [hinner]
      · simp [hname]
    · rfl

theorem mem_leaves_cons {chain : List String} {declared : DeclaredField}
    {constants : Constants} :
    ⟨field :: chain, declared, constants⟩ ∈ definition.leaves params ↔
      ∃ sub, definition.nested? field = some sub ∧
        ⟨chain, declared, constants⟩ ∈ sub.leaves (definition.groupOf params field) := by
  constructor
  · intro hmem
    obtain ⟨param, hparam, hleaf⟩ := mem_leaves.1 hmem
    obtain ⟨_, sub, _, hnested, _⟩ := leaf?_eq_some_cons.1 hleaf
    refine ⟨sub, hnested, ?_⟩
    by_contra hnot
    rw [← rawsOf_eq_nil_iff, ← rawsOf_cons hnested, rawsOf_eq_nil_iff] at hnot
    exact hnot hmem
  · rintro ⟨sub, hnested, hmem⟩
    by_contra hnot
    rw [← rawsOf_eq_nil_iff, rawsOf_cons hnested, rawsOf_eq_nil_iff] at hnot
    exact hnot hmem

theorem of_mem_leaves_nil {declared : DeclaredField} {constants : Constants}
    (hmem : ⟨[], declared, constants⟩ ∈ definition.leaves params) :
    constants = definition.constants ∧ definition.field? declared.name = some declared ∧
      declared.kind.nested? = none := by
  obtain ⟨param, _, hleaf⟩ := mem_leaves.1 hmem
  obtain ⟨hroute, hconstants⟩ := leaf?_eq_some_nil.1 hleaf
  obtain ⟨hfield, hkind⟩ := field?_of_route hroute
  exact ⟨hconstants, name_of_field? hfield ▸ hfield, hkind⟩

theorem ne_nil_of_mem_leaves {leaf : Leaf} (hmem : leaf ∈ definition.leaves params) :
    params ≠ [] := by
  obtain ⟨param, hparam, _⟩ := mem_leaves.1 hmem
  exact List.ne_nil_of_mem hparam

/-! ## What a destination belongs to -/

theorem Built.of_leaf? (hbuilt : definition.Built) {leaf : Leaf}
    (hleaf : definition.leaf? key = some leaf) :
    ∃ home : Definition, home.Built ∧ leaf.declared ∈ home.fields ∧
      leaf.declared.kind.nested? = none ∧ leaf.constants = home.constants := by
  induction definition using nestedInduction generalizing key leaf with
  | step definition ih =>
      obtain ⟨_ | ⟨field, chain⟩, declared, constants⟩ := leaf
      · obtain ⟨hroute, hconstants⟩ := leaf?_eq_some_nil.1 hleaf
        obtain ⟨hfield, hkind⟩ := field?_of_route hroute
        exact ⟨definition, hbuilt, List.mem_of_find?_eq_some hfield, hkind, hconstants⟩
      · obtain ⟨rest, sub, _, hnested, hinner⟩ := leaf?_eq_some_cons.1 hleaf
        have hhome := ih field sub hnested (hbuilt.of_nested? hnested) hinner
        exact hhome

end Definition

end FilterQuery
