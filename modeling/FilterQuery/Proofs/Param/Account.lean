import FilterQuery.Proofs.Conditions.Demand
import FilterQuery.Proofs.Param.Binding
/-!
# What a bound filter asks for

The demands of a filter that was bound from parameters are told by the parameters alone:
a value of each leaf that was given, and the links of the chains of those leaves.  None
is missing, none is there twice and there are no others.  The account of a definition
follows from those of its nested definitions, for the parameters passed on to them.
-/

namespace FilterQuery

namespace Definition

/-- The demands of a filter, told by the parameters it was bound from. -/
structure Accounts (definition : Definition) (params : List Param) (filter : Filter) :
    Prop where
  nodup : filter.demands.Nodup
  arrives : ∀ param ∈ params, (definition.destination? param.key).isSome
  read : ∀ leaf ∈ definition.leaves params,
    ∃ value, leaf.declared.readAll (definition.rawsOf params leaf) = .ok (some value)
  field : ∀ leaf value, .field leaf value ∈ filter.demands ↔
    leaf ∈ definition.leaves params ∧
      leaf.declared.readAll (definition.rawsOf params leaf) = .ok (some value)
  link : ∀ chain, .link chain ∈ filter.demands ↔
    chain ≠ [] ∧ ∃ leaf ∈ definition.leaves params, chain <+: leaf.chain

def AccountsBelow (validate : Bool) (definition : Definition) (params : List Param) : Prop :=
  ∀ name sub below, definition.nested? name = some sub →
    sub.bind validate (definition.groupOf params name) = .ok below →
    sub.Accounts (definition.groupOf params name) below

theorem Accounts.demands_ne_nil_iff {definition : Definition} {params : List Param}
    {filter : Filter} (haccounts : definition.Accounts params filter) :
    filter.demands ≠ [] ↔ ∃ leaf, leaf ∈ definition.leaves params := by
  constructor
  · intro hne
    obtain ⟨demand, hmem⟩ := List.exists_mem_of_ne_nil _ hne
    cases demand with
    | link chain =>
        obtain ⟨_, leaf, hleaf, _⟩ := (haccounts.link chain).1 hmem
        exact ⟨leaf, hleaf⟩
    | field leaf value => exact ⟨leaf, ((haccounts.field leaf value).1 hmem).1⟩
  · rintro ⟨leaf, hleaf⟩
    obtain ⟨value, hvalue⟩ := haccounts.read leaf hleaf
    exact List.ne_nil_of_mem ((haccounts.field leaf value).2 ⟨hleaf, hvalue⟩)

/-! ## Slots and fields -/

section Slots

variable {definition : Definition} {filter : Filter} (hregular : definition.Regular)
  (hdefinition : filter.definition = definition)

include hregular hdefinition

theorem Regular.slots_nodup : (filter.slots.map Slot.name).Nodup := by
  subst hdefinition
  have hnames := hregular.names_nodup
  rwa [Filter.definition, List.map_map] at hnames

theorem Regular.get?_of_mem {slot : Slot} (hmem : slot ∈ filter.slots) :
    definition.field? slot.name = some slot.declared ∧ filter.get? slot.name = slot.value := by
  constructor
  · refine hregular.field?_eq_some_iff.2 ⟨?_, rfl⟩
    subst hdefinition
    exact List.mem_map.2 ⟨slot, hmem, rfl⟩
  · rw [Filter.get?, Lists.find?_of_mem (hregular.slots_nodup hdefinition) hmem]
    rfl

theorem Regular.slots_eq :
    filter.slots = definition.fields.map fun declared => ⟨declared, filter.get? declared.name⟩ := by
  have hfields : definition.fields = filter.slots.map Slot.declared := hdefinition ▸ rfl
  have hslot : ∀ slot ∈ filter.slots, slot = ⟨slot.declared, filter.get? slot.declared.name⟩ := by
    rintro ⟨declared, value⟩ hmem
    have hget : filter.get? declared.name = value := (hregular.get?_of_mem hdefinition hmem).2
    exact congrArg (Slot.mk declared) hget.symm
  calc
    filter.slots = filter.slots.map id := (List.map_id _).symm
    _ = filter.slots.map fun slot => ⟨slot.declared, filter.get? slot.declared.name⟩ :=
      List.map_congr_left hslot
    _ = definition.fields.map fun declared => ⟨declared, filter.get? declared.name⟩ := by
      rw [hfields, List.map_map]
      rfl

theorem Regular.setFields_eq :
    filter.setFields = definition.fields.filterMap fun declared =>
      ((filter.get? declared.name).filter (!·.isNull)).map (declared, ·) := by
  unfold Filter.setFields
  rw [hregular.slots_eq hdefinition, List.filterMap_map]
  rfl

theorem Regular.mem_demands {demand : Demand} :
    demand ∈ filter.demands ↔
      ∃ declared value, definition.field? declared.name = some declared ∧
        filter.get? declared.name = some value ∧
        demand ∈ value.demands definition.constants declared := by
  have hconstants : filter.constants = definition.constants := hdefinition ▸ rfl
  rw [Filter.mem_demands, hconstants]
  constructor
  · rintro ⟨slot, hslot, value, hvalue, hmem⟩
    obtain ⟨hfield, hget⟩ := hregular.get?_of_mem hdefinition hslot
    exact ⟨slot.declared, value, hfield, hget.trans hvalue, hmem⟩
  · rintro ⟨declared, value, hfield, hget, hmem⟩
    have hdeclared := (hregular.field?_eq_some_iff.1 hfield).1
    rw [← hdefinition] at hdeclared
    obtain ⟨slot, hslot, rfl⟩ := List.mem_map.1 hdeclared
    have hvalue := (hregular.get?_of_mem hdefinition hslot).2
    exact ⟨slot, hslot, value, hvalue.symm.trans hget, hmem⟩

theorem Regular.field?_of_get? {name : String} {value : Value}
    (hget : filter.get? name = some value) :
    ∃ declared, declared.name = name ∧ definition.field? name = some declared := by
  obtain ⟨slot, hfind, _⟩ := Option.bind_eq_some_iff.1 hget
  have hname : slot.name = name := by simpa using List.find?_some hfind
  have hfield := (hregular.get?_of_mem hdefinition (List.mem_of_find?_eq_some hfind)).1
  exact ⟨slot.declared, hname, hname ▸ hfield⟩

theorem Regular.field_cons_mem_demands {name : String} {chain : List String}
    {declared : DeclaredField} {constants : Constants} {value : Value} :
    .field ⟨name :: chain, declared, constants⟩ value ∈ filter.demands ↔
      ∃ below, filter.get? name = some (.sub below) ∧
        .field ⟨chain, declared, constants⟩ value ∈ below.demands := by
  rw [hregular.mem_demands hdefinition]
  constructor
  · rintro ⟨found, _, _, hget, hmem⟩
    obtain ⟨rfl, below, rfl, hbelow⟩ := Value.field_cons_mem_demands.1 hmem
    exact ⟨below, hget, hbelow⟩
  · rintro ⟨below, hget, hmem⟩
    obtain ⟨found, rfl, hfield⟩ := hregular.field?_of_get? hdefinition hget
    exact ⟨found, _, hfield, hget, Value.field_cons_mem_demands.2 ⟨rfl, below, rfl, hmem⟩⟩

theorem Regular.link_cons_mem_demands {name : String} {chain : List String} :
    .link (name :: chain) ∈ filter.demands ↔
      ∃ below, filter.get? name = some (.sub below) ∧ below.demands ≠ [] ∧
        (chain = [] ∨ .link chain ∈ below.demands) := by
  rw [hregular.mem_demands hdefinition]
  constructor
  · rintro ⟨found, _, _, hget, hmem⟩
    obtain ⟨rfl, below, rfl, hbelow⟩ := Value.link_cons_mem_demands.1 hmem
    exact ⟨below, hget, hbelow⟩
  · rintro ⟨below, hget, hmem⟩
    obtain ⟨found, rfl, hfield⟩ := hregular.field?_of_get? hdefinition hget
    exact ⟨found, _, hfield, hget, Value.link_cons_mem_demands.2 ⟨rfl, below, rfl, hmem⟩⟩

end Slots

/-! ## One level of the account -/

section Level

variable {validate : Bool} {definition : Definition} {params : List Param} {filter : Filter}
  (hregular : definition.Regular) (hbinds : definition.Binds validate params filter)

include hbinds

theorem Binds.isLeaf_of_get? {name : String} {declared : DeclaredField} {value : Value}
    (hfield : definition.field? name = some declared) (hget : filter.get? name = some value)
    (hkind : declared.kind.nested? = none) : value.isLeaf := by
  have hread := hbinds.leaf name declared hfield hkind
  exact (DeclaredField.of_readAll hread).2 value (by rw [hget]; rfl)

theorem Binds.of_get?_nested {name : String} {sub : Definition} {value : Value}
    (hnested : definition.nested? name = some sub) (hget : filter.get? name = some value) :
    ∃ below, value = .sub below ∧
      sub.bind validate (definition.groupOf params name) = .ok below := by
  by_cases hgroup : definition.groupOf params name = []
  · rw [hbinds.untouched name sub hnested hgroup] at hget
    cases hget
  · obtain ⟨below, hbelow, hsome⟩ := hbinds.passed name sub hnested hgroup
    exact ⟨below, Option.some.inj (hget.symm.trans hsome), hbelow⟩

theorem Binds.read_nil {declared : DeclaredField} {constants : Constants}
    (hmem : ⟨[], declared, constants⟩ ∈ definition.leaves params) :
    ∃ value, declared.readAll (definition.rawsOf params ⟨[], declared, constants⟩) =
      .ok (some value) ∧ filter.get? declared.name = some value := by
  obtain ⟨rfl, hfield, hkind⟩ := of_mem_leaves_nil hmem
  have hread := hbinds.leaf declared.name declared hfield hkind
  cases hget : filter.get? declared.name with
  | none =>
      rw [hget] at hread
      have hnil := (DeclaredField.of_readAll hread).1.1 rfl
      exact absurd hmem (rawsOf_eq_nil_iff.1 hnil)
  | some value => exact ⟨value, hget ▸ hread, rfl⟩

theorem Binds.read (haccounts : definition.AccountsBelow validate params) (leaf : Leaf)
    (hmem : leaf ∈ definition.leaves params) :
    ∃ value, leaf.declared.readAll (definition.rawsOf params leaf) = .ok (some value) := by
  obtain ⟨_ | ⟨name, chain⟩, declared, constants⟩ := leaf
  · obtain ⟨value, hread, _⟩ := hbinds.read_nil hmem
    exact ⟨value, hread⟩
  obtain ⟨sub, hnested, hleaf⟩ := mem_leaves_cons.1 hmem
  obtain ⟨below, hbelow, _⟩ := hbinds.passed name sub hnested (ne_nil_of_mem_leaves hleaf)
  rw [rawsOf_cons hnested]
  exact (haccounts name sub below hnested hbelow).read _ hleaf

include hregular

theorem Binds.field_nil {declared : DeclaredField} {constants : Constants} {value : Value} :
    .field ⟨[], declared, constants⟩ value ∈ filter.demands ↔
      ⟨[], declared, constants⟩ ∈ definition.leaves params ∧
        declared.readAll (definition.rawsOf params ⟨[], declared, constants⟩) =
          .ok (some value) := by
  rw [hregular.mem_demands hbinds.definition_eq]
  constructor
  · rintro ⟨found, _, hfield, hget, hmem⟩
    obtain ⟨hleaf, rfl, rfl, rfl⟩ := Value.field_nil_mem_demands.1 hmem
    have hkind : declared.kind.nested? = none := by
      cases hkind : declared.kind.nested? with
      | none => rfl
      | some sub =>
          have hnested : definition.nested? declared.name = some sub :=
            (nested?_of_field? hfield).trans hkind
          obtain ⟨below, rfl, _⟩ := hbinds.of_get?_nested hnested hget
          cases hleaf
    have hread := hbinds.leaf declared.name declared hfield hkind
    rw [hget] at hread
    refine ⟨?_, hread⟩
    by_contra hnot
    have hnil := (DeclaredField.of_readAll hread).1.2 (rawsOf_eq_nil_iff.2 hnot)
    cases hnil
  · rintro ⟨hmem, hread⟩
    obtain ⟨hconstants, hfield, hkind⟩ := of_mem_leaves_nil hmem
    obtain ⟨found, hfound, hget⟩ := hbinds.read_nil hmem
    rw [hread] at hfound
    cases hfound
    exact ⟨declared, value, hfield, hget, Value.field_nil_mem_demands.2
      ⟨hbinds.isLeaf_of_get? hfield hget hkind, rfl, rfl, hconstants⟩⟩

theorem Binds.get?_eq_sub_iff {name : String} {below : Filter} :
    filter.get? name = some (.sub below) ↔
      ∃ sub, definition.nested? name = some sub ∧ definition.groupOf params name ≠ [] ∧
        sub.bind validate (definition.groupOf params name) = .ok below := by
  constructor
  · intro hget
    obtain ⟨declared, rfl, hfield⟩ := hregular.field?_of_get? hbinds.definition_eq hget
    cases hkind : declared.kind.nested? with
    | none =>
        have hleaf := hbinds.isLeaf_of_get? hfield hget hkind
        cases hleaf
    | some sub =>
        have hnested : definition.nested? declared.name = some sub :=
          (nested?_of_field? hfield).trans hkind
        obtain ⟨found, heq, hbelow⟩ := hbinds.of_get?_nested hnested hget
        cases heq
        refine ⟨sub, hnested, ?_, hbelow⟩
        intro hgroup
        rw [hbinds.untouched _ sub hnested hgroup] at hget
        cases hget
  · rintro ⟨sub, hnested, hgroup, hbelow⟩
    obtain ⟨found, hfound, hget⟩ := hbinds.passed name sub hnested hgroup
    rw [hbelow] at hfound
    cases hfound
    exact hget

/-! ## From the nested definitions to the definition -/

variable (haccounts : definition.AccountsBelow validate params)

include haccounts

theorem Binds.field_iff (leaf : Leaf) (value : Value) :
    .field leaf value ∈ filter.demands ↔ leaf ∈ definition.leaves params ∧
      leaf.declared.readAll (definition.rawsOf params leaf) = .ok (some value) := by
  obtain ⟨_ | ⟨name, chain⟩, declared, constants⟩ := leaf
  · exact hbinds.field_nil hregular
  rw [hregular.field_cons_mem_demands hbinds.definition_eq, mem_leaves_cons]
  constructor
  · rintro ⟨below, hget, hmem⟩
    obtain ⟨sub, hnested, _, hbelow⟩ := (hbinds.get?_eq_sub_iff hregular).1 hget
    have hfield := ((haccounts name sub below hnested hbelow).field _ value).1 hmem
    rw [rawsOf_cons hnested]
    exact ⟨⟨sub, hnested, hfield.1⟩, hfield.2⟩
  · rintro ⟨⟨sub, hnested, hleaf⟩, hread⟩
    rw [rawsOf_cons hnested] at hread
    obtain ⟨below, hbelow, hget⟩ := hbinds.passed name sub hnested (ne_nil_of_mem_leaves hleaf)
    exact ⟨below, hget, ((haccounts name sub below hnested hbelow).field _ value).2 ⟨hleaf, hread⟩⟩

theorem Binds.link_iff (chain : List String) :
    .link chain ∈ filter.demands ↔
      chain ≠ [] ∧ ∃ leaf ∈ definition.leaves params, chain <+: leaf.chain := by
  obtain _ | ⟨name, chain⟩ := chain
  · exact iff_of_false (Filter.link_nil_not_mem_demands filter) (fun h => h.1 rfl)
  rw [hregular.link_cons_mem_demands hbinds.definition_eq]
  constructor
  · rintro ⟨below, hget, hne, hchain⟩
    obtain ⟨sub, hnested, _, hbelow⟩ := (hbinds.get?_eq_sub_iff hregular).1 hget
    have hbelows := haccounts name sub below hnested hbelow
    have hleaf : ∃ leaf ∈ sub.leaves (definition.groupOf params name), chain <+: leaf.chain := by
      rcases hchain with rfl | hmem
      · obtain ⟨leaf, hleaf⟩ := hbelows.demands_ne_nil_iff.1 hne
        exact ⟨leaf, hleaf, List.nil_prefix⟩
      · exact ((hbelows.link chain).1 hmem).2
    obtain ⟨leaf, hleaf, hprefix⟩ := hleaf
    exact ⟨List.cons_ne_nil _ _, leaf.under name, mem_leaves_cons.2 ⟨sub, hnested, hleaf⟩,
      List.cons_prefix_cons.2 ⟨rfl, hprefix⟩⟩
  · rintro ⟨_, ⟨outer, declared, constants⟩, hleaf, hprefix⟩
    obtain ⟨inner, rfl, hinner⟩ := List.cons_prefix_iff.1 hprefix
    obtain ⟨sub, hnested, hleaf⟩ := mem_leaves_cons.1 hleaf
    obtain ⟨below, hbelow, hget⟩ := hbinds.passed name sub hnested (ne_nil_of_mem_leaves hleaf)
    have hbelows := haccounts name sub below hnested hbelow
    refine ⟨below, hget, hbelows.demands_ne_nil_iff.2 ⟨_, hleaf⟩, ?_⟩
    by_cases hnil : chain = []
    · exact .inl hnil
    · exact .inr ((hbelows.link chain).2 ⟨hnil, _, hleaf, hinner⟩)

theorem Binds.arrives (param : Param) (hmem : param ∈ params) :
    (definition.destination? param.key).isSome := by
  have hleads := hbinds.leads param hmem
  rw [destination?_eq]
  cases hroute : definition.route param.key with
  | ordering => rfl
  | leaf declared => rfl
  | nested field rest =>
      obtain ⟨sub, hnested⟩ := hregular.nested?_of_route hroute
      have hpassed : ⟨rest, param.raw⟩ ∈ definition.groupOf params field :=
        List.mem_filterMap.2 ⟨param, hmem, by simp [passed?, hroute]⟩
      obtain ⟨below, hbelow, _⟩ :=
        hbinds.passed field sub hnested (List.ne_nil_of_mem hpassed)
      have harrives := (haccounts field sub below hnested hbelow).arrives _ hpassed
      simpa [hnested] using harrives
  | bareNested =>
      rw [hroute] at hleads
      cases hleads
  | unknown =>
      rw [hroute] at hleads
      cases hleads

theorem Binds.nodup_demands : filter.demands.Nodup := by
  refine Filter.nodup_demands (hregular.slots_nodup hbinds.definition_eq) ?_
  intro slot hslot below hvalue
  have hget := (hregular.get?_of_mem hbinds.definition_eq hslot).2.trans hvalue
  obtain ⟨sub, hnested, _, hbelow⟩ := (hbinds.get?_eq_sub_iff hregular).1 hget
  exact (haccounts slot.name sub below hnested hbelow).nodup

end Level

/-- A filter bound from parameters asks for what the parameters tell, and nothing else. -/
theorem Built.accounts {validate : Bool} {definition : Definition} (hbuilt : definition.Built)
    {params : List Param} {filter : Filter}
    (hbind : definition.bind validate params = .ok filter) :
    definition.Accounts params filter := by
  induction definition using nestedInduction generalizing params filter with
  | step definition ih =>
      have hregular := hbuilt.regular
      have hbinds := hregular.binds_of_bind hbind
      have haccounts : definition.AccountsBelow validate params :=
        fun name sub _ hnested => ih name sub hnested (hbuilt.of_nested? hnested)
      exact ⟨hbinds.nodup_demands hregular haccounts, hbinds.arrives hregular haccounts,
        hbinds.read haccounts, hbinds.field_iff hregular haccounts,
        hbinds.link_iff hregular haccounts⟩

end Definition

end FilterQuery
