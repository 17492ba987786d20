import FilterQuery.Proofs.Filter.Assignment
import FilterQuery.Proofs.Param.Destination
import FilterQuery.Proofs.Param.Reading
/-!
# What binding makes of parameters

Binding takes the parameters one by one and then the nested fields one by one.  After
each parameter, every field has the value of what was given for it so far, and the
parameters of nested fields are collected in order.  What is left at the end is said
once, field by field, in `Definition.Binds`; nothing later looks into the loops.
-/

namespace FilterQuery

/-! ## Collected parameters -/

namespace Groups

theorem lookup_add (groups : Groups) (field name : String) (param : Param) :
    (groups.add field param).lookup name =
      if name = field then some ((groups.lookup field).getD [] ++ [param])
      else groups.lookup name := by
  induction groups with
  | nil => rw [Groups.add, Lists.lookup_cons]; rfl
  | cons entry rest ih =>
      obtain ⟨head, params⟩ := entry
      unfold Groups.add
      by_cases hhead : head = field
      · subst hhead
        by_cases hname : name = head <;> simp [Lists.lookup_cons, hname]
      · rw [if_neg hhead, Lists.lookup_cons, Lists.lookup_cons, Lists.lookup_cons, ih]
        by_cases hname : name = head
        · simp [hname, hhead]
        · simp [hname, Ne.symm hhead]

theorem mem_keys_add {groups : Groups} {field name : String} {param : Param}
    (hmem : name ∈ (groups.add field param).map Prod.fst) :
    name = field ∨ name ∈ groups.map Prod.fst := by
  induction groups with
  | nil => exact .inl (by simpa [Groups.add] using hmem)
  | cons entry rest ih =>
      obtain ⟨head, params⟩ := entry
      unfold Groups.add at hmem
      split at hmem
      · exact .inr hmem
      · rcases List.mem_cons.1 hmem with rfl | hmem
        · exact .inr (.head _)
        · exact (ih hmem).imp_right (.tail _)

theorem nodup_add {groups : Groups} (hnodup : (groups.map Prod.fst).Nodup) (field : String)
    (param : Param) : ((groups.add field param).map Prod.fst).Nodup := by
  induction groups with
  | nil => simp [Groups.add]
  | cons entry rest ih =>
      obtain ⟨head, params⟩ := entry
      obtain ⟨hfresh, hrest⟩ := List.nodup_cons.1 hnodup
      unfold Groups.add
      split
      · exact hnodup
      · rename_i hhead
        refine List.nodup_cons.2 ⟨?_, ih hrest⟩
        intro hmem
        rcases mem_keys_add hmem with heq | hmem
        · exact hhead heq
        · exact hfresh hmem

theorem lookup_of_mem {groups : Groups} (hdistinct : (groups.map Prod.fst).Nodup)
    {field : String} {params : List Param} (hmem : (field, params) ∈ groups) :
    groups.lookup field = some params := by
  induction groups with
  | nil => cases hmem
  | cons entry rest ih =>
      obtain ⟨hfresh, hrest⟩ := List.nodup_cons.1 hdistinct
      obtain ⟨head, first⟩ := entry
      rw [Lists.lookup_cons]
      rcases List.mem_cons.1 hmem with heq | hlater
      · cases heq
        exact if_pos rfl
      · have hne : field ≠ head := fun heq =>
          hfresh (List.mem_map.2 ⟨(field, params), hlater, heq⟩)
        rw [if_neg hne, ih hrest hlater]

end Groups

/-! ## The invariant of the first loop -/

def Route.leads : Route → Bool
  | bareNested | unknown => false
  | _ => true

namespace Definition

section Append

variable (definition : Definition) (seen : List Param) (param : Param)

theorem rawsOf_append_singleton (leaf : Leaf) :
    definition.rawsOf (seen ++ [param]) leaf =
      definition.rawsOf seen leaf ++
        if definition.leaf? param.key = some leaf then [param.raw] else [] := by
  unfold rawsOf
  rw [List.filterMap_append]
  congr 1
  rw [List.filterMap_cons]
  split <;> simp_all

theorem groupOf_append_singleton (field : String) :
    definition.groupOf (seen ++ [param]) field =
      definition.groupOf seen field ++ (definition.passed? field param).toList := by
  unfold groupOf
  rw [List.filterMap_append, List.filterMap_cons]
  cases definition.passed? field param <;> rfl

end Append

/-- What has been made of the parameters seen so far. -/
structure Bound (definition : Definition) (seen : List Param) (filter : Filter)
    (groups : Groups) : Prop where
  definition_eq : filter.definition = definition
  leads : ∀ param ∈ seen, (definition.route param.key).leads
  leaf : ∀ name declared, definition.field? name = some declared →
    declared.kind.nested? = none →
    declared.readAll (definition.rawsOf seen ⟨[], declared, definition.constants⟩) =
      .ok (filter.get? name)
  nested : ∀ name sub, definition.nested? name = some sub → filter.get? name = none
  collected : ∀ name group, groups.lookup name = some group ↔
    group ≠ [] ∧ group = definition.groupOf seen name
  distinct : (groups.map Prod.fst).Nodup

theorem bound_blank (definition : Definition) :
    definition.Bound [] (.blank definition) [] where
  definition_eq := Filter.definition_blank definition
  leads := nofun
  leaf := fun name _ _ _ => by rw [Filter.get?_blank]; rfl
  nested := fun name _ _ => Filter.get?_blank definition name
  collected := fun name group => by
    constructor
    · intro hlookup
      cases hlookup
    · rintro ⟨hne, rfl⟩
      exact absurd rfl hne
  distinct := .nil

variable {definition : Definition} {seen : List Param} {param : Param}
  {filter later : Filter} {groups more : Groups} {validate : Bool}

theorem leads_append_singleton
    (hleads : ∀ param ∈ seen, (definition.route param.key).leads)
    (hlast : (definition.route param.key).leads) :
    ∀ other ∈ seen ++ [param], (definition.route other.key).leads := by
  intro other hmem
  rcases List.mem_append.1 hmem with hmem | hmem
  · exact hleads other hmem
  · exact List.mem_singleton.1 hmem ▸ hlast

theorem Bound.getD_lookup (hbound : definition.Bound seen filter groups) (field : String) :
    (groups.lookup field).getD [] = definition.groupOf seen field := by
  cases hlookup : groups.lookup field with
  | none =>
      by_contra hne
      have hsome := (hbound.collected field (definition.groupOf seen field)).2
        ⟨fun hnil => hne hnil.symm, rfl⟩
      rw [hlookup] at hsome
      cases hsome
  | some group => exact ((hbound.collected field group).1 hlookup).2

theorem Bound.ordering (hbound : definition.Bound seen filter groups)
    (hroute : definition.route param.key = .ordering) (entries : List String) :
    definition.Bound (seen ++ [param]) { filter with ordering := entries } groups := by
  have hleaf : definition.leaf? param.key = none := by rw [leaf?_eq, hroute]
  have hpassed : ∀ name, definition.passed? name param = none := by
    intro name
    rw [passed?, hroute]
  refine ⟨hbound.definition_eq, leads_append_singleton hbound.leads (by rw [hroute]; rfl), ?_,
    hbound.nested, ?_, hbound.distinct⟩
  · intro name declared hfield hkind
    rw [rawsOf_append_singleton, hleaf, if_neg (Option.some_ne_none _).symm, List.append_nil]
    exact hbound.leaf name declared hfield hkind
  · intro name group
    rw [groupOf_append_singleton, hpassed, Option.toList_none, List.append_nil]
    exact hbound.collected name group

theorem Bound.assign (hbound : definition.Bound seen filter groups) {declared : DeclaredField}
    (hroute : definition.route param.key = .leaf declared) {value : Value}
    (hread : declared.kind.read declared.name param.raw = .ok value)
    (hset : filter.set param.key (value.after (filter.get? param.key)) = .ok later) :
    definition.Bound (seen ++ [param]) later groups := by
  obtain ⟨hdefinition, _, hget⟩ := Filter.of_set hset
  obtain ⟨hfield, hkind⟩ := field?_of_route hroute
  have hleaf : definition.leaf? param.key = some ⟨[], declared, definition.constants⟩ :=
    leaf?_eq_some_nil.2 ⟨hroute, rfl⟩
  have hpassed : ∀ name, definition.passed? name param = none := by
    intro name
    rw [passed?, hroute]
  refine ⟨hdefinition.trans hbound.definition_eq,
    leads_append_singleton hbound.leads (by rw [hroute]; rfl), ?_, ?_, ?_, hbound.distinct⟩
  · -- One leaf has a text more, and it alone has another value.
    intro name other hother hnone
    rw [rawsOf_append_singleton, hget]
    by_cases hname : name = param.key
    · subst hname
      have hsame : other = declared := Option.some.inj (hother.symm.trans hfield)
      subst hsame
      rw [if_pos hleaf, if_pos rfl]
      exact DeclaredField.readAll_append_singleton (hbound.leaf _ _ hfield hkind) hread
    · have hne : definition.leaf? param.key ≠ some ⟨[], other, definition.constants⟩ := by
        intro heq
        cases hleaf.symm.trans heq
        exact hname ((name_of_field? hother).symm.trans (name_of_field? hfield))
      rw [if_neg hne, if_neg hname, List.append_nil]
      exact hbound.leaf name other hother hnone
  · intro name sub hnested
    have hname : name ≠ param.key := by
      rintro rfl
      rw [nested?_of_field? hfield, hkind] at hnested
      cases hnested
    rw [hget, if_neg hname]
    exact hbound.nested name sub hnested
  · intro name group
    rw [groupOf_append_singleton, hpassed, Option.toList_none, List.append_nil]
    exact hbound.collected name group

theorem Bound.pass (hbound : definition.Bound seen filter groups) {field rest : String}
    (hroute : definition.route param.key = .nested field rest) :
    definition.Bound (seen ++ [param]) filter (groups.add field ⟨rest, param.raw⟩) := by
  refine ⟨hbound.definition_eq, leads_append_singleton hbound.leads (by rw [hroute]; rfl), ?_,
    hbound.nested, ?_, Groups.nodup_add hbound.distinct _ _⟩
  · intro name declared hfield hkind
    have hne : definition.leaf? param.key ≠ some ⟨[], declared, definition.constants⟩ := by
      intro heq
      rw [leaf?_eq_some_nil, hroute] at heq
      cases heq.1
    rw [rawsOf_append_singleton, if_neg hne, List.append_nil]
    exact hbound.leaf name declared hfield hkind
  · intro name group
    have hpassed : definition.passed? name param =
        if field = name then some ⟨rest, param.raw⟩ else none := by
      rw [passed?, hroute]
    rw [Groups.lookup_add, groupOf_append_singleton, hpassed]
    by_cases hname : name = field
    · subst hname
      rw [if_pos rfl, if_pos rfl, hbound.getD_lookup]
      constructor
      · rintro ⟨⟩
        exact ⟨by simp, rfl⟩
      · rintro ⟨_, rfl⟩
        rfl
    · rw [if_neg hname, if_neg (Ne.symm hname), Option.toList_none, List.append_nil]
      exact hbound.collected name group

/-- What a step does: it takes an ordering, a value for a field, or a parameter to be passed on. -/
theorem bindParam_cases
    (hstep : bindParam validate definition (filter, groups) param = .ok (later, more)) :
    (definition.route param.key = .ordering ∧
      (validate → checkOrdering definition.constants (orderingEntries param.raw) = .ok ()) ∧
      later = { filter with ordering := orderingEntries param.raw } ∧ more = groups) ∨
    (∃ declared value, definition.route param.key = .leaf declared ∧
      declared.kind.read declared.name param.raw = .ok value ∧
      filter.set param.key (value.after (filter.get? param.key)) = .ok later ∧ more = groups) ∨
    ∃ field rest, definition.route param.key = .nested field rest ∧ later = filter ∧
      more = groups.add field ⟨rest, param.raw⟩ := by
  unfold bindParam at hstep
  cases hroute : definition.route param.key with
  | ordering =>
      simp only [hroute] at hstep
      split at hstep
      · obtain ⟨_, hcheck, heq⟩ := Outcome.bind_eq_ok.1 hstep
        cases heq
        exact .inl ⟨rfl, fun _ => hcheck, rfl, rfl⟩
      · rename_i hvalidate
        cases hstep
        exact .inl ⟨rfl, fun h => absurd h hvalidate, rfl, rfl⟩
  | leaf declared =>
      simp only [hroute] at hstep
      obtain ⟨value, hread, hrest⟩ := Outcome.bind_eq_ok.1 hstep
      obtain ⟨_, hassign, heq⟩ := Outcome.bind_eq_ok.1 hrest
      cases heq
      exact .inr (.inl ⟨declared, value, rfl, hread, Outcome.mapError_eq_ok.1 hassign, rfl⟩)
  | nested field rest =>
      simp only [hroute] at hstep
      cases hstep
      exact .inr (.inr ⟨field, rest, rfl, rfl, rfl⟩)
  | bareNested =>
      simp only [hroute] at hstep
      cases hstep
  | unknown =>
      simp only [hroute] at hstep
      cases hstep

theorem Bound.step (hbound : definition.Bound seen filter groups)
    (hstep : bindParam validate definition (filter, groups) param = .ok (later, more)) :
    definition.Bound (seen ++ [param]) later more := by
  obtain ⟨hroute, _, rfl, rfl⟩ | ⟨declared, value, hroute, hread, hset, rfl⟩ |
    ⟨field, rest, hroute, rfl, rfl⟩ := bindParam_cases hstep
  · exact hbound.ordering hroute _
  · exact hbound.assign hroute hread hset
  · exact hbound.pass hroute

theorem Bound.steps {params : List Param} (hbound : definition.Bound seen filter groups)
    (hsteps : params.foldlM (bindParam validate definition) (filter, groups) =
      .ok (later, more)) : definition.Bound (seen ++ params) later more := by
  induction params generalizing seen filter groups with
  | nil =>
      cases hsteps
      simpa using hbound
  | cons param rest ih =>
      rw [List.foldlM_cons] at hsteps
      obtain ⟨⟨next, collected⟩, hstep, hrest⟩ := Outcome.bind_eq_ok.1 hsteps
      have hall := ih (hbound.step hstep) hrest
      rwa [List.append_assoc] at hall

/-! ## The second loop -/

def bindGroup (validate : Bool) (definition : Definition) (filter : Filter)
    (entry : String × List Param) : Except BindError Filter :=
  match definition.nested? entry.1 with
  | some sub => do filter.assign entry.1 (.sub (← sub.bind validate entry.2))
  | none => return filter

theorem bind_eq (validate : Bool) (definition : Definition) (params : List Param) :
    definition.bind validate params =
      params.foldlM (bindParam validate definition) (.blank definition, []) >>=
        fun state => state.2.foldlM (definition.bindGroup validate) state.1 := by
  rw [Definition.bind]
  congr 1
  funext state
  obtain ⟨filter, groups⟩ := state
  dsimp only
  congr 1
  funext filter entry
  unfold bindGroup
  split
  · rename_i hnested
    rw [hnested]
  · rename_i hnested
    rw [hnested]

theorem bind_of_groups {params : List Param}
    (hfirst : params.foldlM (bindParam validate definition) (.blank definition, []) =
      .ok (filter, groups))
    (hsecond : groups.foldlM (definition.bindGroup validate) filter = .ok later) :
    definition.bind validate params = .ok later := by
  rw [bind_eq, hfirst]
  exact hsecond

theorem bindGroup_of_bind {field : String} {group : List Param} {sub : Definition}
    {below : Filter} (hnested : definition.nested? field = some sub)
    (hbelow : sub.bind validate group = .ok below) (filter : Filter) :
    definition.bindGroup validate filter (field, group) = filter.assign field (.sub below) := by
  unfold bindGroup
  simp only [hnested, hbelow]
  rfl

theorem get?_of_bindGroup {field : String} {group : List Param}
    (hbind : definition.bindGroup validate filter (field, group) = .ok later) :
    later.definition = filter.definition ∧
      (∀ name ≠ field, later.get? name = filter.get? name) ∧
      ∀ sub, definition.nested? field = some sub →
        ∃ below, sub.bind validate group = .ok below ∧
          later.get? field = some (.sub below) := by
  unfold bindGroup at hbind
  cases hnested : definition.nested? field with
  | none =>
      simp only [hnested] at hbind
      cases hbind
      exact ⟨rfl, fun _ _ => rfl, nofun⟩
  | some sub =>
      simp only [hnested] at hbind
      obtain ⟨below, hbelow, hassign⟩ := Outcome.bind_eq_ok.1 hbind
      obtain ⟨hdefinition, _, hget⟩ := Filter.of_set (Outcome.mapError_eq_ok.1 hassign)
      refine ⟨hdefinition, ?_, ?_⟩
      · intro name hname
        rw [hget, if_neg hname]
      · rintro _ ⟨⟩
        exact ⟨below, hbelow, by rw [hget, if_pos rfl]⟩

/-- Each nested field for which parameters were collected is bound from them; nothing else
changes. -/
theorem get?_of_bindGroups (hdistinct : (groups.map Prod.fst).Nodup)
    (hbind : groups.foldlM (definition.bindGroup validate) filter = .ok later) :
    later.definition = filter.definition ∧
      (∀ name, groups.lookup name = none → later.get? name = filter.get? name) ∧
      ∀ name group sub, groups.lookup name = some group →
        definition.nested? name = some sub →
        ∃ below, sub.bind validate group = .ok below ∧
          later.get? name = some (.sub below) := by
  induction groups generalizing filter with
  | nil =>
      cases hbind
      exact ⟨rfl, fun _ _ => rfl, nofun⟩
  | cons entry rest ih =>
      obtain ⟨field, params⟩ := entry
      obtain ⟨hfresh, hrest⟩ := List.nodup_cons.1 hdistinct
      rw [List.foldlM_cons] at hbind
      obtain ⟨next, hfirst, hbind⟩ := Outcome.bind_eq_ok.1 hbind
      obtain ⟨hdefinition, hkept, hbelow⟩ := get?_of_bindGroup hfirst
      obtain ⟨hdefinitions, hothers, hbelows⟩ := ih hrest hbind
      -- No later group is for the same field, so what was put there first stays.
      have hnone : List.lookup field rest = none := by
        rw [List.lookup_eq_none_iff]
        intro other hmem
        have hne : field ≠ other.1 := fun heq => hfresh (List.mem_map.2 ⟨other, hmem, heq.symm⟩)
        simpa using hne
      refine ⟨hdefinitions.trans hdefinition, ?_, ?_⟩
      · intro name hlookup
        rw [Lists.lookup_cons] at hlookup
        split at hlookup
        · cases hlookup
        · rename_i hname
          rw [hothers name hlookup, hkept name hname]
      · intro name group sub hlookup hnested
        rw [Lists.lookup_cons] at hlookup
        split at hlookup
        · rename_i hname
          subst hname
          cases hlookup
          rw [hothers name hnone]
          exact hbelow sub hnested
        · exact hbelows name group sub hlookup hnested

/-! ## What is bound -/

/-- What a filter that was bound from parameters holds: for each field what was given for
it, and for each nested field that anything was passed on to, the filter bound from
that. -/
structure Binds (validate : Bool) (definition : Definition) (params : List Param)
    (filter : Filter) : Prop where
  definition_eq : filter.definition = definition
  leads : ∀ param ∈ params, (definition.route param.key).leads
  leaf : ∀ name declared, definition.field? name = some declared →
    declared.kind.nested? = none →
    declared.readAll (definition.rawsOf params ⟨[], declared, definition.constants⟩) =
      .ok (filter.get? name)
  untouched : ∀ name sub, definition.nested? name = some sub →
    definition.groupOf params name = [] → filter.get? name = none
  passed : ∀ name sub, definition.nested? name = some sub →
    definition.groupOf params name ≠ [] →
    ∃ below, sub.bind validate (definition.groupOf params name) = .ok below ∧
      filter.get? name = some (.sub below)

theorem Regular.groupOf_eq_nil (hregular : definition.Regular) {params : List Param}
    {name : String} (hleaf : definition.nested? name = none) :
    definition.groupOf params name = [] := by
  unfold groupOf
  rw [List.filterMap_eq_nil_iff]
  intro param _
  unfold passed?
  split
  · rename_i field rest hroute
    obtain ⟨sub, hnested⟩ := hregular.nested?_of_route hroute
    apply if_neg
    rintro rfl
    rw [hleaf] at hnested
    cases hnested
  · rfl

theorem Regular.binds_of_bind (hregular : definition.Regular) {params : List Param}
    (hbind : definition.bind validate params = .ok filter) :
    definition.Binds validate params filter := by
  rw [bind_eq] at hbind
  obtain ⟨⟨first, groups⟩, hfirst, hsecond⟩ := Outcome.bind_eq_ok.1 hbind
  have hbound : definition.Bound params first groups := (bound_blank definition).steps hfirst
  obtain ⟨hdefinition, hkept, hbelow⟩ := get?_of_bindGroups hbound.distinct hsecond
  have huncollected : ∀ name, definition.groupOf params name = [] →
      groups.lookup name = none := by
    intro name hnil
    rw [Option.eq_none_iff_forall_ne_some]
    intro group hlookup
    obtain ⟨hne, rfl⟩ := (hbound.collected name group).1 hlookup
    exact hne hnil
  refine ⟨hdefinition.trans hbound.definition_eq, hbound.leads, ?_, ?_, ?_⟩
  · intro name declared hfield hkind
    have hnil : definition.groupOf params name = [] := by
      apply hregular.groupOf_eq_nil
      rw [nested?_of_field? hfield, hkind]
    rw [hkept name (huncollected name hnil)]
    exact hbound.leaf name declared hfield hkind
  · intro name sub hnested hnil
    rw [hkept name (huncollected name hnil)]
    exact hbound.nested name sub hnested
  · intro name sub hnested hne
    exact hbelow name _ sub ((hbound.collected name _).2 ⟨hne, rfl⟩) hnested

end Definition

end FilterQuery
