import FilterQuery.Proofs.Param.Meaning
/-!
# Which parameters are accepted

A parameter is accepted or refused by itself: whether its key leads somewhere, whether its
text can be read there and whether its ordering is allowed depend neither on the other
parameters nor on what has been bound before.  The filter never refuses what was read for one
of its fields, nor a filter bound for one of its nested fields.  Parameters are therefore
accepted when each of them is, and refused with the fault of one of them.
-/

namespace FilterQuery

namespace Definition

/-- What is checked of a parameter by itself, at the place that its key leads to. -/
def check (validate : Bool) (definition : Definition) (param : Param) : Except BindError Unit :=
  match definition.route param.key with
  | .ordering =>
      if validate then checkOrdering definition.constants (orderingEntries param.raw) else .ok ()
  | .leaf declared => (declared.kind.read declared.name param.raw).map fun _ => ()
  | .bareNested => .error (.bareNested param.key)
  | .nested field rest =>
      match _h : definition.nested? field with
      | some sub => sub.check validate ⟨rest, param.raw⟩
      | none => .ok ()
  | .unknown => .error (.unknownKey param.key)
termination_by sizeOf definition
decreasing_by exact Definition.sizeOf_nested? _h

variable {validate : Bool} {definition sub : Definition} {params : List Param}
  {param passed : Param} {filter later : Filter} {groups more : Groups} {field : String}
  {error : BindError}

theorem check_of_passed (hnested : definition.nested? field = some sub)
    (hpassed : definition.passed? field param = some passed) :
    definition.check validate param = sub.check validate passed := by
  obtain ⟨hrouted, hunder⟩ := passed?_eq_some_iff.1 hpassed
  obtain ⟨rest, hroute⟩ := routesTo_iff.1 hrouted
  have hrest : rest = passed.key := by
    have hkey := key_of_route hroute
    rw [← hunder] at hkey
    exact (String.append_right_inj _).1 hkey
  have hraw : param.raw = passed.raw := by rw [← hunder, Param.under]
  rw [check]
  simp only [hroute]
  split
  · rename_i found hfound
    have hsub : found = sub := Option.some.inj (hfound.symm.trans hnested)
    rw [hsub, hrest, hraw]
  · rename_i hnone
    rw [hnone] at hnested
    cases hnested

/-! ## What a filter never refuses -/

theorem accepts_of_isLeaf {kind : FieldKind} {value : Value} (hkind : kind.nested? = none)
    (hleaf : value.isLeaf) : kind.accepts value := by
  cases value with
  | sub filter => cases hleaf
  | _ =>
      cases kind with
      | nested definition => cases hkind
      | _ => rfl

theorem exists_assign (hdefinition : filter.definition = definition) {name : String}
    {declared : DeclaredField} {value : Value}
    (hfield : definition.field? name = some declared) (haccepts : declared.kind.accepts value) :
    ∃ later, filter.assign name value = .ok later := by
  rw [← hdefinition] at hfield
  obtain ⟨later, hset⟩ := Filter.exists_set hfield haccepts
  exact ⟨later, Outcome.mapError_eq_ok.2 hset⟩

theorem exists_assign_read (hdefinition : filter.definition = definition)
    {declared : DeclaredField} (hroute : definition.route param.key = .leaf declared)
    {value : Value} (hread : declared.kind.read declared.name param.raw = .ok value) :
    ∃ later, filter.assign param.key (value.after (filter.get? param.key)) = .ok later := by
  obtain ⟨hfield, hkind⟩ := field?_of_route hroute
  have hleaf := Value.isLeaf_after (FieldKind.isLeaf_of_read hread) (filter.get? param.key)
  exact exists_assign hdefinition hfield (accepts_of_isLeaf hkind hleaf)

theorem exists_assign_sub (hdefinition : filter.definition = definition)
    (hnested : definition.nested? field = some sub) {below : Filter}
    (hbelow : below.definition = sub) :
    ∃ later, filter.assign field (.sub below) = .ok later := by
  obtain ⟨declared, hfield, hkind⟩ := Option.bind_eq_some_iff.1 hnested
  have haccepts : declared.kind.accepts (.sub below) := by
    rw [FieldKind.nested?_eq_some_iff.1 hkind]
    exact decide_eq_true hbelow
  exact exists_assign hdefinition hfield haccepts

/-! ## One step -/

theorem definition_of_bindParam
    (hstep : bindParam validate definition (filter, groups) param = .ok (later, more)) :
    later.definition = filter.definition := by
  obtain ⟨_, _, rfl, _⟩ | ⟨_, _, _, _, hset, _⟩ | ⟨_, _, _, rfl, _⟩ := bindParam_cases hstep
  · rfl
  · exact (Filter.of_set hset).1
  · rfl

theorem check_of_bindParam_error (hdefinition : filter.definition = definition)
    (hstep : bindParam validate definition (filter, groups) param = .error error) :
    definition.check validate param = .error error := by
  unfold bindParam at hstep
  rw [check]
  cases hroute : definition.route param.key with
  | ordering =>
      simp only [hroute] at hstep ⊢
      by_cases hvalidate : validate
      · rw [if_pos hvalidate] at hstep ⊢
        rcases Outcome.bind_eq_error.1 hstep with hcheck | ⟨_, _, hrest⟩
        · exact hcheck
        · cases hrest
      · rw [if_neg hvalidate] at hstep
        cases hstep
  | leaf declared =>
      simp only [hroute] at hstep ⊢
      rcases Outcome.bind_eq_error.1 hstep with hread | ⟨value, hread, hrest⟩
      · rw [hread]
        rfl
      · obtain ⟨later, hassign⟩ := exists_assign_read hdefinition hroute hread
        simp only [hassign] at hrest
        cases hrest
  | nested field rest =>
      simp only [hroute] at hstep
      cases hstep
  | bareNested =>
      simp only [hroute] at hstep ⊢
      cases hstep
      rfl
  | unknown =>
      simp only [hroute] at hstep ⊢
      cases hstep
      rfl

theorem bind_of_bindGroup_error (hdefinition : filter.definition = definition)
    (hregular : ∀ sub, definition.nested? field = some sub → sub.Regular) {group : List Param}
    (hstep : definition.bindGroup validate filter (field, group) = .error error) :
    ∃ sub, definition.nested? field = some sub ∧ sub.bind validate group = .error error := by
  unfold bindGroup at hstep
  cases hnested : definition.nested? field with
  | none =>
      simp only [hnested] at hstep
      cases hstep
  | some sub =>
      simp only [hnested] at hstep
      rcases Outcome.bind_eq_error.1 hstep with hbelow | ⟨below, hbelow, hassign⟩
      · exact ⟨sub, rfl, hbelow⟩
      · have hsub := ((hregular sub hnested).binds_of_bind hbelow).definition_eq
        obtain ⟨later, hlater⟩ := exists_assign_sub hdefinition hnested hsub
        rw [hlater] at hassign
        cases hassign

/-! ## All parameters -/

theorem Built.check_of_bind (hbuilt : definition.Built)
    (hbind : definition.bind validate params = .ok filter) :
    ∀ param ∈ params, definition.check validate param = .ok () := by
  induction definition using nestedInduction generalizing params filter with
  | step definition ih =>
      intro param hmem
      have hbinds := hbuilt.regular.binds_of_bind hbind
      rw [bind_eq] at hbind
      obtain ⟨_, hfirst, _⟩ := Outcome.bind_eq_ok.1 hbind
      obtain ⟨_, _, hstep⟩ := Outcome.exists_step_of_foldlM hfirst hmem
      obtain ⟨hroute, hcheck, _⟩ | ⟨declared, value, hroute, hread, _⟩ | ⟨field, rest, hroute, _⟩ :=
        bindParam_cases hstep
      · rw [check]
        simp only [hroute]
        split
        · exact hcheck ‹_›
        · rfl
      · rw [check]
        simp only [hroute, hread]
        rfl
      · -- What is passed on to a nested field was bound there, so the check holds below.
        obtain ⟨sub, hnested⟩ := hbuilt.regular.nested?_of_route hroute
        have hpassed : definition.passed? field param = some ⟨rest, param.raw⟩ := by
          rw [passed?, hroute]
          exact if_pos rfl
        have hgroup : ⟨rest, param.raw⟩ ∈ definition.groupOf params field :=
          List.mem_filterMap.2 ⟨param, hmem, hpassed⟩
        obtain ⟨below, hbelow, _⟩ := hbinds.passed field sub hnested (List.ne_nil_of_mem hgroup)
        rw [check_of_passed hnested hpassed]
        exact ih field sub hnested (hbuilt.of_nested? hnested) hbelow _ hgroup

theorem Built.check_of_bind_error (hbuilt : definition.Built)
    (hbind : definition.bind validate params = .error error) :
    ∃ param ∈ params, definition.check validate param = .error error := by
  induction definition using nestedInduction generalizing params error with
  | step definition ih =>
      rw [bind_eq] at hbind
      -- Parameters of the level itself fail in the first pass, those passed on in the second.
      rcases Outcome.bind_eq_error.1 hbind with hfirst | ⟨⟨first, groups⟩, hfirst, hsecond⟩
      · have hkept : ∀ (state : Filter × Groups) (param : Param) (next : Filter × Groups),
            state.1.definition = definition →
            bindParam validate definition state param = .ok next →
            next.1.definition = definition :=
          fun _ _ _ hstate hstep => (definition_of_bindParam hstep).trans hstate
        obtain ⟨param, hmem, state, hstate, hstep⟩ :=
          Outcome.foldlM_eq_error hkept (Filter.definition_blank definition) hfirst
        exact ⟨param, hmem, check_of_bindParam_error hstate hstep⟩
      · have hbound : definition.Bound params first groups := (bound_blank definition).steps hfirst
        have hkept : ∀ (state : Filter) (entry : String × List Param) (next : Filter),
            state.definition = definition →
            definition.bindGroup validate state entry = .ok next →
            next.definition = definition :=
          fun _ _ _ hstate hstep => (get?_of_bindGroup hstep).1.trans hstate
        obtain ⟨⟨field, group⟩, hentry, state, hstate, hstep⟩ :=
          Outcome.foldlM_eq_error hkept hbound.definition_eq hsecond
        obtain ⟨sub, hnested, hbelow⟩ := bind_of_bindGroup_error hstate
          (fun _ hnested => (hbuilt.of_nested? hnested).regular) hstep
        obtain ⟨passed, hmem, hcheck⟩ := ih field sub hnested (hbuilt.of_nested? hnested) hbelow
        have hgroup : group = definition.groupOf params field :=
          ((hbound.collected field group).1 (Groups.lookup_of_mem hbound.distinct hentry)).2
        rw [hgroup] at hmem
        obtain ⟨param, hparam, hpassed⟩ := List.mem_filterMap.1 hmem
        exact ⟨param, hparam, (check_of_passed hnested hpassed).trans hcheck⟩

/-! ## Parameter by parameter -/

/-- Parameters are bound exactly when each of them passes the check. -/
theorem Built.exists_bind_iff_check (hbuilt : definition.Built) :
    (∃ filter, definition.bind validate params = .ok filter) ↔
      ∀ param ∈ params, definition.check validate param = .ok () := by
  constructor
  · rintro ⟨filter, hbind⟩
    exact hbuilt.check_of_bind hbind
  · intro hall
    cases hbind : definition.bind validate params with
    | ok filter => exact ⟨filter, rfl⟩
    | error error =>
        obtain ⟨param, hmem, hfault⟩ := hbuilt.check_of_bind_error hbind
        rw [hall param hmem] at hfault
        cases hfault

/-- Parameters are bound to the filter that they describe, where each of them passes the
check, and to no other. -/
theorem Built.bind_eq_ok_iff (hbuilt : definition.Built) :
    definition.bind validate params = .ok filter ↔
      (∀ param ∈ params, definition.check validate param = .ok ()) ∧
        definition.Describes validate params filter := by
  constructor
  · intro hbind
    exact ⟨hbuilt.check_of_bind hbind, hbuilt.describes_of_bind hbind⟩
  · rintro ⟨hcheck, hdescribes⟩
    obtain ⟨found, hfound⟩ := hbuilt.exists_bind_iff_check.2 hcheck
    have hsame : found = filter :=
      (hbuilt.describes_of_bind hfound).unique hbuilt.regular hdescribes
    rw [hfound, hsame]

theorem Built.bind_singleton_eq_error_iff (hbuilt : definition.Built) :
    definition.bind validate [param] = .error error ↔
      definition.check validate param = .error error := by
  constructor
  · intro hbind
    obtain ⟨found, hfound, hfault⟩ := hbuilt.check_of_bind_error hbind
    exact List.mem_singleton.1 hfound ▸ hfault
  · intro hfault
    cases hbind : definition.bind validate [param] with
    | ok filter =>
        have hcheck := hbuilt.check_of_bind hbind param (List.mem_singleton_self param)
        rw [hfault] at hcheck
        cases hcheck
    | error other =>
        obtain ⟨found, hfound, hother⟩ := hbuilt.check_of_bind_error hbind
        rw [List.mem_singleton.1 hfound, hfault] at hother
        rw [Except.error.inj hother]

theorem Built.exists_bind_iff (hbuilt : definition.Built) :
    (∃ filter, definition.bind validate params = .ok filter) ↔
      ∀ param ∈ params, ∃ filter, definition.bind validate [param] = .ok filter := by
  simp only [hbuilt.exists_bind_iff_check, List.forall_mem_singleton]

theorem Built.exists_bind_error (hbuilt : definition.Built)
    (hbind : definition.bind validate params = .error error) :
    ∃ param ∈ params, definition.bind validate [param] = .error error := by
  obtain ⟨param, hmem, hfault⟩ := hbuilt.check_of_bind_error hbind
  exact ⟨param, hmem, hbuilt.bind_singleton_eq_error_iff.2 hfault⟩

end Definition

end FilterQuery
