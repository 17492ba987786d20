import FilterQuery.Proofs.Param.Destination
/-!
# Where one level routes a key

A key is that of the ordering, the name of a field, or the name of a nested field with the
delimiter and a key behind it.  What is passed on to a nested field is therefore told by what
it was given as, and no two keys are passed on as one.
-/

namespace FilterQuery

/-- A parameter as it is given from outside a nested field. -/
def Param.under (field : String) (param : Param) : Param :=
  ⟨field ++ Text.delimiter ++ param.key, param.raw⟩

theorem Param.under_injective (field : String) : Function.Injective (Param.under field) := by
  intro a b heq
  obtain ⟨hkey, hraw⟩ := Param.mk.inj heq
  have hrest : a.key = b.key := (String.append_right_inj _).1 hkey
  cases a
  cases b
  simp_all

namespace Definition

variable {definition : Definition} {params : List Param} {key field : String}

def routesTo (definition : Definition) (field key : String) : Bool :=
  match definition.route key with
  | .nested name _ => name == field
  | _ => false

theorem routesTo_iff :
    definition.routesTo field key ↔ ∃ rest, definition.route key = .nested field rest := by
  unfold routesTo
  cases definition.route key <;> simp

theorem route_eq_ordering_iff :
    definition.route key = .ordering ↔ key = definition.constants.orderingField := by
  constructor
  · intro hroute
    by_contra hkey
    unfold route at hroute
    rw [if_neg hkey] at hroute
    split at hroute
    · split at hroute <;> cases hroute
    · split at hroute <;> cases hroute
  · rintro rfl
    exact if_pos rfl

theorem key_of_route {rest : String} (hroute : definition.route key = .nested field rest) :
    field ++ Text.delimiter ++ rest = key :=
  (reads_of_route hroute).key_eq

theorem Built.route_eq_leaf_iff (hbuilt : definition.Built) {declared : DeclaredField}
    (hmem : declared ∈ definition.fields) (hkind : declared.kind.nested? = none) :
    definition.route key = .leaf declared ↔ key = declared.name := by
  constructor
  · intro hroute
    exact (name_of_field? (field?_of_route hroute).1).symm
  · rintro rfl
    have hfield : definition.field? declared.name = some declared :=
      hbuilt.regular.field?_of_mem hmem
    unfold route
    rw [if_neg (hbuilt.ne_orderingField hmem), hfield]
    simp [hkind]

/-! ## What is passed on -/

theorem passed?_eq_some_iff {param passed : Param} :
    definition.passed? field param = some passed ↔
      definition.routesTo field param.key ∧ passed.under field = param := by
  rw [routesTo_iff]
  unfold passed?
  constructor
  · intro hpassed
    split at hpassed
    · rename_i name rest hroute
      split at hpassed
      · rename_i hname
        cases hpassed
        subst hname
        refine ⟨⟨rest, hroute⟩, ?_⟩
        rw [Param.under, key_of_route hroute]
      · cases hpassed
    · cases hpassed
  · rintro ⟨⟨rest, hroute⟩, rfl⟩
    rw [hroute]
    have hkey : field ++ Text.delimiter ++ rest = field ++ Text.delimiter ++ passed.key :=
      key_of_route hroute
    rw [(String.append_right_inj _).1 hkey]
    exact if_pos rfl

/-- With its prefix put back, what is passed on to a nested field is what is routed to it. -/
theorem map_under_groupOf (definition : Definition) (params : List Param) (field : String) :
    (definition.groupOf params field).map (Param.under field) =
      params.filter (definition.routesTo field ·.key) := by
  unfold groupOf
  induction params with
  | nil => rfl
  | cons param rest ih =>
      rw [List.filterMap_cons, List.filter_cons]
      cases hpassed : definition.passed? field param with
      | none =>
          have hroute : ¬ definition.routesTo field param.key := by
            intro hroute
            obtain ⟨tail, htail⟩ := routesTo_iff.1 hroute
            simp [passed?, htail] at hpassed
          rw [if_neg hroute]
          exact ih
      | some passed =>
          obtain ⟨hroute, hunder⟩ := passed?_eq_some_iff.1 hpassed
          rw [if_pos hroute]
          exact congrArg₂ List.cons hunder ih

theorem eq_groupOf {group : List Param}
    (hgroup : group.map (Param.under field) =
      params.filter (definition.routesTo field ·.key)) :
    group = definition.groupOf params field := by
  have hmap := hgroup.trans (map_under_groupOf definition params field).symm
  exact List.map_injective_iff.2 (Param.under_injective field) hmap

theorem groupOf_eq_nil_iff :
    definition.groupOf params field = [] ↔
      params.filter (definition.routesTo field ·.key) = [] := by
  rw [← map_under_groupOf, List.map_eq_nil_iff]

end Definition

end FilterQuery
