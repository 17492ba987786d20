import FilterQuery.Param.Coercion
import FilterQuery.Param.Ordering
import FilterQuery.Param.Route
/-!
# Binding parameters

Parameters are pairs of a key and a text.  Each goes where its key leads: the last
ordering counts, the last value of a field counts, values of a list field
accumulate, and what belongs to a nested field is collected and bound as a filter
of its own once all parameters have been seen.
-/

namespace FilterQuery

structure Param where
  key : String
  raw : String
deriving DecidableEq, Repr

/-- Parameters collected for nested fields, in the order of first appearance. -/
abbrev Groups := List (String × List Param)

def Groups.add (field : String) (param : Param) : Groups → Groups
  | [] => [(field, [param])]
  | (name, params) :: rest =>
      if name = field then (name, params ++ [param]) :: rest
      else (name, params) :: Groups.add field param rest

/-- A value after the value that its field already has: lists accumulate. -/
def Value.after : Option Value → Value → Value
  | some (.list earlier), .list items => .list (earlier ++ items)
  | _, value => value

def Filter.assign (filter : Filter) (field : String) (value : Value) :
    Except BindError Filter :=
  (filter.set field value).mapError .refused

/-- The filter and the groups after one more parameter. -/
def bindParam (validate : Bool) (definition : Definition) :
    Filter × Groups → Param → Except BindError (Filter × Groups)
  | (filter, groups), param =>
      match definition.route param.key with
      | .ordering => do
          let entries := orderingEntries param.raw
          if validate then checkOrdering definition.constants entries
          return ({ filter with ordering := entries }, groups)
      | .leaf declared => do
          let value ← declared.kind.read declared.name param.raw
          let value := value.after (filter.get? param.key)
          return (← filter.assign param.key value, groups)
      | .bareNested => throw (.bareNested param.key)
      | .nested field rest => return (filter, groups.add field ⟨rest, param.raw⟩)
      | .unknown => throw (.unknownKey param.key)

theorem Definition.sizeOf_nested? {definition sub : Definition} {name : String}
    (h : definition.nested? name = some sub) : sizeOf sub < sizeOf definition := by
  obtain ⟨declared, hfind, hkind⟩ := Option.bind_eq_some_iff.1 h
  have hmem : declared ∈ definition.fields := List.mem_of_find?_eq_some hfind
  have hsize := List.sizeOf_lt_of_mem hmem
  obtain ⟨_, fields, _⟩ := definition
  obtain ⟨_, kind⟩ := declared
  cases kind <;> simp [FieldKind.nested?] at hkind
  subst hkind
  simp at hsize ⊢
  omega

/-- The filter of a definition that parameters describe. -/
def Definition.bind (validate : Bool) (definition : Definition) (params : List Param) :
    Except BindError Filter := do
  let (filter, groups) ←
    params.foldlM (bindParam validate definition) (.blank definition, [])
  groups.foldlM (fun filter (field, group) =>
    match _h : definition.nested? field with
    | some sub => do filter.assign field (.sub (← sub.bind validate group))
    | none => return filter) filter
termination_by sizeOf definition
decreasing_by exact Definition.sizeOf_nested? _h

end FilterQuery
