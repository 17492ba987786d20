import FilterQuery.Definition.Basic
/-!
# Routing keys

The key of a parameter names the ordering, a declared field, or a field of a
nested filter: there the key is the name of the nested field, the delimiter, and
a key for the nested filter.  Where several nested fields fit, the longest name
is meant.
-/

namespace FilterQuery

/-- What the key of a parameter names. -/
inductive Route where
  | ordering
  /-- a declared field that is not nested -/
  | leaf (declared : DeclaredField)
  /-- a nested field itself -/
  | bareNested
  /-- a key of the filter under a nested field -/
  | nested (field rest : String)
  | unknown

namespace Definition

/-- The ways to read a key as a nested field and a key below it. -/
def nestedReadings (definition : Definition) (key : String) : List (String × String) :=
  definition.fields.filterMap fun declared => do
    let _ ← declared.kind.nested?
    let rest ← (Text.after? declared.name key).bind (Text.after? Text.delimiter)
    if rest.isEmpty then none else some (declared.name, rest)

def route (definition : Definition) (key : String) : Route :=
  if key = definition.constants.orderingField then .ordering
  else
    match definition.field? key with
    | some declared => if declared.kind.nested?.isSome then .bareNested else .leaf declared
    | none =>
        match (definition.nestedReadings key).maxOn? (·.1.length) with
        | some (field, rest) => .nested field rest
        | none => .unknown

end Definition

end FilterQuery
