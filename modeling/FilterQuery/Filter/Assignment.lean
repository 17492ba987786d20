import FilterQuery.Filter.Basic
import FilterQuery.Definition.Equality
/-!
# Setting and clearing values

A value goes into the slot of its field.  A nested field takes the sub-filters of
its own definition and nothing else; no other field takes a sub-filter.  Neither
setting nor clearing changes the definition of a filter.
-/

namespace FilterQuery

inductive FilterError where
  | unknownField (filter field : String)
  | kindMismatch (field expected : String)
deriving DecidableEq, Repr

def FilterError.message : FilterError → String
  | .unknownField filter field =>
      "Unknown field '" ++ field ++ "' for filter '" ++ filter ++ "'"
  | .kindMismatch field expected => "Field '" ++ field ++ "' expects " ++ expected

def FieldKind.accepts : FieldKind → Value → Bool
  | .nested definition, .sub filter => filter.definition = definition
  | .nested _, _ => false
  | _, .sub _ => false
  | _, _ => true

def Slot.assign (name : String) (value : Option Value) : List Slot → List Slot
  | [] => []
  | slot :: rest =>
      if slot.name = name then { slot with value } :: rest
      else slot :: Slot.assign name value rest

namespace Filter

def slot? (filter : Filter) (name : String) : Except FilterError Slot :=
  match filter.slots.find? (·.name == name) with
  | some slot => .ok slot
  | none => .error (.unknownField filter.name name)

def get? (filter : Filter) (name : String) : Option Value :=
  (filter.slots.find? (·.name == name)).bind (·.value)

def set (filter : Filter) (name : String) (value : Value) : Except FilterError Filter := do
  let slot ← filter.slot? name
  if slot.declared.kind.accepts value then
    return { filter with slots := Slot.assign name (some value) filter.slots }
  else
    throw (.kindMismatch name slot.declared.kind.describe)

/-- The filter with a value cleared, and what it was. -/
def unset (filter : Filter) (name : String) : Except FilterError (Filter × Option Value) := do
  let slot ← filter.slot? name
  return ({ filter with slots := Slot.assign name none filter.slots }, slot.value)

end Filter

@[simp] theorem Slot.map_declared_assign (name : String) (value : Option Value)
    (slots : List Slot) :
    (Slot.assign name value slots).map Slot.declared = slots.map Slot.declared := by
  induction slots with
  | nil => rfl
  | cons slot rest ih =>
      unfold Slot.assign
      split <;> simp [ih]

end FilterQuery
