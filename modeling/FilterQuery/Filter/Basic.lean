import FilterQuery.Definition.Basic
import FilterQuery.Json.Basic
/-!
# Filters

A filter is a definition with values for some of its fields.  It keeps one slot
for each declared field, in declaration order, so its definition can be read back
from it and values never lose the field they belong to.  A null value counts as
no value, and a sub-filter without values counts as empty, at any depth.
-/

namespace FilterQuery

mutual

inductive Value where
  /-- one JSON value -/
  | scalar (value : Json)
  /-- a list of JSON values -/
  | list (items : List Json)
  /-- a truth value -/
  | bool (value : Bool)
  /-- a filter on a linked document -/
  | sub (filter : Filter)

structure Slot where
  declared : DeclaredField
  value : Option Value

/-- A definition with values for some of its fields, and an ordering. -/
structure Filter where
  name : String
  slots : List Slot
  constants : Constants
  /-- the sort keys as they were given -/
  ordering : List String

end

namespace Value

def isNull : Value → Bool
  | scalar .null => true
  | _ => false

def sub? : Value → Option Filter
  | sub filter => some filter
  | _ => none

def ofJson : Json → Value
  | .bool value => bool value
  | .array items => list items
  | value => scalar value

end Value

def Slot.name (slot : Slot) : String :=
  slot.declared.name

/-- The value of a slot that counts as one. -/
def Slot.set? (slot : Slot) : Option Value :=
  slot.value.filter fun value => !value.isNull

namespace Filter

def blank (definition : Definition) : Filter :=
  ⟨definition.name, definition.fields.map fun declared => ⟨declared, none⟩,
    definition.constants, []⟩

def definition (filter : Filter) : Definition :=
  ⟨filter.name, filter.slots.map Slot.declared, filter.constants⟩

/-- The fields that have a value, in declaration order.  The ordering is not one
of them. -/
def setFields (filter : Filter) : List (DeclaredField × Value) :=
  filter.slots.filterMap fun slot => slot.set?.map fun value => (slot.declared, value)

end Filter

mutual

/-- Whether a value constrains nothing: it is null or an empty sub-filter. -/
def Value.isVoid : Value → Bool
  | .scalar .null => true
  | .sub filter => filter.isEmpty
  | _ => false

def Slot.allVoid : List Slot → Bool
  | [] => true
  | ⟨_, none⟩ :: rest => Slot.allVoid rest
  | ⟨_, some value⟩ :: rest => value.isVoid && Slot.allVoid rest

def Filter.isEmpty : Filter → Bool
  | ⟨_, slots, _, _⟩ => Slot.allVoid slots

end

theorem Value.isNull_iff {value : Value} : value.isNull ↔ value = .scalar .null := by
  unfold Value.isNull
  split <;> simp_all

theorem Slot.set?_eq_some_iff {slot : Slot} {value : Value} :
    slot.set? = some value ↔ slot.value = some value ∧ value.isNull = false := by
  simp [Slot.set?]

theorem Filter.declared_mem_fields {filter : Filter} {slot : Slot} (hmem : slot ∈ filter.slots) :
    slot.declared ∈ filter.definition.fields :=
  List.mem_map_of_mem hmem

theorem Filter.value_of_mem_blank {definition : Definition} {slot : Slot}
    (hmem : slot ∈ (Filter.blank definition).slots) : slot.value = none := by
  obtain ⟨declared, _, rfl⟩ := List.mem_map.1 hmem
  rfl

theorem Filter.mem_setFields {filter : Filter} {declared : DeclaredField} {value : Value} :
    (declared, value) ∈ filter.setFields ↔
      ∃ slot ∈ filter.slots, slot.declared = declared ∧ slot.set? = some value := by
  simp only [Filter.setFields, List.mem_filterMap, Option.map_eq_some_iff, Prod.mk.injEq]
  grind

@[simp] theorem Filter.definition_blank (definition : Definition) :
    (Filter.blank definition).definition = definition := by
  cases definition
  simp [Filter.blank, Filter.definition, Function.comp_def]

end FilterQuery
