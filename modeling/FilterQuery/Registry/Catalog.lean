import FilterQuery.Registry
import FilterQuery.Schema.Error
/-!
# Registries kept in one place

A registry can be kept in one place and added to there, call by call.  Its definitions then
stand in a table, by their names, and the order of registration is kept beside the table, so
every call has to change both.  Another registry is emptied into this one name by name; what
has gone over stays when a name is met that is taken.
-/

namespace FilterQuery

/-- Definitions by names, in no order. -/
abbrev Table := String → Option Definition

namespace Table

def put (table : Table) (name : String) (definition : Definition) : Table := fun other =>
  if other = name then some definition else table other

def remove (table : Table) (name : String) : Table := fun other =>
  if other = name then none else table other

end Table

/-- A registry that is kept in one place. -/
structure Catalog where
  table : Table := fun _ => none
  /-- the names in the table, in the order of registration -/
  order : List String := []

namespace Catalog

def get? (catalog : Catalog) (name : String) : Option Definition :=
  catalog.table name

def contains (catalog : Catalog) (name : String) : Bool :=
  (catalog.table name).isSome

def names (catalog : Catalog) : List String :=
  catalog.order

def size (catalog : Catalog) : Nat :=
  catalog.order.length

abbrev Change (α : Type) := ExceptT Schema.Error (StateM Catalog) α

def register (definition : Definition) : Change Unit := do
  if (← get).contains definition.name then throw (.duplicateName definition.name)
  modify fun catalog => { catalog with order := catalog.order ++ [definition.name] }
  modify fun catalog =>
    { catalog with table := catalog.table.put definition.name definition }

/-- Registers what a table holds under names, taking it out of the table. -/
def drain (table : Table) : List String → Change Unit
  | [] => return
  | name :: rest => do
      if let some definition := table name then register definition
      drain (table.remove name) rest

/-- Registers the definitions of another catalog, in their order. -/
def extend (other : Catalog) : Change Unit :=
  drain other.table other.order

def call {α : Type} (catalog : Catalog) (action : Change α) : Except Schema.Error α × Catalog :=
  action.run.run catalog

def registry (catalog : Catalog) : Registry :=
  ⟨catalog.order.filterMap catalog.table⟩

def ofRegistry (registry : Registry) : Catalog :=
  ⟨registry.get?, registry.names⟩

end Catalog

end FilterQuery
