import FilterQuery.Definition.Basic
/-!
# Registries

A registry holds definitions under their names, in the order of registration, one
for each name.
-/

namespace FilterQuery

structure Registry where
  definitions : List Definition := []

namespace Registry

def names (registry : Registry) : List String :=
  registry.definitions.map (·.name)

def size (registry : Registry) : Nat :=
  registry.definitions.length

def get? (registry : Registry) (name : String) : Option Definition :=
  registry.definitions.find? (·.name == name)

def contains (registry : Registry) (name : String) : Bool :=
  registry.definitions.any (·.name == name)

/-- The registry with one more definition; nothing, where its name is taken. -/
def insert? (registry : Registry) (definition : Definition) : Option Registry :=
  if registry.contains definition.name then none
  else some ⟨registry.definitions ++ [definition]⟩

/-- The registry with further definitions, up to the first whose name is taken, and
that name. -/
def insertAll (registry : Registry) : List Definition → Registry × Option String
  | [] => (registry, none)
  | definition :: rest =>
      match registry.insert? definition with
      | some larger => larger.insertAll rest
      | none => (registry, some definition.name)

def extend (registry other : Registry) : Registry × Option String :=
  registry.insertAll other.definitions

end Registry

end FilterQuery
