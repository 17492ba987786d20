import FilterQuery.FieldName
/-!
# Filter definitions

A definition declares the fields of a filter, in order, with the kind of value
each accepts, and the constants of the filter: the name under which an ordering
is given, the search field with the document fields it searches, and the document
fields that may be sorted by.
-/

namespace FilterQuery

structure Constants where
  /-- the parameter that holds the ordering -/
  orderingField : String := "order_by"
  /-- the field kept for searching -/
  searchField : Option String := none
  /-- the document fields that a search looks in -/
  searchPaths : List String := []
  /-- the document fields that may be sorted by; any, where absent -/
  sortable : Option (List String) := none
deriving DecidableEq, Repr

/-- Whether a field is the search field of a search that looks somewhere. -/
def Constants.searches (constants : Constants) (field : String) : Bool :=
  constants.searchField == some field && !constants.searchPaths.isEmpty

mutual

inductive FieldKind where
  | string
  | integer
  | number
  | boolean
  | list (item : FieldKind)
  /-- a sub-filter on a linked document -/
  | nested (definition : Definition)

structure DeclaredField where
  field : FieldName
  kind : FieldKind

structure Definition where
  name : String
  fields : List DeclaredField
  constants : Constants

end

namespace FieldKind

/-- The kind of a field that is declared without one. -/
def infer : Option Operator → FieldKind
  | none => string
  | some op => if op.isMembership then list string else if op.isBoolean then boolean else string

def isList : FieldKind → Bool
  | list _ => true
  | _ => false

def nested? : FieldKind → Option Definition
  | nested definition => some definition
  | _ => none

def describe : FieldKind → String
  | string => "string"
  | integer => "integer"
  | number => "number"
  | boolean => "boolean"
  | list item => "list of " ++ item.describe
  | nested definition => "sub-filter '" ++ definition.name ++ "'"

end FieldKind

def DeclaredField.name (declared : DeclaredField) : String :=
  declared.field.name

namespace Definition

def field? (definition : Definition) (name : String) : Option DeclaredField :=
  definition.fields.find? (·.name == name)

def nested? (definition : Definition) (name : String) : Option Definition :=
  (definition.field? name).bind (·.kind.nested?)

theorem nested?_of_field? {definition : Definition} {name : String} {declared : DeclaredField}
    (hfield : definition.field? name = some declared) :
    definition.nested? name = declared.kind.nested? := by
  rw [nested?, hfield, Option.bind_some]

end Definition

end FilterQuery
