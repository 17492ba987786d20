/-!
# Faults of a definition

Each fault names what is wrong; the wording stands in one place.
-/

namespace FilterQuery

inductive DefinitionError where
  | unknownOperator (field operator : String)
  | invalidName (field : String)
  | duplicateField (field : String)
  | reservedName (field : String)
deriving DecidableEq, Repr

def DefinitionError.message : DefinitionError → String
  | .unknownOperator field operator =>
      "Unknown operator '" ++ operator ++ "' in field '" ++ field ++ "'"
  | .invalidName field => "Invalid field name: '" ++ field ++ "'"
  | .duplicateField field => "Duplicate field: " ++ field
  | .reservedName field => "Field name '" ++ field ++ "' is reserved for ordering"

end FilterQuery
