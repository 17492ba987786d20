import FilterQuery.Operator
import FilterQuery.Definition.Error
import FilterQuery.Text.Split
/-!
# Field names

A field name is a chain of path segments that may end in an operator token:
`author__name__ilike` constrains the document path `author.name` with `ilike`.  A
name without the delimiter is a plain field, compared by equality.
-/

namespace FilterQuery

structure FieldName where
  /-- the name as declared -/
  name : String
  /-- the document path it constrains -/
  path : String
  /-- the operator, where the name carries one -/
  operator : Option Operator
deriving DecidableEq, Repr

namespace FieldName

def plain (name : String) : FieldName :=
  ⟨name, name, none⟩

/-- A name taken apart into its path and its operator. -/
def parse (name : String) : Except DefinitionError FieldName :=
  if name.isEmpty then .error (.invalidName name)
  else
    match Text.segments name with
    | [] | [_] => .ok (plain name)
    | parts =>
        let path := parts.dropLast
        let token := parts.getLastD ""
        if path.any String.isEmpty then .error (.invalidName name)
        else
          match Operator.ofToken? token with
          | none => .error (.unknownOperator name token)
          | some operator => .ok ⟨name, ".".intercalate path, some operator⟩

end FieldName

end FilterQuery
