import FilterQuery.Condition
import FilterQuery.Filter.Json
/-!
# Operator expressions

An operator and a value make an expression.  A substring match puts the text of
the value into a pattern as it is.  Asking for null is the one case without an
expression: an absent constraint already admits null, so only its negation has to
be asked for.
-/

namespace FilterQuery

/-- Whether a JSON value counts as true: it is not null, false, zero or empty. -/
def Json.isTruthy : Json → Bool
  | .null => false
  | .bool value => value
  | .int n => n != 0
  | .float x => x != 0.0
  | .string s => !s.isEmpty
  | .array items => !items.isEmpty
  | .fields entries => !entries.isEmpty

def Value.isTruthy : Value → Bool
  | .scalar value => value.isTruthy
  | .list items => !items.isEmpty
  | .bool value => value
  | .sub filter => !filter.isEmpty

def Expression.contains (value : Value) (ignoreCase : Bool) : Expression :=
  .regex (".*" ++ value.toText ++ ".*") ignoreCase

/-- The expression of an operator and a value, where it constrains anything. -/
def Operator.expression? (operator : Operator) (value : Value) : Option Expression :=
  match operator with
  | .ne => some (.compare .ne value.toJson)
  | .gt => some (.compare .gt value.toJson)
  | .gte => some (.compare .gte value.toJson)
  | .lt => some (.compare .lt value.toJson)
  | .lte => some (.compare .lte value.toJson)
  | .among => some (.compare .among value.toJson)
  | .notAmong => some (.compare .notAmong value.toJson)
  | .like => some (.contains value false)
  | .ilike => some (.contains value true)
  | .present => some (.compare .present value.toJson)
  | .isNull => if value.isTruthy then none else some (.compare .ne .null)

/-- A search for a value: it is contained in one of the document fields, in any
case. -/
def Predicate.search (paths : List String) (value : Value) : Predicate :=
  .any (paths.map fun path => .field path (.meets (.contains value true)))

end FilterQuery
