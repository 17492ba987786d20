/-!
# Operators

The closed vocabulary of operators that a field name may end in.  Several tokens
may name one operator; each operator has one token of its own.
-/

namespace FilterQuery

inductive Operator where
  /-- not equal -/
  | ne
  /-- greater -/
  | gt
  /-- greater or equal -/
  | gte
  /-- less -/
  | lt
  /-- less or equal -/
  | lte
  /-- one of a list -/
  | among
  /-- none of a list -/
  | notAmong
  /-- contains a text -/
  | like
  /-- contains a text, in any case -/
  | ilike
  /-- the field is present -/
  | present
  /-- the field is null -/
  | isNull
deriving DecidableEq, Repr

namespace Operator

/-- Every accepted token with the operator it names. -/
def tokens : List (String × Operator) :=
  [("neq", ne), ("not", ne), ("ne", ne), ("gt", gt), ("gte", gte), ("lt", lt),
    ("lte", lte), ("in", among), ("not_in", notAmong), ("nin", notAmong),
    ("like", like), ("ilike", ilike), ("exists", present), ("isnull", isNull)]

def ofToken? (token : String) : Option Operator :=
  (tokens.find? (·.1 == token)).map (·.2)

def token : Operator → String
  | ne => "ne"
  | gt => "gt"
  | gte => "gte"
  | lt => "lt"
  | lte => "lte"
  | among => "in"
  | notAmong => "nin"
  | like => "like"
  | ilike => "ilike"
  | present => "exists"
  | isNull => "isnull"

def isMembership : Operator → Bool
  | among | notAmong => true
  | _ => false

def isBoolean : Operator → Bool
  | present | isNull => true
  | _ => false

def isComparison : Operator → Bool
  | gt | gte | lt | lte => true
  | _ => false

theorem ofToken?_token (op : Operator) : ofToken? op.token = some op := by
  cases op <;> decide

end Operator

end FilterQuery
