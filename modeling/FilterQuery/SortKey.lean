import FilterQuery.Text.Blank
/-!
# Sort keys

A sort key is a field and a direction.  It is written with the sign of its
direction in front, and read with the sign optional: a bare field ascends.
-/

namespace FilterQuery

inductive Direction where
  | ascending
  | descending
deriving DecidableEq, Repr

def Direction.factor : Direction → Int
  | .ascending => 1
  | .descending => -1

structure SortKey where
  field : String
  direction : Direction
deriving DecidableEq, Repr

namespace SortKey

/-- The sort key of a trimmed text: at most one sign, then the field. -/
def ofChars : List Char → SortKey
  | '-' :: field => ⟨String.ofList field, .descending⟩
  | '+' :: field => ⟨String.ofList field, .ascending⟩
  | field => ⟨String.ofList field, .ascending⟩

def read (raw : String) : SortKey :=
  ofChars (Text.trimChars raw.toList)

def render (key : SortKey) : String :=
  match key.direction with
  | .ascending => "+" ++ key.field
  | .descending => "-" ++ key.field

end SortKey

end FilterQuery
