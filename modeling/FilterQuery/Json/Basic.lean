/-!
# JSON values

Values of documents, operands and query documents.  Integers are exact, numbers
with a fraction are floating-point.  An object lists its fields in the order of
their keys, each key once; `Json.object` builds it from fields in any order.

Two values count as the same when they have one shape and equal leaves, where
floating-point leaves compare as numbers: the two zeros are the same, and an
integer is never the same as a floating-point number.
-/

namespace FilterQuery

inductive Json where
  | null
  | bool (value : Bool)
  | int (value : Int)
  | float (value : Float)
  | string (value : String)
  | array (items : List Json)
  | fields (entries : List (String × Json))
deriving Inhabited

namespace Json

/-- A floating-point number as a value; what is not a number has none. -/
def ofFloat (x : Float) : Json :=
  if x.isFinite then .float x else .null

/-- The entries with one more at its place; an entry of the same key is replaced. -/
def insert (key : String) (value : Json) : List (String × Json) → List (String × Json)
  | [] => [(key, value)]
  | (k, v) :: rest =>
      if key = k then (key, value) :: rest
      else if key < k then (key, value) :: (k, v) :: rest
      else (k, v) :: insert key value rest

/-- The object with the given fields; the last of a key counts. -/
def object (entries : List (String × Json)) : Json :=
  .fields (entries.foldl (fun sorted (key, value) => insert key value sorted) [])

mutual

/-- Whether two values are the same, leaves compared as numbers. -/
def same : Json → Json → Bool
  | .null, .null => true
  | .bool a, .bool b => a == b
  | .int a, .int b => a == b
  | .float a, .float b => a == b
  | .string a, .string b => a == b
  | .array a, .array b => sameItems a b
  | .fields a, .fields b => sameEntries a b
  | _, _ => false

def sameItems : List Json → List Json → Bool
  | [], [] => true
  | a :: as, b :: bs => same a b && sameItems as bs
  | _, _ => false

def sameEntries : List (String × Json) → List (String × Json) → Bool
  | [], [] => true
  | (k, a) :: as, (l, b) :: bs => k == l && same a b && sameEntries as bs
  | _, _ => false

end

end Json

end FilterQuery
