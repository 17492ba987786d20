/-!
# YAML values

What a document means.  A mapping keeps the order of its entries.  Values are
compared as keys are: an integer differs from a floating-point number, all
numbers that are not a number are one key, and the order of the entries of a
mapping does not count.

Looking into a value looks through tags, but a key is found only where it stands
as a plain string.
-/

namespace FilterQuery.Yaml

inductive Value where
  | null
  | bool (value : Bool)
  | int (value : Int)
  | float (value : Float)
  | string (value : String)
  | sequence (items : List Value)
  | mapping (entries : List (Value × Value))
  | tagged (tag : String) (value : Value)

namespace Value

mutual

def same : Value → Value → Bool
  | null, null => true
  | bool a, bool b => a == b
  | int a, int b => a == b
  | float a, float b => a == b || (a.isNaN && b.isNaN)
  | string a, string b => a == b
  | sequence a, sequence b => sameItems a b
  | mapping a, mapping b => a.length == b.length && within a b
  | tagged s a, tagged t b => s == t && same a b
  | _, _ => false

def sameItems : List Value → List Value → Bool
  | [], [] => true
  | a :: as, b :: bs => same a b && sameItems as bs
  | _, _ => false

/-- Whether each entry of a mapping is one of another mapping. -/
def within : List (Value × Value) → List (Value × Value) → Bool
  | [], _ => true
  | (k, a) :: rest, others =>
      others.any (fun (l, b) => same k l && same a b) && within rest others

end

def isNull : Value → Bool
  | null => true
  | _ => false

def untagged : Value → Value
  | tagged _ value => value.untagged
  | value => value

def string? (value : Value) : Option String :=
  match value.untagged with
  | string s => some s
  | _ => none

def items? (value : Value) : Option (List Value) :=
  match value.untagged with
  | sequence items => some items
  | _ => none

def entries? (value : Value) : Option (List (Value × Value)) :=
  match value.untagged with
  | mapping entries => some entries
  | _ => none

/-- Whether a key is a string without a tag. -/
def isKey (key : String) : Value → Bool
  | string s => s == key
  | _ => false

def get? (value : Value) (key : String) : Option Value := do
  let entries ← value.entries?
  (entries.find? (·.1.isKey key)).map (·.2)

end Value

end FilterQuery.Yaml
