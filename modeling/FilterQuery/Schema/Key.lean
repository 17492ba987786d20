import FilterQuery.Yaml.Value.Basic
import FilterQuery.Text.Distance
/-!
# Keys of a definition document

Definition documents are written by hand, so a key that is not accepted is reported
with the accepted key that was probably meant: the one that a known alias stands
for, or else the nearest by edit distance, if it is near enough.
-/

namespace FilterQuery.Schema

structure UnknownKey where
  key : String
  part : String
  suggestion : Option String
deriving DecidableEq, Repr

def UnknownKey.message (unknown : UnknownKey) : String :=
  "Unknown key '" ++ unknown.key ++ "' in " ++ unknown.part ++ "." ++
    match unknown.suggestion with
    | some suggestion => " Did you mean '" ++ suggestion ++ "'?"
    | none => ""

/-- Keys that people reach for, with the keys that they mean. -/
def aliases : List (String × String) :=
  [("filters", "fields"), ("order_by", "ordering_field"), ("ordering", "ordering_field"),
    ("sort", "ordering_field"), ("search_fields", "model_fields"),
    ("search_field", "field"), ("kind", "type"), ("ref", "nested"), ("filter", "nested")]

/-- The greatest distance at which a key is still suggested. -/
def suggestionReach : Nat := 2

def aliased? (key : String) (accepted : List String) : Option String :=
  (aliases.find? fun (usual, meant) => usual == key && accepted.contains meant).map (·.2)

/-- The earliest of the accepted keys at the least distance, if it is near enough. -/
def nearest? (key : String) (accepted : List String) : Option String :=
  (accepted.filter (Text.distance key · ≤ suggestionReach)).minOn? (Text.distance key)

def suggestion? (key : String) (accepted : List String) : Option String :=
  (aliased? key accepted).or (nearest? key accepted)

/-- The keys of a mapping that are not accepted, in document order.  What is not a
mapping has none, and only strings count as keys. -/
def unknownKeys (value : Yaml.Value) (accepted : List String) (part : String) :
    List UnknownKey :=
  let keys := (value.entries?.getD []).filterMap (·.1.string?)
  (keys.filter (!accepted.contains ·)).map fun key =>
    ⟨key, part, suggestion? key accepted⟩

end FilterQuery.Schema
