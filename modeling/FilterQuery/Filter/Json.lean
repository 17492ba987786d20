import FilterQuery.Filter.Basic
import FilterQuery.Json.Text
/-!
# The JSON form of a filter

A filter is the object of its set fields; a sub-filter stands as an object inside
it.  The text of a value is what a substring pattern is made from: a string
stands for itself, everything else for its JSON text.
-/

namespace FilterQuery

mutual

def Value.toJson : Value → Json
  | .scalar value => value
  | .list items => .array items
  | .bool value => .bool value
  | .sub filter => filter.toJson

def Slot.entries : List Slot → List (String × Json)
  | [] => []
  | ⟨_, none⟩ :: rest => Slot.entries rest
  | ⟨declared, some value⟩ :: rest =>
      if value.isNull then Slot.entries rest
      else (declared.name, value.toJson) :: Slot.entries rest

def Filter.toJson : Filter → Json
  | ⟨_, slots, _, _⟩ => .object (Slot.entries slots)

end

def Value.toText : Value → String
  | .scalar (.string s) => s
  | value => value.toJson.text

end FilterQuery
