import FilterQuery.Json.Basic
import FilterQuery.Decimal.Integer
import FilterQuery.SortKey
import FilterQuery.FieldName
import FilterQuery.Condition
import FilterQuery.Definition.Basic
import FilterQuery.Filter.Conditions
/-!
# Records

The parts of definitions and queries have JSON forms.  A record is an object, or the
list of its members in order.  Members that are not known do not count; one that is
missing or null may stand for no value or for a default, as its reader says.  A case
without content is its name.
-/

namespace FilterQuery

/-- The members of a record, by name or in order. -/
inductive Record where
  | named (entries : List (String × Json))
  | ordered (items : List Json)

namespace Record

def ofJson? (size : Nat) : Json → Option Record
  | .fields entries => some (named entries)
  | .array items => if items.length ≤ size then some (ordered items) else none
  | _ => none

def member? : Record → Nat → String → Option Json
  | named entries, _, name => entries.lookup name
  | ordered items, place, _ => items[place]?

def required {α : Type} (record : Record) (place : Nat) (name : String)
    (read : Json → Option α) : Option α :=
  (record.member? place name).bind read

/-- Reads a member with a default. -/
def defaulted {α : Type} (record : Record) (place : Nat) (name : String) (absent : α)
    (read : Json → Option α) : Option α :=
  match record.member? place name with
  | some value => read value
  | none => some absent

def nullable {α : Type} (read : Json → Option α) : Json → Option (Option α)
  | .null => some none
  | value => (read value).map some

/-- Reads a member that may be null, or missing where members have names. -/
def optional {α : Type} (record : Record) (place : Nat) (name : String)
    (read : Json → Option α) : Option (Option α) :=
  match record with
  | named _ => record.defaulted place name none (nullable read)
  | ordered _ => record.required place name (nullable read)

def case? {α : Type} (cases : List (String × α)) : Json → Option α
  | .string name => cases.lookup name
  | .fields [(name, .null)] => cases.lookup name
  | _ => none

def string? : Json → Option String
  | .string s => some s
  | _ => none

def bool? : Json → Option Bool
  | .bool b => some b
  | _ => none

def nat? : Json → Option Nat
  | .int (.ofNat n) => if Decimal.fitsWord 32 n then some n else none
  | _ => none

def strings? : Json → Option (List String)
  | .array items => items.mapM string?
  | _ => none

def ofOption {α : Type} (write : α → Json) (value : Option α) : Json :=
  (value.map write).getD .null

def ofStrings (items : List String) : Json :=
  .array (items.map .string)

end Record

def Operator.caseNames : List (String × Operator) :=
  [("ne", .ne), ("gt", .gt), ("gte", .gte), ("lt", .lt), ("lte", .lte), ("in", .among),
    ("not_in", .notAmong), ("like", .like), ("i_like", .ilike), ("exists", .present),
    ("is_null", .isNull)]

def Operator.caseName (operator : Operator) : String :=
  ((caseNames.find? (·.2 == operator)).map (·.1)).getD ""

def Operator.ofJson? : Json → Option Operator :=
  Record.case? caseNames

def Operator.toJson (operator : Operator) : Json :=
  .string operator.caseName

def Direction.ofJson? : Json → Option Direction :=
  Record.case? [("ascending", .ascending), ("descending", .descending)]

def Direction.toJson : Direction → Json
  | .ascending => .string "ascending"
  | .descending => .string "descending"

def SortKey.ofJson? (value : Json) : Option SortKey := do
  let record ← Record.ofJson? 2 value
  let field ← record.required 0 "field" Record.string?
  let direction ← record.required 1 "direction" Direction.ofJson?
  return ⟨field, direction⟩

def SortKey.toJson (key : SortKey) : Json :=
  .object [("field", .string key.field), ("direction", key.direction.toJson)]

def FieldName.ofJson? (value : Json) : Option FieldName := do
  let record ← Record.ofJson? 3 value
  let name ← record.required 0 "name" Record.string?
  let path ← record.required 1 "path" Record.string?
  let operator ← record.optional 2 "operator" Operator.ofJson?
  return ⟨name, path, operator⟩

def FieldName.toJson (field : FieldName) : Json :=
  .object [("name", .string field.name), ("path", .string field.path),
    ("operator", Record.ofOption Operator.toJson field.operator)]

def Hints.ofJson? (value : Json) : Option Hints := do
  let record ← Record.ofJson? 2 value
  let fetchLinks ← record.required 0 "fetch_links" Record.bool?
  let depth ← record.optional 1 "nesting_depth" Record.nat?
  return ⟨fetchLinks, depth⟩

def Hints.toJson (hints : Hints) : Json :=
  .object <| ("fetch_links", .bool hints.fetchLinks) ::
    (hints.depth.map fun depth => ("nesting_depth", .int depth)).toList

def Constants.ofJson? (value : Json) : Option Constants := do
  let record ← Record.ofJson? 4 value
  let orderingField ← record.required 0 "ordering_field_name" Record.string?
  let searchField ←
    record.defaulted 1 "search_field_name" none (Record.nullable Record.string?)
  let searchPaths ← record.defaulted 2 "search_model_fields" [] Record.strings?
  let sortable ← record.defaulted 3 "model_fields" none (Record.nullable Record.strings?)
  return ⟨orderingField, searchField, searchPaths, sortable⟩

def Constants.toJson (constants : Constants) : Json :=
  .object [("ordering_field_name", .string constants.orderingField),
    ("search_field_name", Record.ofOption .string constants.searchField),
    ("search_model_fields", Record.ofStrings constants.searchPaths),
    ("model_fields", Record.ofOption Record.ofStrings constants.sortable)]

def limitOfJson? (value : Json) : Option Nat := do
  let record ← Record.ofJson? 1 value
  record.defaulted 0 "max_nesting_depth" defaultLimit Record.nat?

def limitToJson (limit : Nat) : Json :=
  .object [("max_nesting_depth", .int limit)]

end FilterQuery
