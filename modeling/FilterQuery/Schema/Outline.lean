import FilterQuery.Schema.Error
import FilterQuery.Definition.Draft
import FilterQuery.Definition.Equality
/-!
# Outlines

An outline is a definition as a document writes it: nested fields still refer to
other definitions by name.  The keys of each section are checked before anything
in it is read.
-/

namespace FilterQuery.Schema

inductive OutlineKind where
  /-- to be inferred from the operator -/
  | inferred
  | given (kind : FieldKind)
  /-- a reference to another definition -/
  | reference (name : String)
deriving DecidableEq

structure OutlineField where
  name : String
  kind : OutlineKind := .inferred
deriving DecidableEq

def OutlineField.reference? (field : OutlineField) : Option String :=
  match field.kind with
  | .reference name => some name
  | _ => none

/-- A definition as a document gives it. -/
structure Outline where
  name : String
  constants : Constants
  fields : List OutlineField
deriving DecidableEq

def Outline.references (outline : Outline) : List String :=
  outline.fields.filterMap OutlineField.reference?

def checkKeys (value : Yaml.Value) (accepted : List String) (part : String) :
    Except Error Unit :=
  match unknownKeys value accepted part with
  | [] => .ok ()
  | keys => .error (.unknownKeys part keys)

def string? (value : Yaml.Value) (key : String) : Option String :=
  (value.get? key).bind Yaml.Value.string?

def string (value : Yaml.Value) (key : String) : Except Error String :=
  match string? value key with
  | some s => .ok s
  | none => .error (.missingKey key)

def items? (value : Yaml.Value) (key : String) : Option (List Yaml.Value) :=
  (value.get? key).bind Yaml.Value.items?

/-- The list of strings under a key, if there is anything under it. -/
def strings (value : Yaml.Value) (key : String) : Except Error (Option (List String)) :=
  match value.get? key with
  | none => .ok none
  | some found =>
      match found.items?.bind (·.mapM Yaml.Value.string?) with
      | some items => .ok (some items)
      | none => .error (.notStrings key)

def kindOfName? : String → Option FieldKind
  | "string" => some .string
  | "integer" => some .integer
  | "number" => some .number
  | "boolean" => some .boolean
  | "list" => some (.list .string)
  | _ => none

def outlineKind (field : String) (kind reference : Option String) :
    Except Error OutlineKind := do
  let given ←
    match kind with
    | none => .ok none
    | some name =>
        match kindOfName? name with
        | some kind => .ok (some kind)
        | none => .error (.unknownKind field name)
  match given, reference with
  | some _, some _ => throw (.kindAndReference field)
  | some kind, none => return .given kind
  | none, some name => return .reference name
  | none, none => return .inferred

/-- A field from an item of the list of fields: its name, or a section of its own. -/
def OutlineField.ofValue (value : Yaml.Value) : Except Error OutlineField :=
  match value.string? with
  | some name => .ok { name }
  | none => do
      checkKeys value ["name", "type", "nested"] "field"
      let name ← string value "name"
      let kind ← outlineKind name (string? value "type") (string? value "nested")
      return ⟨name, kind⟩

def searchConstants (value : Yaml.Value) (constants : Constants) : Except Error Constants := do
  checkKeys value ["field", "model_fields"] "search"
  match ← strings value "model_fields" with
  | none => throw (.missingKey "search.model_fields")
  | some searchPaths =>
      let field := (string? value "field").getD "search"
      return { constants with searchField := some field, searchPaths }

def outlineConstants (value : Yaml.Value) : Except Error Constants := do
  let sortable ← strings value "model_fields"
  let orderingField :=
    (string? value "ordering_field").getD ({} : Constants).orderingField
  let constants : Constants := { orderingField, sortable }
  match value.get? "search" with
  | none => return constants
  | some search => searchConstants search constants

def Outline.ofValue (document : Yaml.Value) : Except Error Outline := do
  checkKeys document ["filter"] "document"
  match document.get? "filter" with
  | none => throw (.missingKey "filter")
  | some value =>
      checkKeys value ["name", "ordering_field", "model_fields", "search", "fields"] "filter"
      let name ← string value "name"
      let constants ← outlineConstants value
      let fields ← ((items? value "fields").getD []).mapM OutlineField.ofValue
      return ⟨name, constants, fields⟩

end FilterQuery.Schema
