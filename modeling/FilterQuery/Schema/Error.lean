import FilterQuery.Schema.Key
import FilterQuery.Definition.Error
/-!
# Faults of definition documents

Each fault names its cause; the wording stands in one place.  A text that is not
well formed has no wording of its own.
-/

namespace FilterQuery.Schema

inductive Error where
  /-- the text is no stream of documents -/
  | malformed
  | missingKey (key : String)
  | unknownKeys (part : String) (keys : List UnknownKey)
  /-- a list of strings was expected -/
  | notStrings (key : String)
  | unknownKind (field kind : String)
  /-- a field is given a kind and a reference -/
  | kindAndReference (field : String)
  | duplicateName (name : String)
  | unknownReference (filter reference : String)
  /-- a chain of references whose last name occurs in it before -/
  | circularReference (chain : List String)
  /-- the fields or constants are not acceptable -/
  | rejected (cause : DefinitionError)
deriving DecidableEq

def invalid (field message : String) : String :=
  "Invalid value for field '" ++ field ++ "': " ++ message

def Error.message : Error → String
  | malformed => "YAML parsing error"
  | missingKey key => "Missing required field: " ++ key
  | unknownKeys part keys =>
      invalid part ("; ".intercalate (keys.map UnknownKey.message))
  | notStrings key => invalid key "expected a list of strings"
  | unknownKind field kind => invalid field ("unknown type '" ++ kind ++ "'")
  | kindAndReference field =>
      invalid field "'type' and 'nested' are mutually exclusive"
  | duplicateName name =>
      invalid "name" ("filter '" ++ name ++ "' is defined more than once")
  | unknownReference filter reference =>
      "Unknown filter reference '" ++ reference ++ "' in '" ++ filter ++ "'"
  | circularReference chain => "Circular filter reference: " ++ " -> ".intercalate chain
  | rejected cause => "Invalid definition: " ++ cause.message

end FilterQuery.Schema
