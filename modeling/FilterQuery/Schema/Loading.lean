import FilterQuery.Schema.Resolution
import FilterQuery.Yaml.Stream
/-!
# Loading definitions

A text holds one definition, whose references are to known definitions, or any
number of them, which may refer to each other in any order.  Their names are
distinct, and distinct from those that are known.
-/

namespace FilterQuery.Schema

def outlines (known : Registry) (earlier : List Outline) :
    List Yaml.Value → Except Error (List Outline)
  | [] => return earlier
  | document :: rest => do
      let outline ← Outline.ofValue document
      if (outline? earlier outline.name).isSome || known.contains outline.name then
        throw (.duplicateName outline.name)
      outlines known (earlier ++ [outline]) rest

/-- Registers the definitions of outlines, which may refer to each other and to known
definitions. -/
def register (all : List Outline) (known : Registry) :
    List Outline → Resolved → Registry → Except Error Registry
  | [], _, registry => return registry
  | outline :: rest, resolved, registry => do
      let (definition, resolved) ← resolve all known outline.name outline.name [] resolved
      match registry.insert? definition with
      | none => throw (.duplicateName definition.name)
      | some registry => register all known rest resolved registry

def ofDocuments (known : Registry) (documents : List Yaml.Value) : Except Error Registry := do
  let all ← outlines known [] documents
  register all known all [] {}

def documents (text : String) : Except Error (List Yaml.Value) :=
  match Yaml.values? text with
  | some documents => .ok documents
  | none => .error .malformed

/-- The definition of a document that refers to known definitions. -/
def ofDocument (known : Registry) (document : Yaml.Value) : Except Error Definition := do
  (← Outline.ofValue document).resolveIn known

def load (known : Registry) (text : String) : Except Error Definition :=
  match Yaml.value? text with
  | some document => ofDocument known document
  | none => .error .malformed

def loadAll (known : Registry) (text : String) : Except Error Registry := do
  ofDocuments known (← documents text)

def referencesOf (documents : List Yaml.Value) : Except Error (List String) := do
  let outlines ← documents.mapM Outline.ofValue
  return (outlines.flatMap Outline.references).eraseDups

def references (text : String) : Except Error (List String) := do
  referencesOf (← documents text)

end FilterQuery.Schema
