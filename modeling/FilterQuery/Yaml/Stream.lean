import FilterQuery.Yaml.Scanner
import FilterQuery.Yaml.Value.OfDocument
/-!
# Streams

The text of a stream is read as its documents, or not at all.
-/

namespace FilterQuery.Yaml

def documents? (text : String) : Option (List Document) := do
  let tokens ← tokens? text
  (← documents true tokens).mapM Document.ofRoot?

/-- The document of a text that holds exactly one; a text without any holds an empty
one. -/
def document? (text : String) : Option Document := do
  match ← documents? text with
  | [] => Document.ofRoot? .empty
  | [document] => some document
  | _ => none

def value? (text : String) : Option Value := do
  (← document? text).value?

/-- The values of the documents of a text; those that are null do not count. -/
def values? (text : String) : Option (List Value) := do
  let values ← (← documents? text).mapM Document.value?
  return values.filter fun value => !value.isNull

end FilterQuery.Yaml
