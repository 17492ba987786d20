import FilterQuery.Engine.Config
import FilterQuery.Engine.Error
import FilterQuery.Schema.Loading
import FilterQuery.Param.Binding
import FilterQuery.FindQuery
/-!
# Engines

An engine holds definitions and turns the parameters of a request into a query: it
binds them to a filter, takes the conditions of the filter, and sorts as the filter
asks.  An engine is built from definitions, then files, then texts; what comes
later may refer to what came earlier.
-/

namespace FilterQuery

structure Engine where
  registry : Registry
  nestingLimit : Nat
  validateOrdering : Bool

namespace Engine

def extend (registry other : Registry) : Except Error Registry :=
  match registry.extend other with
  | (larger, none) => .ok larger
  | (_, some name) => .error (.schema (.duplicateName name))

def addText (registry : Registry) (text : String) : Except Error Registry := do
  extend registry (← (Schema.loadAll registry text).mapError .schema)

def addFile (contentOf : String → Option String) (registry : Registry) (file : String) :
    Except Error Registry :=
  match contentOf file with
  | some text => addText registry text
  | none => .error (.unreadable file)

/-- The engine of definitions and a configuration, where `contentOf` gives the contents
of the files that can be read. -/
def build (contentOf : String → Option String) (config : Config)
    (definitions : List Definition) : Except Error Engine := do
  let registry ← extend {} ⟨definitions⟩
  let registry ← config.files.foldlM (addFile contentOf) registry
  let registry ← config.contents.foldlM addText registry
  return ⟨registry, config.nestingLimit, config.validateOrdering⟩

def definition (engine : Engine) (name : String) : Except Error Definition :=
  match engine.registry.get? name with
  | some definition => .ok definition
  | none => .error (.unknownFilter name)

def blank (engine : Engine) (name : String) : Except Error Filter :=
  Filter.blank <$> engine.definition name

def bind (engine : Engine) (name : String) (params : List Param) : Except Error Filter := do
  let definition ← engine.definition name
  (definition.bind engine.validateOrdering params).mapError .binding

def conditions (engine : Engine) (filter : Filter) : Except Error (List Condition) :=
  (filter.conditions engine.nestingLimit 1).mapError .nesting

def findQuery (engine : Engine) (filter : Filter) : Except Error FindQuery := do
  return filter.sort { conditions := ← engine.conditions filter }

def query (engine : Engine) (name : String) (params : List Param) :
    Except Error FindQuery := do
  engine.findQuery (← engine.bind name params)

end Engine

end FilterQuery
