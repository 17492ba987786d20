import FilterQuery.Definition.Basic
/-!
# Declaring a definition

A draft collects the fields and constants of a definition in the order in which
they are declared.  Building it checks each field in turn: the ordering name is
reserved, names are distinct, nested fields and the search field are taken whole
and must have a name, and every other name must parse.  A search field that was
not declared is added at the end.
-/

namespace FilterQuery

/-- A field as it is declared: its name, and its kind where one is given. -/
structure FieldDraft where
  name : String
  kind : Option FieldKind

/-- A definition that is being declared. -/
structure Draft where
  name : String
  fields : List FieldDraft := []
  constants : Constants := {}

namespace Draft

def field (draft : Draft) (name : String) : Draft :=
  { draft with fields := draft.fields ++ [⟨name, none⟩] }

def typed (draft : Draft) (name : String) (kind : FieldKind) : Draft :=
  { draft with fields := draft.fields ++ [⟨name, some kind⟩] }

def nested (draft : Draft) (name : String) (definition : Definition) : Draft :=
  draft.typed name (.nested definition)

def search (draft : Draft) (name : String) (paths : List String) : Draft :=
  { draft with
    constants := { draft.constants with searchField := some name, searchPaths := paths } }

def orderBy (draft : Draft) (name : String) : Draft :=
  { draft with constants := { draft.constants with orderingField := name } }

def sortable (draft : Draft) (paths : List String) : Draft :=
  { draft with constants := { draft.constants with sortable := some paths } }

def withConstants (draft : Draft) (constants : Constants) : Draft :=
  { draft with constants }

end Draft

/-- The kind of a field: inferred where none is given, and made a list where the
operator takes one. -/
def FieldKind.forOperator (operator : Option Operator) : Option FieldKind → FieldKind
  | none => .infer operator
  | some kind =>
      if operator.any Operator.isMembership && !kind.isList then .list kind else kind

namespace FieldDraft

/-- Whether the name of a field is taken whole: it is nested, or searches. -/
def isWhole (draft : FieldDraft) (constants : Constants) : Bool :=
  (draft.kind.bind FieldKind.nested?).isSome || constants.searchField == some draft.name

def fieldName (draft : FieldDraft) (constants : Constants) :
    Except DefinitionError FieldName :=
  if draft.isWhole constants then
    if draft.name.isEmpty then .error (.invalidName draft.name)
    else .ok (.plain draft.name)
  else FieldName.parse draft.name

def declare (draft : FieldDraft) (constants : Constants) (seen : List String) :
    Except DefinitionError DeclaredField := do
  if draft.name = constants.orderingField then throw (.reservedName draft.name)
  if draft.name ∈ seen then throw (.duplicateField draft.name)
  let field ← draft.fieldName constants
  return ⟨field, .forOperator field.operator draft.kind⟩

def declareAll (constants : Constants) (seen : List String) :
    List FieldDraft → Except DefinitionError (List DeclaredField)
  | [] => return []
  | draft :: rest => do
      let declared ← draft.declare constants seen
      return declared :: (← declareAll constants (draft.name :: seen) rest)

end FieldDraft

namespace Draft

def searchField (draft : Draft) : Except DefinitionError (List DeclaredField) :=
  match draft.constants.searchField with
  | none => return []
  | some name =>
      if draft.fields.any (·.name == name) then return []
      else if name = draft.constants.orderingField then throw (.reservedName name)
      else return [⟨.plain name, .string⟩]

/-- The definition that a draft declares.  Document fields to search are kept once
each. -/
def build (draft : Draft) : Except DefinitionError Definition := do
  let fields ← FieldDraft.declareAll draft.constants [] draft.fields
  let search ← draft.searchField
  let searchPaths := draft.constants.searchPaths.eraseDups
  return ⟨draft.name, fields ++ search, { draft.constants with searchPaths }⟩

end Draft

end FilterQuery
