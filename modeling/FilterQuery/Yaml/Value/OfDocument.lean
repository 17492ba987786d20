import FilterQuery.Yaml.Node.Anchors
import FilterQuery.Yaml.Value.Scalar
/-!
# The value of a document

Aliases stand for what they refer to.  Collections nest at most 128 deep and
aliases are followed a bounded number of times, so a document that refers to
itself has no value.  No key of a mapping may be given twice.  A tag that begins
with an exclamation mark is kept with the value; other tags say how a scalar is
read, and mean nothing on collections.  The keys of a mapping whose tag is kept are
read as if they had none.
-/

namespace FilterQuery.Yaml

def depthLimit : Nat := 128

def withTag (tag : Option Tag) (value : Value) : Value :=
  match tag.bind Tag.name? with
  | some name => .tagged name value
  | none => value

def scalarValue? (tag : Option Tag) (style : Style) (text : String) : Option Value :=
  match tag.filter (!·.isLocal) with
  | some tag => Value.ofTagged? tag text
  | none => if style = .plain then Value.ofPlain? text else some (.string text)

/-- The mapping of entries; nothing, where a key is given twice. -/
def mappingValue? (entries : List (Value × Value)) : Option Value :=
  let rec distinct : List (Value × Value) → Bool
    | [] => true
    | (key, _) :: rest => !rest.any (·.1.same key) && distinct rest
  if distinct entries then some (.mapping entries) else none

namespace Document

/-- The value of a node, in collections of a document that may nest `depth` deeper;
its tag does not count where it is `bare`.  The state is the number of aliases that
may still be followed. -/
def value (document : Document) (depth : Nat) (bare : Bool) (node : Node Nat) :
    StateT Nat Option Value := do
  if let .aliasOf _ := node then
    let allowance ← get
    if allowance = 0 then failure
    set (allowance - 1)
  let bare := bare && !node.isAlias
  let counted (tag : Option Tag) : Option Tag := if bare then none else tag
  match depth, document.follow node with
  | _, .aliasOf _ => failure
  | _, .scalar _ tag style text =>
      (scalarValue? (counted tag) style text).map (withTag (counted tag))
  | 0, _ => failure
  | depth + 1, .sequence _ tag items => do
      let items ← items.mapM (value document depth false)
      return withTag (counted tag) (.sequence items)
  | depth + 1, .mapping _ tag entries => do
      let bareKeys := bare || (tag.bind Tag.name?).isSome
      let entries ← entries.mapM fun (key, item) => do
        return (← value document depth bareKeys key, ← value document depth false item)
      return withTag (counted tag) (← mappingValue? entries)

def value? (document : Document) : Option Value :=
  (document.value depthLimit false document.root).run' document.allowance

end Document

end FilterQuery.Yaml
