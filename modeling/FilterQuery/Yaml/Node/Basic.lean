import FilterQuery.Yaml.Token
/-!
# Nodes

A document is a tree of nodes.  A node may have a tag, and an anchor by which
aliases refer to it.
-/

namespace FilterQuery.Yaml

inductive Node (α : Type) where
  | aliasOf (target : α)
  | scalar (anchor : Option α) (tag : Option Tag) (style : Style) (text : String)
  | sequence (anchor : Option α) (tag : Option Tag) (items : List (Node α))
  | mapping (anchor : Option α) (tag : Option Tag) (entries : List (Node α × Node α))

namespace Node

/-- The node that stands where none is written. -/
def empty {α : Type} : Node α :=
  scalar none none .plain ""

def isAlias {α : Type} : Node α → Bool
  | aliasOf _ => true
  | _ => false

def anchor? {α : Type} : Node α → Option α
  | aliasOf _ => none
  | scalar anchor _ _ _ => anchor
  | sequence anchor _ _ => anchor
  | mapping anchor _ _ => anchor

end Node

end FilterQuery.Yaml
