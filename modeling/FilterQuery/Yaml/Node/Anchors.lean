import FilterQuery.Yaml.Node.Document
/-!
# Anchors

An alias refers to an anchor that was met before it.  Anchors are numbered by how
many different names were met before them, and a number stands for the last node
that received it; a name met again takes its new number for what follows.
-/

namespace FilterQuery.Yaml

abbrev Names := List (String × Nat)

def Names.enter (names : Names) : Option String → Option Nat × Names
  | none => (none, names)
  | some name => (some names.length, (name, names.length) :: names.filter (·.1 ≠ name))

namespace Node

mutual

/-- Numbers the anchors and aliases of a node.  An alias of no anchor has none. -/
def number (names : Names) : Node String → Option (Node Nat × Names)
  | aliasOf name => (names.lookup name).map fun n => (aliasOf n, names)
  | scalar anchor tag style text =>
      let (anchor, names) := names.enter anchor
      some (scalar anchor tag style text, names)
  | sequence anchor tag items => do
      let (anchor, names) := names.enter anchor
      let (items, names) ← numberItems names items
      return (sequence anchor tag items, names)
  | mapping anchor tag entries => do
      let (anchor, names) := names.enter anchor
      let (entries, names) ← numberEntries names entries
      return (mapping anchor tag entries, names)

def numberItems (names : Names) : List (Node String) → Option (List (Node Nat) × Names)
  | [] => some ([], names)
  | item :: rest => do
      let (item, names) ← number names item
      let (rest, names) ← numberItems names rest
      return (item :: rest, names)

def numberEntries (names : Names) :
    List (Node String × Node String) → Option (List (Node Nat × Node Nat) × Names)
  | [] => some ([], names)
  | (key, value) :: rest => do
      let (key, names) ← number names key
      let (value, names) ← number names value
      let (rest, names) ← numberEntries names rest
      return ((key, value) :: rest, names)

end

mutual

def all {α : Type} : Node α → List (Node α)
  | sequence anchor tag items => sequence anchor tag items :: allItems items
  | mapping anchor tag entries => mapping anchor tag entries :: allEntries entries
  | leaf => [leaf]

def allItems {α : Type} : List (Node α) → List (Node α)
  | [] => []
  | item :: rest => all item ++ allItems rest

def allEntries {α : Type} : List (Node α × Node α) → List (Node α)
  | [] => []
  | (key, value) :: rest => all key ++ all value ++ allEntries rest

end

/-- The number of events that announce a node: one for a leaf, two for a collection. -/
def events {α : Type} : Node α → Nat
  | aliasOf _ | scalar _ _ _ _ => 1
  | sequence _ _ _ | mapping _ _ _ => 2

end Node

structure Document where
  root : Node Nat
  anchored : List (Nat × Node Nat)

namespace Document

/-- The document of a root; nothing, where an alias refers to no anchor. -/
def ofRoot? (root : Node String) : Option Document := do
  let (root, _) ← root.number []
  let anchored := root.all.filterMap fun node => node.anchor?.map fun n => (n, node)
  return ⟨root, anchored.reverse⟩

/-- The node that a number stands for. -/
def target? (document : Document) (number : Nat) : Option (Node Nat) :=
  document.anchored.lookup number

/-- The node itself, or what it is an alias of. -/
def follow (document : Document) : Node Nat → Node Nat
  | .aliasOf number => (document.target? number).getD .empty
  | node => node

/-- The number of times that aliases of a document may be followed. -/
def allowance (document : Document) : Nat :=
  100 * document.root.all.foldl (fun count node => count + node.events) 0

end Document

end FilterQuery.Yaml
