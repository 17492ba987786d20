import FilterQuery.Filter.Conditions
import FilterQuery.Yaml.Stream
/-!
# Configuration

The settings of an engine, and how they are read from a YAML document.  Reading
follows the kind that each setting asks for: a text takes any scalar as it is
written, a number or a truth value only a plain one, and a list or a section may be
left empty.  Settings that are not known do not count, but none that is known may
be given twice.
-/

namespace FilterQuery

structure Config where
  /-- the files that hold definitions -/
  files : List String := []
  /-- texts that hold definitions -/
  contents : List String := []
  /-- how deep sub-filters may nest -/
  nestingLimit : Nat := defaultLimit
  /-- whether orderings are checked -/
  validateOrdering : Bool := true
deriving DecidableEq, Repr

namespace Config

open Yaml (Node Document)

def isAbsent : Node Nat → Bool
  | .scalar _ _ .plain text => text.isEmpty
  | _ => false

/-- The entries of a section, which may be left empty. -/
def section? (document : Document) (node : Node Nat) : Option (List (Node Nat × Node Nat)) :=
  match document.follow node with
  | .mapping _ _ entries => some entries
  | node => if isAbsent node then some [] else none

/-- The items of a list, which may be left empty. -/
def list? (document : Document) (node : Node Nat) : Option (List (Node Nat)) :=
  match document.follow node with
  | .sequence _ _ items => some items
  | node => if isAbsent node then some [] else none

def text? (document : Document) (node : Node Nat) : Option String :=
  match document.follow node with
  | .scalar _ _ _ text => some text
  | _ => none

/-- The text of a scalar that is plain, or literal with the tag of its kind. -/
def plainText? (document : Document) (kind : String) (node : Node Nat) : Option String :=
  match document.follow node with
  | .scalar _ tag style text =>
      let tagged := style = .literal ∧ tag = some (.core kind)
      if style = .plain ∨ tagged then some text else none
  | _ => none

def bool? (document : Document) (node : Node Nat) : Option Bool :=
  (plainText? document "bool" node).bind Yaml.boolText?

/-- The number of a setting, which fits a word of 32 bits. -/
def number? (document : Document) (node : Node Nat) : Option Nat :=
  ((plainText? document "int" node).bind fun text => Yaml.natText? text.toList).filter
    (Decimal.fitsWord 32)

def settings? (document : Document) (node : Node Nat) :
    Option (List (String × Node Nat)) := do
  (← section? document node).mapM fun (key, value) => do
    return (← text? document key, value)

/-- The setting of a name, read where it is given; it may be given once. -/
def setting? {α : Type} (settings : List (String × Node Nat)) (name : String) (absent : α)
    (read : Node Nat → Option α) : Option α :=
  match settings.filter (·.1 == name) with
  | [] => some absent
  | [(_, node)] => read node
  | _ => none

def nestingLimit? (document : Document) (node : Node Nat) : Option Nat := do
  setting? (← settings? document node) "max_nesting_depth" defaultLimit (number? document)

def ofDocument? (document : Document) : Option Config := do
  let settings ← settings? document document.root
  let files ← setting? settings "definition_files" [] fun node => do
    (← list? document node).mapM (text? document)
  let nestingLimit ←
    setting? settings "compiler_options" defaultLimit (nestingLimit? document)
  let validateOrdering ← setting? settings "validate_ordering" true (bool? document)
  return { files, nestingLimit, validateOrdering }

def read? (text : String) : Option Config := do
  ofDocument? (← Yaml.document? text)

end Config

end FilterQuery
