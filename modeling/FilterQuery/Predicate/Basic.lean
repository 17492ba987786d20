import FilterQuery.Json.Basic
/-!
# Predicates

A predicate constrains one document path, by equality or by an operator
expression, or it is a disjunction of predicates, which has no path of its own.
A predicate can be moved below a parent field; a disjunction moves branch by
branch.
-/

namespace FilterQuery

inductive Comparison where
  | ne
  | gt
  | gte
  | lt
  | lte
  | among
  | notAmong
  | present
deriving DecidableEq, Repr

def Comparison.key : Comparison → String
  | .ne => "$ne"
  | .gt => "$gt"
  | .gte => "$gte"
  | .lt => "$lt"
  | .lte => "$lte"
  | .among => "$in"
  | .notAmong => "$nin"
  | .present => "$exists"

inductive Expression where
  | compare (comparison : Comparison) (operand : Json)
  | regex (pattern : String) (ignoreCase : Bool)

namespace Expression

def key : Expression → String
  | compare c _ => c.key
  | regex _ _ => "$regex"

def document : Expression → Json
  | compare c operand => .object [(c.key, operand)]
  | regex pattern false => .object [("$regex", .string pattern)]
  | regex pattern true => .object [("$regex", .string pattern), ("$options", .string "i")]

end Expression

/-- What a predicate asks of the value at a path. -/
inductive Constraint where
  | equals (value : Json)
  | meets (expression : Expression)

def Constraint.document : Constraint → Json
  | .equals value => value
  | .meets expression => expression.document

/-- One constraint of a query. -/
inductive Predicate where
  | field (path : String) (constraint : Constraint)
  | any (branches : List Predicate)

namespace Predicate

/-- The path of a predicate; a disjunction has none. -/
def path? : Predicate → Option String
  | field path _ => some path
  | any _ => none

/-- The key of the expression of a predicate; an equality has none. -/
def key? : Predicate → Option String
  | field _ (.meets expression) => some expression.key
  | _ => none

mutual

/-- The predicate with its paths moved below a parent field. -/
def under (parent : String) : Predicate → Predicate
  | field path constraint => field (parent ++ "." ++ path) constraint
  | any branches => any (branchesUnder parent branches)

def branchesUnder (parent : String) : List Predicate → List Predicate
  | [] => []
  | branch :: rest => under parent branch :: branchesUnder parent rest

end

mutual

def document : Predicate → Json
  | field path constraint => .object [(path, constraint.document)]
  | any branches => .object [("$or", .array (branchDocuments branches))]

def branchDocuments : List Predicate → List Json
  | [] => []
  | branch :: rest => document branch :: branchDocuments rest

end

theorem branchesUnder_eq_map (parent : String) (branches : List Predicate) :
    branchesUnder parent branches = branches.map (under parent) := by
  induction branches with
  | nil => rfl
  | cons branch rest ih => simp [branchesUnder, ih]

theorem branchDocuments_eq_map (branches : List Predicate) :
    branchDocuments branches = branches.map document := by
  induction branches with
  | nil => rfl
  | cons branch rest ih => simp [branchDocuments, ih]

end Predicate

end FilterQuery
