import FilterQuery.SortKey
import FilterQuery.Filter.Conditions
/-!
# Find queries

A find query carries what one search of a store needs: the conditions, all of
which hold, the sort keys, bounds on the result, and the hints that follow from
the conditions.
-/

namespace FilterQuery

structure FindQuery where
  conditions : List Condition := []
  sortKeys : List SortKey := []
  limit : Option Nat := none
  skip : Option Nat := none

namespace FindQuery

def sortedBy (query : FindQuery) (keys : List SortKey) : FindQuery :=
  { query with sortKeys := query.sortKeys ++ keys }

def fetchLinks (query : FindQuery) : Bool :=
  query.conditions.any (·.hints.fetchLinks)

/-- The deepest level that a condition comes from. -/
def depth? (query : FindQuery) : Option Nat :=
  (query.conditions.filterMap (·.hints.depth)).max?

def conjunction : List Condition → Json
  | [] => .object []
  | [condition] => condition.predicate.document
  | many => .object [("$and", .array (many.map (·.predicate.document)))]

def filterDocument (query : FindQuery) : Json :=
  conjunction query.conditions

/-- The sort keys as pairs of a field and a factor. -/
def sortDocument (query : FindQuery) : Json :=
  .array (query.sortKeys.map fun key =>
    .array [.string key.field, .int key.direction.factor])

/-- The whole query as a document; what is not given is left out. -/
def document (query : FindQuery) : Json :=
  let given (key : String) (value : Option Json) := (value.map fun v => (key, v)).toList
  .object <|
    [("filter", query.filterDocument), ("fetch_links", .bool query.fetchLinks)] ++
    (if query.sortKeys.isEmpty then [] else [("sort", query.sortDocument)]) ++
    given "limit" (query.limit.map fun n => .int n) ++
    given "skip" (query.skip.map fun n => .int n) ++
    given "nesting_depth" (query.depth?.map fun n => .int n)

end FindQuery

/-- The query sorted as a filter asks; without an ordering it stays as it is. -/
def Filter.sort (filter : Filter) (query : FindQuery) : FindQuery :=
  if filter.ordering.isEmpty then query
  else query.sortedBy (filter.ordering.map SortKey.read)

end FilterQuery
