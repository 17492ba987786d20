import FilterQuery.Predicate.Basic
/-!
# Conditions

A condition is a predicate with hints for whoever runs the query: whether linked
documents have to be fetched, and how deeply nested the filter was that the
predicate comes from.
-/

namespace FilterQuery

/-- Hints for running a predicate. -/
structure Hints where
  /-- linked documents have to be fetched -/
  fetchLinks : Bool := false
  /-- the level of the sub-filter behind the predicate, from one -/
  depth : Option Nat := none
deriving DecidableEq, Repr

namespace Hints

def linked (depth : Nat) : Hints := ⟨true, some depth⟩

/-- The hints of a predicate inside an enclosing level.  Links are fetched when
either side needs it; the inner level, where recorded, is the deeper one and
stays. -/
def merge (outer inner : Hints) : Hints :=
  ⟨outer.fetchLinks || inner.fetchLinks, inner.depth.or outer.depth⟩

end Hints

structure Condition where
  predicate : Predicate
  hints : Hints := {}

/-- A condition of a sub-filter as a condition of the filter that holds it under
`field` at a level. -/
def Condition.linkedUnder (field : String) (depth : Nat) (c : Condition) : Condition :=
  ⟨c.predicate.under field, .merge (.linked depth) c.hints⟩

end FilterQuery
