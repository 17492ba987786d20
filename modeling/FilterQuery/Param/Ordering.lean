import FilterQuery.Param.Error
import FilterQuery.SortKey
import FilterQuery.Text.Split
/-!
# Orderings

An ordering is a comma-separated list of sort keys.  Where a definition says what
may be sorted by, each key has to name one of those fields, and no field may be
named twice.  A field that may not be sorted by is reported before any that is
named twice.
-/

namespace FilterQuery

/-- The entries of an ordering, trimmed; blank ones do not count. -/
def orderingEntries (raw : String) : List String :=
  ((Text.items raw).map Text.trim).filter (!·.isEmpty)

/-- The fields used more than once, in the order of their second use, where those
before them are `seen`. -/
def repeatedFields (seen : List String) : List String → List String
  | [] => []
  | field :: rest =>
      let later := repeatedFields (field :: seen) rest
      if seen.count field = 1 then field :: later else later

def sortedField (entry : String) : String :=
  (SortKey.read entry).field

/-- What is wrong with the entries of an ordering by the given fields. -/
def orderingFault? (sortable entries : List String) : Option OrderingFault :=
  let fields := entries.map sortedField
  match fields.find? (· ∉ sortable) with
  | some field => some (.unsortable field)
  | none =>
      let repeated := repeatedFields [] fields
      if repeated.isEmpty then none
      else some (.ambiguous (repeated.map fun field =>
        (field, entries.filter (sortedField · == field))))

def checkOrdering (constants : Constants) (entries : List String) : Except BindError Unit :=
  match constants.sortable.bind (orderingFault? · entries) with
  | some fault => .error (.ordering constants.orderingField fault)
  | none => .ok ()

end FilterQuery
