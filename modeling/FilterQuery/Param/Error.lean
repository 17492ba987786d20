import FilterQuery.Filter.Assignment
/-!
# Faults of parameters

Each fault names its cause; the wording stands in one place.
-/

namespace FilterQuery

inductive OrderingFault where
  /-- a field that may not be sorted by -/
  | unsortable (field : String)
  /-- fields used more than once, each with the entries that use it -/
  | ambiguous (uses : List (String × List String))
deriving DecidableEq, Repr

def OrderingFault.message : OrderingFault → String
  | .unsortable field => field ++ " is not a valid ordering field"
  | .ambiguous uses =>
      "field names can appear at most once, the following was ambiguous: " ++
        "; ".intercalate (uses.map fun (field, entries) =>
          field ++ ": " ++ ", ".intercalate entries)

inductive BindError where
  /-- no field has the key -/
  | unknownKey (key : String)
  /-- a nested field is given without a field of its own -/
  | bareNested (field : String)
  /-- the text does not write a value of the kind -/
  | unreadable (field raw : String) (kind : FieldKind)
  /-- values of the kind do not stand in lists -/
  | unlistable (field : String) (kind : FieldKind)
  /-- the ordering is not acceptable -/
  | ordering (field : String) (fault : OrderingFault)
  /-- the filter refuses the value -/
  | refused (cause : FilterError)
deriving DecidableEq

def invalidValue (field message : String) : String :=
  "Invalid value for field '" ++ field ++ "': " ++ message

def BindError.message : BindError → String
  | .unknownKey key => "Unknown field: " ++ key
  | .bareNested field =>
      invalidValue field
        ("nested filter expects prefixed parameters such as '" ++ field ++ "__<field>'")
  | .unreadable field raw kind =>
      invalidValue field ("'" ++ raw ++ "' is not a valid " ++ kind.describe)
  | .unlistable field kind =>
      invalidValue field ("cannot bind a " ++ kind.describe ++ " inside a list")
  | .ordering field fault =>
      "Invalid ordering for '" ++ field ++ "': " ++ fault.message
  | .refused cause => "Invalid definition: " ++ cause.message

end FilterQuery
