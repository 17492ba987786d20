import FilterQuery.Filter.Assignment
/-!
# Filters kept in one place

A filter can be kept in one place and changed there, call by call.  What a call has
changed stays changed when the call fails further on, so a call looks at everything
that may refuse it before it writes.
-/

namespace FilterQuery

/-- A call on a filter that is kept in one place. -/
abbrev InPlace (α : Type) := ExceptT FilterError (StateM Filter) α

namespace InPlace

def slot (name : String) : InPlace Slot := do
  ofExcept ((← get).slot? name)

def write (name : String) (value : Option Value) : InPlace Unit :=
  modify fun filter => { filter with slots := Slot.assign name value filter.slots }

def set (name : String) (value : Value) : InPlace Unit := do
  let slot ← slot name
  if slot.declared.kind.accepts value then
    write name (some value)
  else
    throw (.kindMismatch name slot.declared.kind.describe)

/-- Clears a field and gives what it held. -/
def unset (name : String) : InPlace (Option Value) := do
  let slot ← slot name
  write name none
  return slot.value

def order (entries : List String) : InPlace Unit :=
  modify fun filter => { filter with ordering := entries }

end InPlace

/-- What a call on a filter gives, and the filter after it. -/
def Filter.call {α : Type} (filter : Filter) (action : InPlace α) :
    Except FilterError α × Filter :=
  action.run.run filter

end FilterQuery
