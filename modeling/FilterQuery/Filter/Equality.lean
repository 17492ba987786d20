import FilterQuery.Filter.Basic
import FilterQuery.Definition.Equality
/-!
# Equality of filters

Two filters are the same when they have one definition, the same value in every
slot and one ordering.  JSON values inside are compared as numbers where they are
floating-point, so the two zeros make no difference.
-/

namespace FilterQuery

mutual

def Value.same : Value → Value → Bool
  | .scalar a, .scalar b => a.same b
  | .list a, .list b => Json.sameItems a b
  | .bool a, .bool b => a == b
  | .sub a, .sub b => a.same b
  | _, _ => false

def Slot.sameAll : List Slot → List Slot → Bool
  | [], [] => true
  | ⟨d, none⟩ :: as, ⟨e, none⟩ :: bs => d = e && Slot.sameAll as bs
  | ⟨d, some a⟩ :: as, ⟨e, some b⟩ :: bs => d = e && a.same b && Slot.sameAll as bs
  | _, _ => false

def Filter.same : Filter → Filter → Bool
  | ⟨n, as, c, o⟩, ⟨m, bs, d, p⟩ => n == m && c == d && o == p && Slot.sameAll as bs

end

end FilterQuery
