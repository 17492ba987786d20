import FilterQuery.Param.Error
import FilterQuery.Decimal.Fraction
import FilterQuery.Text.Blank
import FilterQuery.Text.Split
/-!
# Reading values

The text of a parameter is read as a value of the kind of its field.  Strings are
taken as they are; numbers and truth values may have white space around them.
Integers are exact and fit a signed word of 64 bits, numbers are finite, and a
list reads each of its items.
-/

namespace FilterQuery

/-- The truth value that a text writes, in any case. -/
def readBool? (raw : String) : Option Bool :=
  let word := String.ofList ((Text.trimChars raw.toList).map Char.toLower)
  if word ∈ ["true", "1", "yes", "on"] then some true
  else if word ∈ ["false", "0", "no", "off"] then some false
  else none

def readInteger? (raw : String) : Option Int :=
  (Decimal.int? (Text.trimChars raw.toList)).filter (Decimal.fitsSigned 64)

def readNumber? (raw : String) : Option Float :=
  (Decimal.float? (Text.trimChars raw.toList)).filter Float.isFinite

namespace FieldKind

def readScalar (field : String) (kind : FieldKind) (raw : String) : Except BindError Json :=
  let read (value : Option Json) := value.elim (.error (.unreadable field raw kind)) .ok
  match kind with
  | string => .ok (.string raw)
  | integer => read ((readInteger? raw).map .int)
  | number => read ((readNumber? raw).map .float)
  | boolean => read ((readBool? raw).map .bool)
  | list _ | nested _ => .error (.unlistable field kind)

/-- The value of a kind that a text writes. -/
def read (field : String) (kind : FieldKind) (raw : String) : Except BindError Value :=
  match kind with
  | list item => .list <$> (Text.items raw).mapM (item.readScalar field)
  | boolean =>
      match readBool? raw with
      | some value => .ok (.bool value)
      | none => .error (.unreadable field raw kind)
  | _ => .scalar <$> kind.readScalar field raw

end FieldKind

end FilterQuery
