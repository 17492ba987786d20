import FilterQuery.Yaml.Value.Basic
import FilterQuery.Yaml.Token
import FilterQuery.Decimal.Fraction
/-!
# The meaning of scalars

A plain scalar without a tag is null, a truth value, an integer, a floating-point
number or a string, the first of these that its text writes.  Other scalars are
strings.  Integers are decimal or have the sign of a base in front; digits behind
a leading zero are no decimal integer.  An integer too large for a word of 64
bits has no value, and a floating-point number too large to be finite is none.
-/

namespace FilterQuery.Yaml

def isNullText (text : String) : Bool :=
  text ∈ ["~", "null", "Null", "NULL"]

def boolText? (text : String) : Option Bool :=
  if text ∈ ["true", "True", "TRUE"] then some true
  else if text ∈ ["false", "False", "FALSE"] then some false
  else none

/-- Whether a text is digits behind a leading zero, after at most one sign. -/
def isPadded (text : List Char) : Bool :=
  let digits :=
    match text with
    | '+' :: rest | '-' :: rest => rest
    | rest => rest
  match digits with
  | '0' :: c :: rest => (c :: rest).all Char.isDigit
  | _ => false

def isSigned (text : List Char) : Bool :=
  text.head?.any fun c => c = '+' || c = '-'

def basedNat? (text : List Char) : Option Nat :=
  match text with
  | '0' :: 'x' :: digits => Decimal.nat? 16 digits
  | '0' :: 'o' :: digits => Decimal.nat? 8 digits
  | '0' :: 'b' :: digits => Decimal.nat? 2 digits
  | _ => none

def natText? (text : List Char) : Option Nat :=
  let unsigned := if text.head? = some '+' then text.drop 1 else text
  match basedNat? unsigned with
  | some n => some n
  | none => if isPadded text then none else Decimal.nat? 10 unsigned

def negativeText? (text : List Char) : Option Nat :=
  match text with
  | '-' :: digits =>
      match basedNat? digits with
      | some n => some n
      | none => if isPadded text then none else Decimal.nat? 10 digits
  | _ => none

def intText? (text : List Char) : Option Int :=
  match natText? text with
  | some n => if Decimal.fitsWord 128 n then some (.ofNat n) else none
  | none =>
      ((negativeText? text).map fun n => -(n : Int)).filter (Decimal.fitsSigned 128)

/-- The value of an integer; one that fits no word of 64 bits has none. -/
def Value.ofInt? (n : Int) : Option Value :=
  if Decimal.fitsSigned 64 n || (0 ≤ n && Decimal.fitsWord 64 n.toNat) then some (.int n)
  else none

def floatText? (text : String) : Option Float :=
  let infinite := Float.ofScientific 1 false 400
  if text ∈ [".inf", ".Inf", ".INF", "+.inf", "+.Inf", "+.INF"] then some infinite
  else if text ∈ ["-.inf", "-.Inf", "-.INF"] then some (-infinite)
  else if text ∈ [".nan", ".NaN", ".NAN"] then some (0.0 / 0.0)
  else
    let chars := text.toList
    let unsigned := if chars.head? = some '+' then chars.drop 1 else chars
    if chars.head? = some '+' ∧ isSigned unsigned then none
    else (Decimal.float? unsigned).filter Float.isFinite

/-- The value of a plain scalar; nothing, for an integer that fits no word. -/
def Value.ofPlain? (text : String) : Option Value :=
  if text.isEmpty ∨ isNullText text then some .null
  else
    match boolText? text with
    | some value => some (.bool value)
    | none =>
        match intText? text.toList with
        | some n => Value.ofInt? n
        | none =>
            if isPadded text.toList then some (.string text)
            else
              match floatText? text with
              | some x => some (.float x)
              | none => some (.string text)

/-- The value of a scalar with a tag of the core schema; a tag that asks for another
kind of value than the text writes has none.  Other tags ask for a string. -/
def Value.ofTagged? (tag : Tag) (text : String) : Option Value :=
  if tag = .core "bool" then (boolText? text).map .bool
  else if tag = .core "int" then (intText? text.toList).bind Value.ofInt?
  else if tag = .core "float" then (floatText? text).map .float
  else if tag = .core "null" then if isNullText text then some .null else none
  else some (.string text)

end FilterQuery.Yaml
