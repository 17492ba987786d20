import FilterQuery.Decimal.Integer
/-!
# Reading decimal fractions

A decimal is a sign, digits with an optional point, and an optional power of
ten; its value is the binary floating-point number nearest to it, ties going to
the even neighbour.  What is too large reads as an infinity, what is too small
as zero.  The words for infinity and for no number are read in any case.
-/

namespace FilterQuery.Decimal

/-- The number nearest to `digits * 10 ^ power`.  Outside the bounds it lies
beyond the largest number or below half the smallest. -/
def scale (digits : Nat) (power : Int) : Float :=
  let top := power + (Nat.toDigits 10 digits).length
  if digits = 0 ∨ top < -330 then 0.0
  else if 330 < top then Float.ofScientific 1 false 400
  else Float.ofScientific digits (power < 0) power.natAbs

def power? : List Char → Option Int
  | [] => some 0
  | c :: rest => if c = 'e' ∨ c = 'E' then int? rest else none

def unsigned? (text : List Char) : Option Float := do
  let word := text.map Char.toLower
  if word = "inf".toList ∨ word = "infinity".toList then
    return Float.ofScientific 1 false 400
  if word = "nan".toList then
    return 0.0 / 0.0
  let whole := text.takeWhile Char.isDigit
  let (fraction, rest) :=
    match text.dropWhile Char.isDigit with
    | '.' :: rest => (rest.takeWhile Char.isDigit, rest.dropWhile Char.isDigit)
    | rest => ([], rest)
  let digits ← nat? 10 (whole ++ fraction)
  return scale digits ((← power? rest) - fraction.length)

/-- The floating-point number nearest to a decimal text. -/
def float? (text : List Char) : Option Float :=
  match text with
  | '-' :: rest => (unsigned? rest).map (- ·)
  | '+' :: rest => unsigned? rest
  | rest => unsigned? rest

end FilterQuery.Decimal
