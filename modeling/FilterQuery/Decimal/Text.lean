import FilterQuery.Decimal.Shortest
/-!
# The text of a floating-point number

A number is written with the fewest digits that read back.  A layout says which
magnitudes are written positionally; the others are written with one digit
before the point and a signed power of ten.
-/

namespace FilterQuery.Decimal

/-- The range of decimal exponents that are written positionally. -/
structure Layout where
  lowest : Int
  highest : Int

/-- Numbers from `0.00001` up to sixteen digits before the point are written
positionally. -/
def standard : Layout := ⟨-5, 15⟩

/-- The digits in front, with the point after `whole` of them; at least one digit
stands on either side. -/
def pointed (digits : List Char) (whole : Int) : List Char :=
  if whole ≤ 0 then
    '0' :: '.' :: (List.replicate (-whole).toNat '0' ++ digits)
  else
    let before := digits.take whole.toNat
    let after := digits.drop whole.toNat
    before ++ List.replicate (whole.toNat - before.length) '0' ++
      '.' :: (if after.isEmpty then ['0'] else after)

def scientific (digits : List Char) (power : Int) : List Char :=
  let tail := digits.drop 1
  let sign := if power < 0 then '-' else '+'
  digits.take 1 ++ (if tail.isEmpty then [] else '.' :: tail) ++
    'e' :: sign :: Nat.toDigits 10 power.natAbs

def positive (layout : Layout) (x : Float) : List Char :=
  let decimal := shortest x
  let written := Nat.toDigits 10 decimal.digits
  let power := decimal.unit + written.length - 1
  let digits := (written.reverse.dropWhile (· = '0')).reverse
  if layout.lowest ≤ power ∧ power ≤ layout.highest then pointed digits (power + 1)
  else scientific digits power

def text (x : Float) : String :=
  if x.isNaN then "nan"
  else
    let magnitude :=
      if !x.isFinite then "inf".toList
      else if significand x = 0 then "0.0".toList
      else positive standard x
    String.ofList (if isNegative x then '-' :: magnitude else magnitude)

end FilterQuery.Decimal
