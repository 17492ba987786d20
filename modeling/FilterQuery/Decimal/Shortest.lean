/-!
# The shortest decimal that reads back

A finite floating-point number is `significand * 2 ^ exponent`.  The reals that
round to it form an interval around it, which includes its ends exactly when the
significand is even.  Among the decimals in that interval the shortest are those
on the coarsest decimal grid that meets it, and if any point of a grid lies in
the interval, so does one of the two grid points next to the number itself.  So
the search takes grids of one, two, … seventeen digits and looks at two points of
each, in exact arithmetic on natural numbers.
-/

namespace FilterQuery.Decimal

def exponentBits (x : Float) : Nat :=
  x.toBits.toNat / Nat.pow 2 52 % Nat.pow 2 11

def fractionBits (x : Float) : Nat :=
  x.toBits.toNat % Nat.pow 2 52

def isNegative (x : Float) : Bool :=
  Nat.pow 2 63 ≤ x.toBits.toNat

def significand (x : Float) : Nat :=
  if exponentBits x = 0 then fractionBits x else fractionBits x + Nat.pow 2 52

/-- The power of two that scales the significand of a finite number. -/
def exponent (x : Float) : Int :=
  (max (exponentBits x) 1 : Nat) - 1075

structure Ratio where
  num : Nat
  den : Nat

def Ratio.ofPower (n base : Nat) (power : Int) : Ratio :=
  ⟨n * Nat.pow base power.toNat, Nat.pow base (-power).toNat⟩

def Ratio.below (a b : Ratio) : Bool :=
  a.num * b.den < b.num * a.den

/-- The whole number of times that `10 ^ unit` goes into a fraction. -/
def Ratio.steps (a : Ratio) (unit : Int) : Nat :=
  (a.num * Nat.pow 10 (-unit).toNat) / (a.den * Nat.pow 10 unit.toNat)

/-- The reals that round to a number, in quarters of its unit in the last place.
Below a power of two the neighbours are half as far apart as above it. -/
structure Interval where
  low : Ratio
  high : Ratio
  closed : Bool

def Interval.around (x : Float) : Interval :=
  let quarter (n : Nat) := Ratio.ofPower n 2 (exponent x - 2)
  let m := 4 * significand x
  let narrow := fractionBits x = 0 ∧ 1 < exponentBits x
  ⟨quarter (if narrow then m - 1 else m - 2), quarter (m + 2), significand x % 2 = 0⟩

def Interval.contains (i : Interval) (a : Ratio) : Bool :=
  if i.closed then !a.below i.low && !i.high.below a
  else i.low.below a && a.below i.high

/-- The decimal `digits * 10 ^ unit`. -/
structure Digits where
  digits : Nat
  unit : Int

/-- The point of the grid with spacing `10 ^ unit` that lies in the interval of
`x` and nearest to it.  A tie goes to the even point. -/
def nearestOnGrid? (x : Float) (unit : Int) : Option Digits :=
  let value := Ratio.ofPower (significand x) 2 (exponent x)
  let interval := Interval.around x
  let n := value.steps unit
  let point (n : Nat) := Ratio.ofPower n 10 unit
  let middle := Ratio.ofPower (10 * n + 5) 10 (unit - 1)
  let lowFirst := value.below middle || (!middle.below value && n % 2 = 0)
  match interval.contains (point n), interval.contains (point (n + 1)) with
  | true, true => some ⟨if lowFirst then n else n + 1, unit⟩
  | true, false => some ⟨n, unit⟩
  | false, true => some ⟨n + 1, unit⟩
  | false, false => none

/-- The decimal exponent of the leading digit of a positive finite number. -/
def leading (x : Float) : Int :=
  let value := Ratio.ofPower (significand x) 2 (exponent x)
  (Nat.toDigits 10 (value.steps (-330))).length - 331

/-- The shortest decimal that reads back as a positive finite number, and the
nearest to it of those. -/
def shortest (x : Float) : Digits :=
  let grids := (List.range 17).map fun (n : Nat) => leading x - n
  (grids.findSome? (nearestOnGrid? x)).getD ⟨0, 0⟩

end FilterQuery.Decimal
