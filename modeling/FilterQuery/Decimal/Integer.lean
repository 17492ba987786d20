/-!
# Reading integers

Integers are read from digits in a base, with an optional sign.  A reader gives
the exact value or nothing: no digit string is too long, and ranges are the
business of whoever asks.
-/

namespace FilterQuery.Decimal

/-- The value of a digit in a base of at most sixteen. -/
def digit? (base : Nat) (c : Char) : Option Nat :=
  let value :=
    if '0' ≤ c ∧ c ≤ '9' then some (c.toNat - '0'.toNat)
    else if 'a' ≤ c ∧ c ≤ 'f' then some (c.toNat - 'a'.toNat + 10)
    else if 'A' ≤ c ∧ c ≤ 'F' then some (c.toNat - 'A'.toNat + 10)
    else none
  value.filter (· < base)

/-- The number that digits continue, when the digits before them are `value`. -/
def natFrom? (base value : Nat) : List Char → Option Nat
  | [] => some value
  | c :: rest => do natFrom? base (value * base + (← digit? base c)) rest

def nat? (base : Nat) (text : List Char) : Option Nat :=
  if text.isEmpty then none else natFrom? base 0 text

/-- An integer: digits after at most one sign. -/
def int? (text : List Char) : Option Int :=
  match text with
  | '-' :: digits => (nat? 10 digits).map fun n => -(n : Int)
  | '+' :: digits => (nat? 10 digits).map Int.ofNat
  | digits => (nat? 10 digits).map Int.ofNat

def fitsWord (bits n : Nat) : Bool :=
  n < Nat.pow 2 bits

/-- Whether an integer fits a signed word of some bits, one of them the sign. -/
def fitsSigned (bits : Nat) : Int → Bool
  | .ofNat n => fitsWord (bits - 1) n
  | .negSucc n => fitsWord (bits - 1) n

end FilterQuery.Decimal
