import RuleTable.Decimal.Binary
import RuleTable.Decimal.Read

/-!
Lengths of time, written as numbers with units: `90s`, `1.5h`, `2h3m4s`. They are whole numbers of
nanoseconds that fit a signed word.
-/

namespace RuleTable.Duration

/-- The units and their nanoseconds. Micro is written with either of two letters, or with a `u`. -/
def units : List (String × Nat) := [
  ("ns", 1), ("us", 1000), ("\u00b5s", 1000), ("\u03bcs", 1000), ("ms", 1000000),
  ("s", 1000000000), ("m", 60000000000), ("h", 3600000000000)]

def most : Nat := signedBound

/-- The digits after a point as a number, and what it is to be divided by. Digits that would make it
too large are left out. -/
def fractionFrom (value scale : Nat) : List Char → Nat × Nat
  | [] => (value, scale)
  | c :: cs =>
    let next := 10 * value + (c.toNat - 48)
    if (most - 1) / 10 < value || most < next then (value, scale)
    else fractionFrom next (10 * scale) cs

/-- So many parts of a unit, without what is less than a nanosecond. -/
def part (value scale unit : Nat) : Nat :=
  (Decimal.toWord (Float.ofNat value * (Float.ofNat unit / Float.ofNat scale))).toNat

/-- A number with its unit, and what follows. -/
def term? (cs : List Char) : Option (Nat × List Char) := do
  let whole := cs.takeWhile Decimal.isDigit
  let rest := cs.dropWhile Decimal.isDigit
  let (fraction, rest) := match rest with
    | '.' :: r => (r.takeWhile Decimal.isDigit, r.dropWhile Decimal.isDigit)
    | r => ([], r)
  if whole.isEmpty && fraction.isEmpty then failure
  let isUnit (c : Char) : Bool := c != '.' && !Decimal.isDigit c
  let unit ← units.lookup (String.ofList (rest.takeWhile isUnit))
  let value := Decimal.digitsValue whole
  if most < value || most / unit < value then failure
  let (above, below) := fractionFrom 0 1 fraction
  let size := value * unit + (if above = 0 then 0 else part above below unit)
  if most < size then failure
  return (size, rest.dropWhile isUnit)

/-- The sum of the terms, added in words of 64 bits. -/
def sumFrom (sum : Nat) : Nat → List Char → Option Nat
  | _, [] => some sum
  | 0, _ => none
  | fuel + 1, cs => do
    let (size, rest) ← term? cs
    let sum := (sum + size) % unsignedBound
    if most < sum then failure
    sumFrom sum fuel rest

/-- A length of time with an optional sign. A zero needs no unit. -/
def read? (s : String) : Option Int := do
  let (negative, cs) := match s.toList with
    | '-' :: cs => (true, cs)
    | '+' :: cs => (false, cs)
    | cs => (false, cs)
  if cs = ['0'] then return 0
  if cs.isEmpty then failure
  let size ← sumFrom 0 cs.length cs
  if negative then return -(size : Int)
  if size = most then failure
  return size

end RuleTable.Duration
