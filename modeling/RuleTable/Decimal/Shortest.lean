import RuleTable.Decimal.Binary

/-!
Floating-point numbers in decimal: the fewest digits that still tell a number from its neighbors,
written out or with an exponent.
-/

namespace RuleTable.Decimal

/-- The reals that round to a number are those between `low` and `high` quarters of its last binary
place; the ends belong to them if `closed`. The number itself is `mid` quarters. -/
structure Cell where
  low : Nat
  mid : Nat
  high : Nat
  /-- a quarter is 2 to this power -/
  scale : Int
  closed : Bool

/-- The reals around a positive number. Below a power of two its neighbor is only half as far. -/
def Cell.of (b : Binary) : Cell :=
  let narrow := b.mantissa == leadingBit && decide (-1074 < b.exponent)
  { low := 4 * b.mantissa - (if narrow then 1 else 2)
    mid := 4 * b.mantissa
    high := 4 * b.mantissa + 2
    scale := b.exponent - 2
    closed := b.mantissa % 2 == 0 }

namespace Cell

/-- Two sides of a comparison between so many quarters and `n` units of `10 ^ place`. -/
def sides (c : Cell) (quarters n : Nat) (place : Int) : Nat × Nat :=
  (quarters * Nat.pow 2 c.scale.toNat * Nat.pow 10 (-place).toNat,
    n * Nat.pow 10 place.toNat * Nat.pow 2 (-c.scale).toNat)

/-- The decimal `n · 10 ^ place` rounds to the number. -/
def holds (c : Cell) (n : Nat) (place : Int) : Bool :=
  let (low, x) := c.sides c.low n place
  let (high, _) := c.sides c.high n place
  if c.closed then low ≤ x && x ≤ high else low < x && x < high

/-- The decimal exponent of the first digit. -/
def magnitude (c : Cell) : Int :=
  let (a, b) := c.sides c.mid 1 (-340)
  (Nat.toDigits 10 (a / b)).length - 341

/-- The multiples of `10 ^ place` next to the number that round to it, the nearer one first. -/
def nearby (c : Cell) (place : Int) : List Nat :=
  let (a, b) := c.sides c.mid 1 place
  let below := a / b
  let candidates := if 2 * (a % b) ≤ b then [below, below + 1] else [below + 1, below]
  candidates.filter (c.holds · place)

/-- Tries more and more digits. Seventeen are always enough. -/
def search (c : Cell) (magnitude : Int) : Nat → Nat → Nat × Int
  | 0, digits => ((c.nearby (magnitude - digits)).headD 0, magnitude - digits)
  | fuel + 1, digits =>
    match c.nearby (magnitude - digits) with
    | n :: _ => (n, magnitude - digits)
    | [] => search c magnitude fuel (digits + 1)

end Cell

/-- Digits, and the decimal exponent of the first one. -/
structure Digits where
  list : List Char
  exponent : Int
  deriving Repr

/-- The fewest digits that tell a number from its neighbors, its sign apart. -/
def Digits.of (b : Binary) : Digits :=
  if b.mantissa == 0 then ⟨['0'], 0⟩
  else
    let c := Cell.of b
    let (n, place) := c.search c.magnitude 16 0
    let all := Nat.toDigits 10 n
    let short := (all.reverse.dropWhile (· == '0')).reverse
    ⟨short, place + all.length - 1⟩

namespace Digits

/-- The digits with the point where it belongs. -/
def positional (d : Digits) : List Char :=
  if d.exponent < 0 then
    ['0', '.'] ++ List.replicate (-d.exponent - 1).toNat '0' ++ d.list
  else
    let whole := d.exponent.toNat + 1
    if d.list.length ≤ whole then d.list ++ List.replicate (whole - d.list.length) '0'
    else d.list.take whole ++ ['.'] ++ d.list.drop whole

/-- One digit, the point, the others, and an exponent with a sign and at least two digits. -/
def scientific (d : Digits) : List Char :=
  let point := if d.list.length ≤ 1 then [] else ['.']
  let size := Nat.toDigits 10 d.exponent.natAbs
  d.list.take 1 ++ point ++ d.list.drop 1 ++ ['e', if d.exponent < 0 then '-' else '+'] ++
    (if size.length < 2 then '0' :: size else size)

end Digits

def write (form : Digits → List Char) (x : Float) : String :=
  match Parts.of x with
  | .notANumber => "NaN"
  | .infinite negative => if negative then "-Inf" else "+Inf"
  | .finite b => String.ofList ((if b.negative then ['-'] else []) ++ form (.of b))

/-- The number without an exponent. -/
def positional (x : Float) : String := write Digits.positional x

/-- The number, with an exponent if that is below -4 or above 5. -/
def general (x : Float) : String :=
  write (fun d => if d.exponent < -4 ∨ 6 ≤ d.exponent then d.scientific else d.positional) x

end RuleTable.Decimal
