/-!
Reading decimal numbers with a fraction or an exponent as floating-point numbers.
-/

namespace RuleTable.Decimal

def isDigit (c : Char) : Bool := '0' ≤ c && c ≤ '9'

def digitsValue (cs : List Char) : Nat := cs.foldl (fun n c => 10 * n + (c.toNat - 48)) 0

/-- The exponent at the end of a number: a mark, an optional sign and digits, or nothing. -/
def exponent? : List Char → Option Int
  | [] => some 0
  | e :: cs =>
    if e != 'e' && e != 'E' then none
    else
      let (negative, digits) := match cs with
        | '-' :: ds => (true, ds)
        | '+' :: ds => (false, ds)
        | ds => (false, ds)
      if digits.isEmpty || !digits.all isDigit then none
      else some (if negative then -(digitsValue digits : Int) else digitsValue digits)

/-- The number `m · 10 ^ e` for an `m` of so many digits, if it is not too large. -/
def scale? (m digits : Nat) (e : Int) : Option Float :=
  if m = 0 then some 0.0
  else if 310 < digits + e then none
  else if digits + e < -400 then some 0.0
  else
    let x := Float.ofScientific m (decide (e < 0)) e.natAbs
    if x.isInf then none else some x

/-- Reads digits with an optional point among them, and an optional exponent. -/
def readUnsigned? (cs : List Char) : Option Float :=
  let whole := cs.takeWhile isDigit
  let rest := cs.dropWhile isDigit
  let (fraction, rest) := match rest with
    | '.' :: r => (r.takeWhile isDigit, r.dropWhile isDigit)
    | r => ([], r)
  if whole.isEmpty && fraction.isEmpty then none
  else match exponent? rest with
    | none => none
    | some e =>
      let digits := (whole ++ fraction).dropWhile (· == '0')
      scale? (digitsValue digits) digits.length (e - fraction.length)

/-- Reads a decimal number with an optional sign. One that is too large is refused. -/
def read? : List Char → Option Float
  | '-' :: cs => (readUnsigned? cs).map (- ·)
  | '+' :: cs => readUnsigned? cs
  | cs => readUnsigned? cs

end RuleTable.Decimal
