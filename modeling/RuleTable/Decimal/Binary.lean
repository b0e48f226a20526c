import RuleTable.Word

/-!
Floating-point numbers of 64 bits, taken apart: a sign, and a whole number times a power of two.
-/

namespace RuleTable.Decimal

/-- The finite number `± mantissa · 2 ^ exponent`. -/
structure Binary where
  negative : Bool
  mantissa : Nat
  exponent : Int
  deriving DecidableEq, Repr

inductive Parts
  | finite (b : Binary)
  | infinite (negative : Bool)
  | notANumber
  deriving DecidableEq, Repr

/-- The bit in front of the 52 bits of a mantissa, which is not written: 2 to the power 52. -/
def leadingBit : Nat := 4503599627370496

/-- The parts of a number with these 64 bits: sign, eleven bits of exponent, 52 of mantissa. -/
def Parts.ofBits (bits : UInt64) : Parts :=
  let n := bits.toNat
  let negative := n / signedBound == 1
  let exponent : Nat := n / leadingBit % 2048
  let fraction := n % leadingBit
  if exponent == 2047 then if fraction == 0 then .infinite negative else .notANumber
  else if exponent == 0 then .finite ⟨negative, fraction, -1074⟩
  else .finite ⟨negative, leadingBit + fraction, (exponent : Int) - 1075⟩

def Parts.of (x : Float) : Parts := .ofBits x.toBits

namespace Binary

/-- The whole number next to it on the side of zero. -/
def truncate (b : Binary) : Int :=
  let size : Nat :=
    match b.exponent with
    | .ofNat e => b.mantissa * Nat.pow 2 e
    | .negSucc e => b.mantissa / Nat.pow 2 (e + 1)
  if b.negative then -(size : Int) else size

end Binary

/-- The number without its fraction as a signed word. What does not fit becomes the least word. -/
def toWord (x : Float) : Int :=
  match Parts.of x with
  | .finite b =>
    let n := b.truncate
    if -signedBound ≤ n ∧ n < signedBound then n else -signedBound
  | _ => -signedBound

end RuleTable.Decimal
