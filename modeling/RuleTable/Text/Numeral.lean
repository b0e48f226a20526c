import RuleTable.Word

/-!
Numerals: reading whole numbers that fit in 64 bits. A numeral is plain decimal, or a literal whose
leading digits choose the base (`0x`, `0o`, `0b`, a bare `0` for octal) and whose digits may be
separated by single underscores.
-/

namespace RuleTable.Text

inductive NumeralFault
  | malformed
  | outOfRange
  deriving DecidableEq, Repr

def NumeralFault.message : NumeralFault → String
  | .malformed => "invalid syntax"
  | .outOfRange => "value out of range"

/-- How the digits of a numeral are to be read. -/
inductive Radix
  /-- decimal digits only -/
  | decimal
  /-- the base follows from the leading digits, and underscores separate digits -/
  | literal
  deriving DecidableEq, Repr

def digitValue? (c : Char) : Option Nat :=
  if '0' ≤ c ∧ c ≤ '9' then some (c.toNat - 48)
  else if 'a' ≤ c ∧ c ≤ 'z' then some (c.toNat - 87)
  else if 'A' ≤ c ∧ c ≤ 'Z' then some (c.toNat - 55)
  else none

/-- Reads the remaining digits on top of the value so far. A number that no longer fits in 64 bits
is refused at the digit that makes it too large, whatever follows. -/
def readDigits (base : Nat) (underscores : Bool) : Nat → List Char → Except NumeralFault Nat
  | n, [] => .ok n
  | n, c :: cs =>
    if c == '_' && underscores then readDigits base underscores n cs
    else match digitValue? c with
      | none => .error .malformed
      | some d =>
        if base ≤ d then .error .malformed
        else if unsignedBound ≤ n * base + d then .error .outOfRange
        else readDigits base underscores (n * base + d) cs

/-- The base that a literal announces, and its digits. -/
def splitBase : List Char → Nat × List Char
  | '0' :: c :: d :: cs =>
    if c == 'b' || c == 'B' then (2, d :: cs)
    else if c == 'o' || c == 'O' then (8, d :: cs)
    else if c == 'x' || c == 'X' then (16, d :: cs)
    else (8, c :: d :: cs)
  | '0' :: cs => (8, cs)
  | cs => (10, cs)

/-- Walks over the digits of a literal: `afterDigit` says that the last character was a digit (or
the base), `afterMark` that it was an underscore. -/
def underscoresSeparate (hex : Bool) : Bool → Bool → List Char → Bool
  | _, afterMark, [] => !afterMark
  | afterDigit, afterMark, c :: cs =>
    if ('0' ≤ c && c ≤ '9') || (hex && (('a' ≤ c && c ≤ 'f') || ('A' ≤ c && c ≤ 'F'))) then
      underscoresSeparate hex true false cs
    else if c == '_' then
      if afterDigit then underscoresSeparate hex false true cs else false
    else if afterMark then false
    else underscoresSeparate hex false false cs

/-- Every underscore of the literal stands between two digits, or between its base and a digit. -/
def underscoresOk : List Char → Bool
  | '0' :: c :: cs =>
    if c == 'b' || c == 'B' || c == 'o' || c == 'O' then underscoresSeparate false true false cs
    else if c == 'x' || c == 'X' then underscoresSeparate true true false cs
    else underscoresSeparate false false false ('0' :: c :: cs)
  | cs => underscoresSeparate false false false cs

/-- Reads a number without a sign, below 2^64. -/
def readUnsigned (r : Radix) (cs : List Char) : Except NumeralFault Nat :=
  if cs.isEmpty then .error .malformed
  else match r with
    | .decimal => readDigits 10 false 0 cs
    | .literal =>
      let (base, digits) := splitBase cs
      match readDigits base true 0 digits with
      | .error f => .error f
      | .ok n => if digits.contains '_' && !underscoresOk cs then .error .malformed else .ok n

/-- Puts a sign on a number, which must then lie in -2^63 … 2^63 - 1. -/
def signed (negative : Bool) : Except NumeralFault Nat → Except NumeralFault Int
  | .error f => .error f
  | .ok n =>
    if negative then if n ≤ signedBound then .ok (-(n : Int)) else .error .outOfRange
    else if n < signedBound then .ok n else .error .outOfRange

/-- Reads a number with an optional sign, from -2^63 to 2^63 - 1. -/
def readSigned (r : Radix) : List Char → Except NumeralFault Int
  | '+' :: cs => signed false (readUnsigned r cs)
  | '-' :: cs => signed true (readUnsigned r cs)
  | cs => signed false (readUnsigned r cs)

def readInt? (s : String) : Option Int := (readSigned .decimal s.toList).toOption

end RuleTable.Text
