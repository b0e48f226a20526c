import RuleTable.Decimal.Read

/-!
Points in time, as plain scalars write them: a date, or a date and a time of day, with or without a
zone.
-/

namespace RuleTable.Yaml

/-- A point in time, by a clock that is `offset` seconds ahead of the universal one. -/
structure Moment where
  year : Nat
  month : Nat
  day : Nat
  hour : Nat := 0
  minute : Nat := 0
  second : Nat := 0
  nanosecond : Nat := 0
  offset : Int := 0
  deriving DecidableEq, Repr

def monthDays (year month : Nat) : Nat :=
  if month = 2 then if year % 4 = 0 ∧ (year % 100 ≠ 0 ∨ year % 400 = 0) then 29 else 28
  else if month = 4 ∨ month = 6 ∨ month = 9 ∨ month = 11 then 30
  else 31

/-- One or two digits, and what follows them. -/
def shortNumber? : List Char → Option (Nat × List Char)
  | a :: b :: cs =>
    if !Decimal.isDigit a then none
    else if Decimal.isDigit b then some (Decimal.digitsValue [a, b], cs)
    else some (Decimal.digitsValue [a], b :: cs)
  | [a] => if Decimal.isDigit a then some (Decimal.digitsValue [a], []) else none
  | [] => none

namespace Moment

/-- A date: a year of four digits, a month and a day. -/
def date? (cs : List Char) : Option (Moment × List Char) := do
  let year := cs.take 4
  if year.length < 4 || !year.all Decimal.isDigit then failure
  let '-' :: cs := cs.drop 4 | failure
  let (month, cs) ← shortNumber? cs
  let '-' :: cs := cs | failure
  let (day, cs) ← shortNumber? cs
  let year := Decimal.digitsValue year
  if month < 1 || 12 < month || day < 1 || monthDays year month < day then failure
  return ({ year := year, month := month, day := day }, cs)

/-- The fraction of a second after a point or a comma, in nanoseconds. Digits beyond those do not
count. -/
def fraction (cs : List Char) : Nat × List Char :=
  match cs with
  | mark :: d :: rest =>
    if (mark == '.' || mark == ',') && Decimal.isDigit d then
      let digits := ((d :: rest).takeWhile Decimal.isDigit).take 9
      (Decimal.digitsValue digits * Nat.pow 10 (9 - digits.length), rest.dropWhile Decimal.isDigit)
    else (0, cs)
  | _ => (0, cs)

/-- A time of day. -/
def clock? (m : Moment) (cs : List Char) : Option (Moment × List Char) := do
  let (hour, cs) ← shortNumber? cs
  let ':' :: cs := cs | failure
  let (minute, cs) ← shortNumber? cs
  let ':' :: cs := cs | failure
  let (second, cs) ← shortNumber? cs
  if 24 ≤ hour || 60 ≤ minute || 60 ≤ second then failure
  let (nanosecond, cs) := fraction cs
  return ({ m with hour := hour, minute := minute, second := second, nanosecond := nanosecond }, cs)

/-- A zone: a letter for the universal clock, or hours and minutes ahead of it or behind. -/
def zone? : List Char → Option Int
  | ['Z'] => some 0
  | [sign, a, b, ':', c, d] =>
    if !([a, b, c, d].all Decimal.isDigit) then none
    else
      let hours := Decimal.digitsValue [a, b]
      let minutes := Decimal.digitsValue [c, d]
      let seconds : Int := (hours * 60 + minutes) * 60
      if 24 < hours || 60 < minutes then none
      else if sign == '+' then some seconds
      else if sign == '-' then some (-seconds)
      else none
  | _ => none

/-- Reads a date, a date with a time of day and a zone after a `T`, or a date with a time of day
after blanks. -/
def read? (cs : List Char) : Option Moment := do
  let (m, rest) ← date? cs
  match rest with
  | [] => return m
  | c :: rest =>
    if c == 'T' || c == 't' then
      let (m, rest) ← m.clock? rest
      return { m with offset := ← zone? rest }
    else if c == ' ' then
      let (m, []) ← m.clock? (rest.dropWhile (· == ' ')) | failure
      return m
    else failure

def padded (width n : Nat) : String :=
  let digits := Nat.toDigits 10 n
  String.ofList (List.replicate (width - digits.length) '0' ++ digits)

/-- The nanoseconds as a fraction without zeros at its end. -/
def fractionText (n : Nat) : String :=
  if n = 0 then ""
  else
    let digits := (padded 9 n).toList
    String.ofList ('.' :: (digits.reverse.dropWhile (· == '0')).reverse)

def offsetText (offset : Int) : String :=
  let minutes := offset.natAbs / 60
  (if offset < 0 then "-" else "+") ++ padded 2 (minutes / 60) ++ padded 2 (minutes % 60)

/-- The date, the time of day and the zone, which is named if it is the universal one. -/
def text (m : Moment) : String :=
  let date := s!"{padded 4 m.year}-{padded 2 m.month}-{padded 2 m.day}"
  let time := s!"{padded 2 m.hour}:{padded 2 m.minute}:{padded 2 m.second}"
  let zone := offsetText m.offset
  let name := if m.offset = 0 then "UTC" else zone
  s!"{date} {time}{fractionText m.nanosecond} {zone} {name}"

end Moment

end RuleTable.Yaml
