/-!
How far two texts are apart: the number of bytes to add, drop or change to get from one to the
other.
-/

namespace RuleTable.Text

/-- The distances from a text to the beginnings of another, after one more byte `b`: `left` is the
distance just found, and the list holds those before `b`. -/
def distancesFrom (b : UInt8) (left : Nat) : List UInt8 → List Nat → List Nat
  | x :: xs, diagonal :: above :: rest =>
    let d := if b == x then diagonal else min (min above left) diagonal + 1
    d :: distancesFrom b d xs (above :: rest)
  | _, _ => []

def distance (s t : String) : Nat :=
  let target := t.toUTF8.data.toList
  let first := List.range (target.length + 1)
  let row := s.toUTF8.data.toList.foldl
    (fun row b => (row.headD 0 + 1) :: distancesFrom b (row.headD 0 + 1) target row) first
  row.getLastD 0

end RuleTable.Text
