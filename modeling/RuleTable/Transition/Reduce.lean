import RuleTable.Symmetry.Orbit
import RuleTable.Transition.Row
import RuleTable.Transition.Rule

/-!
Reduction: rows declared under one symmetry, written for a table under a smaller one. Each napkin
stands for its orbit, of which one napkin for each orbit of the smaller symmetry is kept.
-/

namespace RuleTable.Rule

/-- What is kept, and the texts of what it stands for. -/
structure Kept where
  seen : Std.HashSet String := ∅
  rows : Array Row := #[]

/-- Keeps a row unless one that it is equivalent to is there already. -/
def Kept.add (k : Kept) (target : Symmetry) (initial result : Value) (napkin : List Value) :
    CacheM Kept := do
  let canonical ← target.canonicalKey napkin Value.key
  let key := initial.key ++ "|" ++ canonical ++ "|" ++ result.key
  if k.seen.contains key then return k
  return { seen := k.seen.insert key, rows := k.rows.push (initial :: napkin ++ [result]) }

/-- Writes the rows of a rule for a table under `target`, which the rule's symmetry contains. -/
def reduce (rule : Rule) (target : Symmetry) (rows : List Row) : CacheM (List Row) := do
  if rule.symmetry.key == target.key || rule.symmetry.equivalent target then return rows
  let n := rule.neighborhood.size
  let kept ← rows.foldlM
    (fun (k : Kept) row => do
      let some initial := row[0]? | throw .crash
      let some result := row[n + 1]? | throw .crash
      let orbit ← rule.symmetry.expand ((row.drop 1).take n) Value.key
      orbit.foldlM (fun (k : Kept) napkin => k.add target initial result napkin) k)
    {}
  return kept.rows.toList

end RuleTable.Rule
