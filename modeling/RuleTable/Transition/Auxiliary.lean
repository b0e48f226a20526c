import RuleTable.Transition.Row
import RuleTable.Transition.Rule

/-!
Auxiliary rows: what a row of a rule does to the cells around it, each written as a transition of
the cell that changes. What the acting cell cannot see is any state.
-/

namespace RuleTable.Rule

/-- The slot of a direction as the acting cell sees it. -/
def slotOf (nb : Neighborhood) (d : Direction) : Option Nat :=
  if d = .c then some 0 else nb.ordinal? d

/-- The cells of a layout under construction, and for every origin the slot that took over its
variable. -/
structure Frame where
  cells : List Cell
  owners : List (Int × Nat)

/-- Appends a value of the acting cell's row. Occurrences of a variable that belong together stay
so: the first is free, the others are bound to it. -/
def Frame.place (f : Frame) (span : Span) (v : Value) : Frame :=
  match v with
  | .state s drawn _ => { f with cells := f.cells ++ [.literal s drawn] }
  | .free w origin =>
    match f.owners.lookup origin with
    | some first => { f with cells := f.cells ++ [.binding first span] }
    | none =>
      { cells := f.cells ++ [.free w], owners := f.owners ++ [(origin, f.cells.length)] }

/-- The value of an auxiliary, referring to the slots of the cell at `target`. -/
def revalue (nb : Neighborhood) (aux : Auxiliary) (target : Direction) : Outcome Cell := do
  match aux.value.ref? with
  | none => return aux.value
  | some ref =>
    let source ←
      if ref ≤ 0 then pure .c
      else match nb.directions[ref.toNat - 1]? with
        | some d => pure d
        | none => throw Stop.crash
    match (Direction.reproject target source).bind (slotOf nb) with
    | some slot => return aux.value.withRef slot
    | none => refuse aux.span (.notVisible source.label target.label)

/-- The surroundings of the cell at `target`, as far as a row of the rule knows them. -/
def reframe (rule : Rule) (row : Row) (aux : Auxiliary) (target : Direction) :
    ScopeM (List Cell) := do
  let nb := rule.neighborhood
  let some any := (← get).lookup "any" | throw .crash
  let seenAt (d : Direction) : Option Value :=
    (Direction.translate target d).bind fun seen => (slotOf nb seen).bind fun slot => row[slot]?
  let some self := row[(slotOf nb target).getD 0]? | throw .crash
  let start := (Frame.mk [] []).place aux.span self
  let frame := nb.directions.foldl
    (fun f d =>
      match seenAt d with
      | some v => f.place aux.span v
      | none => { f with cells := f.cells ++ [.free any] })
    start
  return frame.cells ++ [← revalue nb aux target]

/-- The rows that a row of the rule entails for the cells around it. -/
def auxiliaryRows (rule : Rule) (row : Row) : ScopeM (List Row) := do
  let rows ← rule.auxiliaries.mapM fun aux =>
    aux.targets.mapM fun target => do
      Cell.expand (← rule.reframe row aux target) aux.span
  return rows.flatten.flatten

end RuleTable.Rule
