import RuleTable.States.Scope
import RuleTable.Syntax
import RuleTable.Text.Numeral

/-!
Evaluation of expressions to lists of states. References to other cells are not state lists; they
are refused.
-/

namespace RuleTable.Scope

open Text

/-- The state that a numeral stands for, which must be one of the scope's. -/
def state (s : Scope) (raw : String) (span : Span) : Outcome Int :=
  match readInt? raw with
  | none => refuse span (.notAState raw)
  | some n =>
    if n < 0 || (s.stateCount : Int) ≤ n then refuse span (.stateOutside raw (s.stateCount - 1))
    else return n

/-- A number of copies or of places. -/
def count : Expr → Outcome Int
  | .int raw span =>
    match readInt? raw with
    | some n => return n
    | none => refuse span (.notAnInteger raw)
  | e => do refuse (← e.span) .operandNotInteger

def bound (s : Scope) : Expr → Outcome Int
  | .int raw span => s.state raw span
  | e => do refuse (← e.span) .boundsNotInteger

def interval (lo hi : Int) : StateList :=
  (List.range (hi - lo + 1).toNat).map fun (i : Nat) => lo + i

/-- Refuses the ellipsis of an expression that is not a mapping target. -/
def withoutEllipsis (e : Expr) : StateList × Bool → Outcome StateList
  | (_, true) => do refuse (← e.span) .strayEllipsis
  | (states, false) => return states

mutual

/-- Evaluates a mapping target, which may end in an ellipsis. -/
def evalTarget (s : Scope) : Expr → Outcome (StateList × Bool)
  | .int raw span => do return ([← s.state raw span], false)
  | .name ident span =>
    match s.lookup ident with
    | some v => return (v.states, false)
    | none => refuse span (.undefinedVariable ident)
  | .set elems ellipsis span => do
    let states ← evalAll s elems
    if states.isEmpty then refuse span .emptySet
    return (states, ellipsis)
  | .range lo hi span => do
    let lo ← s.bound lo
    let hi ← s.bound hi
    if lo > hi then refuse span (.reversedRange lo hi)
    return (interval lo hi, false)
  | .binary op left right span => do
    let states ← withoutEllipsis left (← evalTarget s left)
    match op with
    | .times =>
      let n ← count right
      match ← states.times n with
      | some copies => return (copies, false)
      | none => refuse (← right.span) (.repeatCount n)
    | .cycle =>
      let model ← withoutEllipsis right (← evalTarget s right)
      return (← states.cycle model.length, false)
    | .minus =>
      let removed ← withoutEllipsis right (← evalTarget s right)
      let rest := states.minus removed
      if rest.isEmpty then refuse span .nothingLeft
      return (rest, false)
    | .shift =>
      let n ← count right
      return (states.shift (Int64.ofInt n), false)
    | .other symbol => refuse span (.unknownOperator symbol)
  | .complement operand live span => do
    let states ← withoutEllipsis operand (← evalTarget s operand)
    let rest := states.complement (if live then s.liveStates else s.anyStates)
    if rest.isEmpty then refuse span .emptyComplement
    return (rest, false)
  | .ref ⟨_, span⟩ | .map _ _ span | .refOp _ _ _ span => refuse span .referenceAsStates
  | .missing => .error .crash

def evalAll (s : Scope) : List Expr → Outcome StateList
  | [] => return []
  | e :: es => do
    let states ← withoutEllipsis e (← evalTarget s e)
    return states ++ (← evalAll s es)

end

def eval (s : Scope) (e : Expr) : Outcome StateList := do
  withoutEllipsis e (← s.evalTarget e)

/-- Declares the states of an expression under a name. -/
def declaring (name : String) (value : Expr) (span : Span) : ScopeM Variable := do
  let states ← (← get).eval value
  define name states span

end RuleTable.Scope
