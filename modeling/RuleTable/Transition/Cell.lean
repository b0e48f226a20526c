import RuleTable.States.Scope
import RuleTable.Syntax

/-!
The slots of a transition before and after they are resolved. Slot 0 is the cell itself, the slots
after it are its neighbors, and the last slot is the next state.
-/

namespace RuleTable

/-- The place in a variable that a state was taken from. -/
structure Draw where
  source : Variable
  index : Int
  deriving DecidableEq, Repr

/-- The content of a slot. -/
inductive Cell
  /-- a state, and where it was drawn if a variable was split into its states -/
  | literal (state : Int) (drawn : Option Draw)
  /-- any state of a variable -/
  | free (v : Variable)
  /-- the value of slot `ref` -/
  | binding (ref : Int) (span : Span)
  /-- the state in `to` at the index that the value of slot `ref` has in its variable; with an
  ellipsis the last state of `to` serves all further indices -/
  | mapping (ref : Int) (images : StateList) (ellipsis : Bool) (span : Span)
  /-- the variable of slot `ref` shifted by `count`, or any of its states without `operand` -/
  | operation (ref : Int) (op : Op) (count : Int64) (operand : StateList) (span : Span)
  /-- nothing -/
  | absent
  deriving DecidableEq, Repr

namespace Cell

def ref? : Cell → Option Int
  | .binding ref _ | .mapping ref _ _ _ | .operation ref _ _ _ _ => some ref
  | .literal _ _ | .free _ | .absent => none

/-- The same cell, referring to another slot if it refers to one at all. -/
def withRef (c : Cell) (slot : Int) : Cell :=
  match c with
  | .binding _ span => .binding slot span
  | .mapping _ images ellipsis span => .mapping slot images ellipsis span
  | .operation _ op count operand span => .operation slot op count operand span
  | c => c

def isLiteral : Cell → Bool
  | .literal _ _ => true
  | _ => false

end Cell

/-- A resolved slot. The origin is the slot that a variable's occurrence belongs to: slots with one
origin take the same state. -/
inductive Value
  | free (v : Variable) (origin : Int)
  | state (s : Int) (drawn : Option Draw) (origin : Int)
  deriving DecidableEq, Repr, Inhabited

namespace Value

/-- A text that tells values apart: the state, or the variable with its origin. -/
def key : Value → String
  | .free v origin => s!"${v.name}@{origin}"
  | .state s _ _ => toString s

/-- The value with its origin; a state also with the variable it was drawn from. -/
def text : Value → String
  | .free v origin => s!"${v.name}@{origin}{Text.braced v.states}"
  | .state s none origin => s!"{s}@{origin}"
  | .state s (some d) origin =>
    s!"{s}@{origin}<{d.source.name}{Text.braced d.source.states}#{d.index}"

def isFree : Value → Bool
  | .free _ _ => true
  | .state _ _ _ => false

/-- The slot the value belongs to. -/
def origin : Value → Int
  | .free _ origin | .state _ _ origin => origin

end Value

def Variable.draw (v : Variable) (index origin : Int) : Outcome Value :=
  match index.toNat? >>= fun i => v.states[i]? with
  | some s => return .state s (some ⟨v, index⟩) origin
  | none => .error .crash

end RuleTable
