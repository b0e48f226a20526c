import RuleTable.Failure

/-!
Rule tables as they are written: sections of directives, variables and transitions, before names
are looked up and positions laid out.
-/

namespace RuleTable

/-- An operator on state lists. -/
inductive Op
  /-- so many copies -/
  | times
  /-- as long as another list -/
  | cycle
  /-- without some states -/
  | minus
  /-- shifted to the right -/
  | shift
  /-- an operator without meaning -/
  | other (symbol : String)
  deriving DecidableEq, Repr

def Op.symbol : Op → String
  | .times => "*"
  | .cycle => "**"
  | .minus => "-"
  | .shift => ">>"
  | .other symbol => symbol

def Op.ofSymbol (symbol : String) : Op :=
  if symbol = "*" then .times
  else if symbol = "**" then .cycle
  else if symbol = "-" then .minus
  else if symbol = ">>" then .shift
  else .other symbol

/-- The name of another cell, and where it is written. -/
structure Ref where
  target : String
  span : Span
  deriving DecidableEq, Repr, Inhabited

/-- An expression for a state, a list of states, or the value of another cell. -/
inductive Expr
  /-- a number, as it is written -/
  | int (raw : String) (span : Span)
  | name (ident : String) (span : Span)
  | set (elems : List Expr) (ellipsis : Bool) (span : Span)
  /-- all states between two bounds -/
  | range (lo hi : Expr) (span : Span)
  | binary (op : Op) (left right : Expr) (span : Span)
  /-- all states, or all live states, that the operand lacks -/
  | complement (operand : Expr) (live : Bool) (span : Span)
  /-- the value of another cell -/
  | ref (cell : Ref)
  /-- the state in `to` at the index that another cell's value has in its variable -/
  | map (cell : Ref) (image : Expr) (span : Span)
  /-- another cell's variable, transformed -/
  | refOp (cell : Ref) (op : Op) (arg : Expr) (span : Span)
  /-- an operand that was left out -/
  | missing
  deriving Repr, Inhabited

/-- Where an expression stands. What was left out stands nowhere, and asking for it is a crash. -/
def Expr.span : Expr → Outcome Span
  | .int _ s | .name _ s | .set _ _ s | .range _ _ s | .binary _ _ _ s | .complement _ _ s |
    .ref ⟨_, s⟩ | .map _ _ s | .refOp _ _ _ s => .ok s
  | .missing => .error .crash

/-- A symmetry as it is declared: a name with arguments, or an operator on other symmetries. -/
structure SymmetryExpr where
  op : String := ""
  name : String := ""
  args : List String := []
  parts : List SymmetryExpr := []
  span : Span := .nowhere
  deriving Repr

/-- The value of one position of a napkin, or of a clockwise range of positions. Without a
direction it is the next position. -/
structure Term where
  direction : String := ""
  through : String := ""
  value : Expr
  span : Span := .nowhere
  deriving Repr

/-- A change of neighboring cells that goes with a transition. -/
structure AuxiliaryExpr where
  targets : List String
  group : Option SymmetryExpr
  value : Expr
  span : Span
  deriving Repr

/-- A transition: the cell's state, its neighbors, the next state and changes nearby. -/
structure Transition where
  initial : Expr
  napkin : List Term
  result : Expr
  auxiliaries : List AuxiliaryExpr
  span : Span
  deriving Repr

inductive Statement
  | directive (name value : String) (symmetry : Option SymmetryExpr) (span : Span)
  | var (name : String) (value : Expr) (span : Span)
  | transition (t : Transition)
  deriving Repr

/-- One section of a rule file. A symmetry applies to the transitions after it. -/
structure Table where
  name : String
  statements : List Statement
  deriving Repr

end RuleTable
