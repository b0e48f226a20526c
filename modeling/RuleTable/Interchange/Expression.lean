import RuleTable.Interchange.Record
import RuleTable.Syntax
import RuleTable.Text.Blank

/-!
Expressions in the interchange form:

    1                                  a state
    live                               a variable
    [1, 2, ...]                        a set, which may end in an ellipsis
    {range: [1, 3]}                    all states between two bounds
    {repeat: [a, 2]}                   also repeat_to, minus and rotate
    {not: a}                           also not_live
    {ref: N}                           the value of another cell
    {map: {ref: N, to: [0, 1, ...]}}   a look-up by another cell
    {refop: {ref: N, op: ">>", arg: 1}}
-/

namespace RuleTable.Interchange

open Text Yaml

def reject (span : Span) (cause : Cause) : Except Failure α := .error (.of span cause)

/-- Refuses a value that does not have the form of its record. -/
def undecodable (span : Span) : Except Failure α :=
  .error ((Failure.bare .undecodable).locate .syntaxInconsistency span)

def isEllipsis : Datum → Bool
  | .text s => trim s == "..."
  | _ => false

/-- A text is a number if it spells one, else a name. -/
def wordExpr (span : Span) (s : String) : Expr :=
  let s := trim s
  if (readInt? s).isSome then .int s span else .name s span

def binaryOp? : String → Option Op
  | "repeat" => some .times
  | "repeat_to" => some .cycle
  | "minus" => some .minus
  | "rotate" => some .shift
  | _ => none

mutual

/-- The expression that a value stands for. All of it stands at one place. -/
def expr (span : Span) : Datum → Except Failure Expr
  | .null => reject span .missingValue
  | .int n =>
    if n < signedBound then .ok (.int (toString n) span)
    else reject span (.unexpectedType (Datum.int n).typeName)
  | .float x => .ok (.int (Decimal.positional x) span)
  | .text s => .ok (wordExpr span s)
  | .list ds =>
    match elements span ds with
    | .ok (es, ellipsis) => .ok (.set es ellipsis span)
    | .error f => .error f
  | .map pairs =>
    match pairs with
    | [(.text key, arg)] => operation span key arg
    | pairs =>
      if pairs.all (·.1.isText) then reject span (.expressionKeys pairs.length)
      else reject span (.unexpectedType (Datum.map pairs).typeName)
  | .bool b => reject span (.unexpectedType (Datum.bool b).typeName)
  | .date m => reject span (.unexpectedType (Datum.date m).typeName)

/-- The elements of a set, and whether it ends in an ellipsis. -/
def elements (span : Span) : List Datum → Except Failure (List Expr × Bool)
  | [] => .ok ([], false)
  | d :: ds =>
    if isEllipsis d then
      if ds.isEmpty then .ok ([], true) else reject span .ellipsisInside
    else
      match expr span d with
      | .error f => .error f
      | .ok e =>
        match elements span ds with
        | .error f => .error f
        | .ok (es, ellipsis) => .ok (e :: es, ellipsis)

/-- The operation that a key stands for. -/
def operation (span : Span) (key : String) (arg : Datum) : Except Failure Expr :=
  match binaryOp? key with
  | some op =>
    match operands span key arg with
    | .ok (left, right) => .ok (.binary op left right span)
    | .error f => .error f
  | none =>
    match key with
    | "range" =>
      match operands span key arg with
      | .ok (lo, hi) => .ok (.range lo hi span)
      | .error f => .error f
    | "not" =>
      match expr span arg with
      | .ok e => .ok (.complement e false span)
      | .error f => .error f
    | "not_live" =>
      match expr span arg with
      | .ok e => .ok (.complement e true span)
      | .error f => .error f
    | "ref" => .ok (.ref ⟨arg.shown, span⟩)
    | "map" =>
      match record? ["ref", "to"] arg with
      | none => undecodable span
      | some pairs =>
        match text? (Pairs.get pairs "ref") with
        | none => undecodable span
        | some target =>
          match field span "to" arg with
          | .ok e => .ok (.map ⟨target, span⟩ e span)
          | .error f => .error f
    | "refop" =>
      match record? ["ref", "op", "arg"] arg with
      | none => undecodable span
      | some pairs =>
        match text? (Pairs.get pairs "ref"), text? (Pairs.get pairs "op") with
        | some target, some op =>
          match field span "arg" arg with
          | .ok e => .ok (.refOp ⟨target, span⟩ (Op.ofSymbol op) e span)
          | .error f => .error f
        | _, _ => undecodable span
    | _ => reject span (.unknownExpression key)

/-- The two operands of a list. -/
def operands (span : Span) (key : String) : Datum → Except Failure (Expr × Expr)
  | .list [a, b] =>
    match expr span a with
    | .error f => .error f
    | .ok left =>
      match expr span b with
      | .error f => .error f
      | .ok right => .ok (left, right)
  | _ => reject span (.needsTwoOperands key)

def field (span : Span) (name : String) : Datum → Except Failure Expr
  | .map pairs =>
    match Pairs.index? pairs name with
    | some i => nth span i pairs
    | none => reject span .missingValue
  | _ => reject span .missingValue

def nth (span : Span) : Nat → List (Datum × Datum) → Except Failure Expr
  | _, [] => reject span .missingValue
  | 0, (_, d) :: _ => expr span d
  | i + 1, _ :: rest => nth span i rest

end

end RuleTable.Interchange
