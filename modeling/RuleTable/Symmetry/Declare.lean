import RuleTable.Symmetry.Classes
import RuleTable.Syntax
import RuleTable.Text.Numeral

/-!
Symmetry declarations: class names, the primitives `none`, `rotate`, `reflect` and `permute` with
arguments, and the operators `compose` and `combine`.
-/

namespace RuleTable.Registry

open Text

def directionLabels (args : List String) : Except Failure (List String) :=
  args.mapM fun a =>
    match Direction.parse a with
    | .ok d => .ok d.label
    | .error f => .error (f.locate .syntaxInconsistency .nowhere)

/-- A class or a primitive. A class name without arguments goes before a primitive of that name. -/
def declareNamed (nb : Neighborhood) (e : SymmetryExpr) : RegistryM Symmetry := do
  let name := lower (trim e.name)
  if (nb.recipe? name).isSome && e.args.isEmpty then named nb name
  else if name = "none" then none nb
  else if name = "rotate" then
    match e.args with
    | [arg] =>
      match readInt? (trim arg) with
      | some ways => rotate nb ways
      | Option.none => refuse e.span (.rotationNotInteger arg)
    | _ => refuse e.span .rotateArguments
  else if name = "reflect" then
    if e.args.length < 1 || e.args.length > 2 then refuse e.span .reflectArguments
    else
      match ← directionLabels e.args with
      | [a] => reflect nb a a
      | a :: b :: _ => reflect nb a b
      | [] => refuse e.span .reflectArguments
  else if name = "permute" then
    match e.args with
    | [arg] =>
      if matchesWord (trim arg) "all" then permute nb []
      else permute nb (← directionLabels e.args)
    | _ => permute nb (← directionLabels e.args)
  else named nb name

mutual

/-- The symmetry type that an expression declares; failures without a place take that of the
expression. -/
def declare (nb : Neighborhood) : SymmetryExpr → RegistryM Symmetry
  | ⟨op, name, args, parts, span⟩ =>
    locating .geometry span do
      let word := lower op
      if word = "compose" then compose (← declareAll nb parts)
      else if word = "combine" then combine (← declareAll nb parts)
      else if word = "" then declareNamed nb ⟨op, name, args, parts, span⟩
      else refuse span (.unknownSymmetryOperator op)

def declareAll (nb : Neighborhood) : List SymmetryExpr → RegistryM (List Symmetry)
  | [] => return []
  | e :: es => do
    let t ← declare nb e
    return t :: (← declareAll nb es)

end

end RuleTable.Registry
