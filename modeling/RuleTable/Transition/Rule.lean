import RuleTable.States.Eval
import RuleTable.Symmetry.Declare
import RuleTable.Transition.Cell

/-!
Rules: transitions laid out along a neighborhood. Every position of the napkin must be given once,
in order; references become slots and state sets become variables.
-/

namespace RuleTable

open Text

/-- A change of the cells at `targets`, written from where the transition happens. -/
structure Auxiliary where
  targets : List Direction
  value : Cell
  span : Span
  deriving Repr

/-- A transition laid out: a cell for every slot, and the symmetry it was declared under. -/
structure Rule where
  neighborhood : Neighborhood
  cells : List Cell
  symmetry : Symmetry
  auxiliaries : List Auxiliary
  span : Span

structure Workspace where
  registry : Registry := {}
  scope : Scope

/-- A computation on a workspace. What it has stored stays, also when it stops. -/
abbrev WorkspaceM := ExceptT Stop (StateM Workspace)

namespace WorkspaceM

def onRegistry (act : RegistryM α) : WorkspaceM α :=
  ExceptT.mk (modifyGet fun w =>
    let (result, registry) := act.run.run w.registry
    (result, { w with registry := registry }))

def onScope (act : ScopeM α) : WorkspaceM α :=
  ExceptT.mk (modifyGet fun w =>
    let (result, scope) := act.run.run w.scope
    (result, { w with scope := scope }))

end WorkspaceM

namespace Neighborhood

/-- The position that a label names, counted from 0. -/
def position (nb : Neighborhood) (label : String) (span : Span) : Outcome Nat := do
  let d ← locating .syntaxInconsistency span (liftM (Direction.parse label) : Outcome Direction)
  match nb.index? d with
  | some i => return i
  | none => refuse span (.notAPosition d.label nb.name)

/-- The slot that a reference names: `C` or 0 is the cell itself, a compass label or a position,
counted from 1 or backwards from -1, a neighbor. -/
def slot (nb : Neighborhood) (ref : Ref) : Outcome Nat := do
  let label := upper (trim ref.target)
  if label = "C" || label = "0" then return 0
  let label ←
    match readInt? label with
    | some n => (·.label) <$> locating .undefinedReference ref.span (nb.dirAt (Int64.ofInt n))
    | none => pure label
  let d ← locating .undefinedReference ref.span (liftM (Direction.parse label) : Outcome Direction)
  match nb.ordinal? d with
  | some i => return i
  | none => refuse ref.span (.foreignReference d.label nb.name)

end Neighborhood

namespace Rule

/-- A variable in a slot. The next state must be known, so there the variable may hold only one
state. -/
def freeCell (v : Variable) (result : Bool) (e : Expr) : Outcome Cell := do
  if result && v.states.unique?.isNone then refuse (← e.span) (.freeResultant v.name)
  return .free v

/-- The cell that an expression describes. -/
def cell (nb : Neighborhood) (result : Bool) (e : Expr) : ScopeM Cell := do
  let s ← get
  match e with
  | .int raw span => return .literal (← s.state raw span) none
  | .ref ref => return .binding (← nb.slot ref) ref.span
  | .map ref image span =>
    let slot ← nb.slot ref
    let (states, ellipsis) ← s.evalTarget image
    return .mapping slot states ellipsis span
  | .refOp ref op arg span =>
    let slot ← nb.slot ref
    match op with
    | .shift => return .operation slot op (Int64.ofInt (← Scope.count arg)) [] span
    | .minus => return .operation slot op 0 (← s.eval arg) span
    | .times => refuse span (.bindInstead op.symbol ref.target)
    | op => refuse span (.untransformable op.symbol)
  | .name ident span =>
    match s.lookup ident with
    | some v => freeCell v result e
    | none => refuse span (.undefinedVariable ident)
  | e =>
    let states ← s.eval e
    match states.unique? with
    | some state => return .literal state none
    | none => freeCell (← Scope.anonymous states) result e

/-- The last position that a term fills, the first being `next`. -/
def lastPosition (nb : Neighborhood) (term : Term) (next : Nat) : Outcome Nat := do
  if term.direction = "" then return next
  let first ← nb.position term.direction term.span
  if first < next then refuse term.span (.directionGiven term.direction)
  if next < first then
    let expected := (nb.directions.getD next .c).label
    refuse term.span (.outOfSequence term.direction expected)
  if term.through = "" then return first
  let last ← nb.position term.through term.span
  if last < first then refuse term.span (.backwardRange term.direction term.through)
  return last

/-- The cells of a napkin, after those already given. Terms without a direction take the next
position; a direction must name it. -/
def napkin (nb : Neighborhood) (span : Span) : List Term → List Cell → ScopeM (List Cell)
  | [], given => do
    if given.length ≠ nb.size then refuse span (.napkinGap given.length nb.size nb.name)
    return given
  | term :: terms, given => do
    let next := given.length
    let last ← lastPosition nb term next
    if nb.size ≤ next then refuse term.span (.tooManyTerms nb.name nb.size)
    let c ← cell nb false term.value
    napkin nb span terms (given ++ List.replicate (last + 1 - next) c)

/-- Where relabelings take a position, or the position alone. -/
def targetPositions (group : Option Symmetry) (position : Nat) : List Nat :=
  match group with
  | none => [position]
  | some t => t.relabelings.map fun p => p.inverse.getD position 0

/-- The directions that labels name, each spread over a group, without repeats. -/
def targets (nb : Neighborhood) (group : Option Symmetry) (span : Span) :
    List String → List Direction → Outcome (List Direction)
  | [], found => return found
  | label :: labels, found => do
    let position ← nb.position label span
    let dirs := (targetPositions group position).map fun i => nb.directions.getD i .c
    targets nb group span labels
      (dirs.foldl (fun out d => if out.contains d then out else out ++ [d]) found)

/-- Lays out an auxiliary. Only under rotations and reflections is it clear where it belongs. -/
def auxiliary (nb : Neighborhood) (symmetry : Symmetry) (a : AuxiliaryExpr) :
    WorkspaceM Auxiliary := do
  unless ← WorkspaceM.onRegistry (Registry.geometric symmetry) do
    refuse a.span (.needsGeometric symmetry.name)
  let value ← WorkspaceM.onScope (cell nb true a.value)
  let group ← a.group.mapM fun g => WorkspaceM.onRegistry (Registry.declare nb g)
  let dirs ← targets nb group a.span a.targets []
  return { targets := dirs, value := value, span := a.span }

/-- Lays out a transition under a symmetry. -/
def layOut (nb : Neighborhood) (symmetry : Symmetry) (t : Transition) : WorkspaceM Rule := do
  let initial ← WorkspaceM.onScope (cell nb false t.initial)
  let neighbors ← WorkspaceM.onScope (napkin nb t.span t.napkin [])
  let result ← WorkspaceM.onScope (cell nb true t.result)
  let auxiliaries ← t.auxiliaries.mapM (auxiliary nb symmetry)
  return {
    neighborhood := nb
    cells := initial :: neighbors ++ [result]
    symmetry := symmetry
    auxiliaries := auxiliaries
    span := t.span }

/-- Lays out a transition under a symmetry, or under none. -/
def build (nb : Option Neighborhood) (symmetry : Option Symmetry) (t : Transition) :
    WorkspaceM Rule :=
  match nb, symmetry with
  | none, _ =>
    throw (.refused ((Failure.bare .needsNeighborhood).locate .syntaxInconsistency t.span))
  | some nb, some symmetry => layOut nb symmetry t
  | some nb, none => do layOut nb (← WorkspaceM.onRegistry (Registry.none nb)) t

end Rule

end RuleTable
