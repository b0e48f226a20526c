import RuleTable.Transition.Cell

/-!
Resolving a slot: its value, given the values of the slots it refers to. A mapping of a variable has
no value until the variable is split into its states.
-/

namespace RuleTable

inductive Resolution
  | value (v : Value)
  /-- the variable at this slot must be split into its states first -/
  | split (slot : Int)
  deriving DecidableEq, Repr

namespace Cell

/-- The states a value was drawn from, and its index there. A state of no variable is the only one
of its kind. -/
def sourceOf (s : Int) : Option Draw → StateList × Int
  | some d => (d.source.states, d.index)
  | none => ([s], 0)

/-- The state of `to` at the index of a value in its source. -/
def lookUp (images : StateList) (ellipsis : Bool) (s : Int) (drawn : Option Draw) (slot : Int)
    (span : Span) : Outcome Resolution := do
  let (states, index) := sourceOf s drawn
  if images.isEmpty then refuse span .emptyTarget
  if images.length < states.length && !ellipsis then
    refuse span (.shortTarget images states.length)
  let index := if (images.length : Int) ≤ index then (images.length : Int) - 1 else index
  let target : Variable := { name := "", states := images, anonymous := true }
  return .value (← target.draw index slot)

/-- The states that a value ranges over or was drawn from. -/
def sourceStates : Value → StateList
  | .free v _ => v.states
  | .state s drawn _ => (sourceOf s drawn).1

/-- The states of a value's variable without `operand`, as a variable of its own. -/
def remove (operand : StateList) (v : Value) (slot : Int) (span : Span) : ScopeM Resolution := do
  let rest := (sourceStates v).minus operand
  if rest.isEmpty then refuse span (.noStateLeft (sourceStates v) operand)
  match rest.unique? with
  | some s => return .value (.state s none slot)
  | none => return .value (.free (← Scope.anonymous rest) slot)

/-- Resolves the cell of a slot; `values` are those of the other slots. -/
def resolve (values : Int → Option Value) (slot : Int) : Cell → ScopeM Resolution
  | .literal s drawn => return .value (.state s drawn slot)
  | .free v =>
    match v.states.unique? with
    | some s => return .value (.state s (some ⟨v, 0⟩) slot)
    | none => return .value (.free v slot)
  | .binding ref _ =>
    match values ref with
    | none => throw .crash
    | some (.free v origin) => return .value (.free v origin)
    | some (.state s drawn _) => return .value (.state s drawn slot)
  | .mapping ref images ellipsis span =>
    match values ref with
    | none => throw .crash
    | some (.free _ _) => return .split ref
    | some (.state s drawn _) => lookUp images ellipsis s drawn slot span
  | .operation ref op count operand span =>
    match values ref with
    | none => throw .crash
    | some v =>
      match op with
      | .minus => remove operand v slot span
      | .shift =>
        match v with
        | .free _ _ => return .split ref
        | .state s drawn _ =>
          lookUp ((sourceOf s drawn).1.shift count) false s drawn slot span
      | op => refuse span (.untransformable op.symbol)
  | .absent => refuse .nowhere .absentCell

end Cell

end RuleTable
