import RuleTable.States.List
import RuleTable.States.Names

/-!
Scopes: the variables of a section, the built-in ones first, and the variables without a name,
which are one per list of states.

One array holds them all. It is the order of declaration, the map from names to declared variables
and the map from lists to variables without a name at once: what is looked up is the first match,
and no name and no such list is ever there twice.
-/

namespace RuleTable

structure Variable where
  name : String
  states : StateList
  anonymous : Bool := false
  span : Span := .nowhere
  deriving DecidableEq, Repr, Inhabited

/-- The variables of a section in order of declaration. -/
structure Scope where
  stateCount : Nat
  vars : Array Variable
  names : NameSource

/-- A computation on a scope. What it has declared stays, also when it stops. -/
abbrev ScopeM := ExceptT Stop (StateM Scope)

namespace Scope

def declare (s : Scope) (v : Variable) : Scope :=
  { s with vars := s.vars.push v, names := s.names.reserve v.name }

/-- The scope for states `0` to `n - 1`, with `any` for all of them and `live` for all but 0. -/
def create (n : Int) (names : NameSource) : Outcome Scope :=
  if n < 0 || greatestLength < n.toNat then .error .crash
  else
    let all : StateList := (List.range n.toNat).map Int.ofNat
    let bare : Scope := { stateCount := n.toNat, vars := #[], names := names }
    .ok ((bare.declare { name := "any", states := all }).declare
      { name := "live", states := all.drop 1 })

/-- The declared or built-in variable of a name. -/
def lookup (s : Scope) (name : String) : Option Variable :=
  s.vars.find? fun v => !v.anonymous && v.name == name

def anyStates (s : Scope) : StateList := ((s.lookup "any").map (·.states)).getD []

def liveStates (s : Scope) : StateList := ((s.lookup "live").map (·.states)).getD []

def define (name : String) (states : StateList) (span : Span) : ScopeM Variable := do
  let s ← get
  if (s.lookup name).isSome then refuse span (.alreadyDeclared name)
  if s.names.taken name then refuse span (.generatedName name)
  if states.isEmpty then refuse span (.emptyVariable name)
  let v : Variable := { name := name, states := states, span := span }
  set (s.declare v)
  return v

/-- Adds a variable without a name of its own for these states; `name?` finds one for it. -/
def addAnonymous (name? : NameSource → Option (String × NameSource)) (states : StateList) :
    ScopeM Variable := do
  let s ← get
  match name? s.names with
  | none => throw .crash
  | some (name, names) =>
    let v : Variable := { name := name, states := states, anonymous := true }
    set { s with vars := s.vars.push v, names := names }
    return v

/-- The variable without a name that holds these states, made on first use. -/
def anonymous (states : StateList) : ScopeM Variable := do
  match (← get).vars.find? fun v => v.anonymous && v.states == states with
  | some v => return v
  | none => addAnonymous NameSource.fresh? states

end Scope

end RuleTable
