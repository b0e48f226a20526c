import RuleTable.Syntax

/-!
Tables put together step by step. Every statement stands on a line of its own, in the order in
which they are added.
-/

namespace RuleTable

/-- A table under construction. -/
structure Builder where
  name : String
  /-- the statements so far, the latest first -/
  latestFirst : List Statement := []

namespace Builder

/-- Where the next statement stands. -/
def here (b : Builder) : Span := ⟨b.latestFirst.length + 1, 1, 1⟩

def add (b : Builder) (s : Statement) : Builder := { b with latestFirst := s :: b.latestFirst }

def directive (b : Builder) (name value : String) : Builder :=
  b.add (.directive name value none b.here)

def states (b : Builder) (n : Int) : Builder := b.directive "n_states" (toString n)

def neighborhood (b : Builder) (name : String) : Builder := b.directive "neighborhood" name

def symmetries (b : Builder) (name : String) : Builder := b.directive "symmetries" name

def symmetry (b : Builder) (e : SymmetryExpr) : Builder :=
  b.add (.directive "symmetries" "" (some { e with span := b.here }) b.here)

def var (b : Builder) (name : String) (value : Expr) : Builder := b.add (.var name value b.here)

/-- Starts a transition from a state. Its result is still missing. -/
def transition (b : Builder) (initial : Expr) : Builder :=
  b.add (.transition {
    initial := initial
    napkin := []
    result := .missing
    auxiliaries := []
    span := b.here })

/-- The latest transition among statements, the latest first. -/
def latestIn? : List Statement → Option Transition
  | [] => none
  | .transition t :: _ => some t
  | _ :: rest => latestIn? rest

def latest? (b : Builder) : Option Transition := latestIn? b.latestFirst

/-- Changes the latest transition among statements, the latest first. -/
def amendIn (f : Transition → Transition) : List Statement → List Statement
  | [] => []
  | .transition t :: rest => .transition (f t) :: rest
  | s :: rest => s :: amendIn f rest

def amend (b : Builder) (f : Transition → Transition) : Builder :=
  { b with latestFirst := amendIn f b.latestFirst }

def napkin (b : Builder) (values : List Expr) : Builder :=
  b.amend fun t =>
    { t with napkin := t.napkin ++ values.map fun v => { value := v, span := t.span } }

def position (b : Builder) (direction : String) (value : Expr) : Builder :=
  b.amend fun t =>
    { t with napkin := t.napkin ++ [{ direction := direction, value := value, span := t.span }] }

def range (b : Builder) (first last : String) (value : Expr) : Builder :=
  b.amend fun t =>
    { t with napkin := t.napkin ++
        [{ direction := first, through := last, value := value, span := t.span }] }

def becomes (b : Builder) (result : Expr) : Builder := b.amend fun t => { t with result := result }

def auxiliary (b : Builder) (value : Expr) (targets : List String) : Builder :=
  b.amend fun t =>
    { t with auxiliaries := t.auxiliaries ++
        [{ targets := targets, group := none, value := value, span := t.span }] }

/-- Adds an auxiliary whose target is moved around by a symmetry. -/
def auxiliaryGroup (b : Builder) (value : Expr) (symmetry target : String) : Builder :=
  b.amend fun t =>
    { t with auxiliaries := t.auxiliaries ++
        [{ targets := [target]
           group := some { name := symmetry, span := t.span }
           value := value
           span := t.span }] }

def build (b : Builder) : Table := ⟨b.name, b.latestFirst.reverse⟩

end Builder

end RuleTable
