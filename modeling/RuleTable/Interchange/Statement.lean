import RuleTable.Interchange.Expression

/-!
Statements in the interchange form: a directive, a variable or a transition, with the place it
stands at unless it gives one itself.
-/

namespace RuleTable.Interchange

open Text Yaml

/-- Reads a symmetry. All of it stands at one place. -/
def symmetryOf? (span : Span) (d : Datum) : Option SymmetryExpr :=
  match _h : record? ["op", "name", "args", "of"] d with
  | none => none
  | some pairs => do
    let op ← text? (pairs.get "op")
    let name ← text? (pairs.get "name")
    let args ← list? text? (pairs.get "args")
    let parts ← (items (pairs.get "of")).attach.mapM fun ⟨part, _⟩ => symmetryOf? span part
    return { op := op, name := name, args := args, parts := parts, span := span }
termination_by sizeOf d
decreasing_by exact sizeOf_field (by assumption) (by assumption)

def maybeSymmetryOf? (span : Span) : Datum → Option (Option SymmetryExpr)
  | .null => some none
  | d => (symmetryOf? span d).map some

structure TermFields where
  direction : String
  through : String
  value : Datum

def term? (d : Datum) : Option TermFields := do
  let pairs ← record? ["dir", "through", "value"] d
  return {
    direction := ← text? (pairs.get "dir")
    through := ← text? (pairs.get "through")
    value := pairs.get "value" }

structure AuxiliaryFields where
  targets : List String
  group : Option SymmetryExpr
  value : Datum

def auxiliary? (span : Span) (d : Datum) : Option AuxiliaryFields := do
  let pairs ← record? ["targets", "group", "value"] d
  return {
    targets := ← list? text? (pairs.get "targets")
    group := ← maybeSymmetryOf? span (pairs.get "group")
    value := pairs.get "value" }

structure TransitionFields where
  initial : Datum
  napkin : List TermFields
  result : Datum
  auxiliaries : List AuxiliaryFields

def transition? (span : Span) (d : Datum) : Option TransitionFields := do
  let pairs ← record? ["initial", "napkin", "result", "aux"] d
  return {
    initial := pairs.get "initial"
    napkin := ← list? term? (pairs.get "napkin")
    result := pairs.get "result"
    auxiliaries := ← list? (auxiliary? span) (pairs.get "aux") }

def optionalTransition? (span : Span) : Datum → Option (Option TransitionFields)
  | .null => some none
  | d => (transition? span d).map some

/-- Reads a place; one that is left out is where the statement stands. -/
def span? (place : Span) : Datum → Option Span
  | .null => some place
  | d => do
    let pairs ← record? ["line", "start", "end"] d
    return ⟨← word? (pairs.get "line"), ← word? (pairs.get "start"), ← word? (pairs.get "end")⟩

/-- A statement, its values not looked at yet. -/
structure StatementFields where
  directive : String
  value : Datum
  symmetry : Option SymmetryExpr
  var : String
  transition : Option TransitionFields
  span : Span

/-- Reads a statement that stands at a place. -/
def statementFields? (place : Span) (pairs : Pairs) : Option StatementFields := do
  if !pairs.fits ["directive", "value", "symmetry", "var", "transition", "span"] then failure
  let span ← span? place (pairs.get "span")
  return {
    directive := ← text? (pairs.get "directive")
    value := pairs.get "value"
    symmetry := ← maybeSymmetryOf? span (pairs.get "symmetry")
    var := ← text? (pairs.get "var")
    transition := ← optionalTransition? span (pairs.get "transition")
    span := span }

/-- The value of a directive as text: the items of a list with commas between them. -/
def directiveText : Datum → String
  | .null => ""
  | .list ds => ",".intercalate (ds.map Datum.shown)
  | d => d.shown

/-- The transition that its fields stand for. -/
def transition (span : Span) (t : TransitionFields) : Except Failure Transition := do
  let initial ← expr span t.initial
  let result ← expr span t.result
  let napkin ← t.napkin.mapM fun term => do
    return {
      direction := term.direction
      through := term.through
      value := ← expr span term.value
      span := span : Term }
  let auxiliaries ← t.auxiliaries.mapM fun a => do
    return {
      targets := a.targets
      group := a.group
      value := ← expr span a.value
      span := span : AuxiliaryExpr }
  return {
    initial := initial
    napkin := napkin
    result := result
    auxiliaries := auxiliaries
    span := span }

/-- The statement that a record stands for: a directive if it names one, else a variable, else a
transition. -/
def statement (place : Span) (pairs : Pairs) : Except Failure Statement :=
  match statementFields? place pairs with
  | none => undecodable place
  | some f =>
    if f.directive ≠ "" then
      .ok (.directive f.directive (directiveText f.value) f.symmetry f.span)
    else if f.var ≠ "" then do
      return .var f.var (← expr f.span f.value) f.span
    else
      match f.transition with
      | some t => (transition f.span t).map .transition
      | none => reject f.span .unknownStatement

end RuleTable.Interchange
