import RuleTable.Section.Emit
import RuleTable.Section.Event
import RuleTable.Symmetry.Minimal
import RuleTable.Transition.Auxiliary
import RuleTable.Transition.Reduce

/-!
Compiling a section: its statements in order, then the table under one symmetry for all. A statement
that is refused is reported and left out; some failures end the section.
-/

namespace RuleTable

open Text

/-- The number of states of a section that does not say. -/
def defaultStates : Nat := 2

/-- The greatest number of states that a simulator takes. -/
def greatestStates : Nat := 256

/-- A transition of a section, with its rows and what they do nearby. -/
structure Entry where
  rule : Rule
  rows : List Row
  auxiliaryRows : List Row

/-- What is shared by the sections that one compiler compiles. -/
structure Session where
  registry : Registry := {}
  cache : OrbitCache := .ofCapacity 0
  events : Array Event := #[]

/-- A section under way. -/
structure SectionState where
  table : String
  seed : UInt64
  session : Session
  stateCount : Nat := defaultStates
  neighborhood : Option Neighborhood := none
  symmetry : Option Symmetry := none
  scope : Option Scope := none
  entries : Array Entry := #[]
  failures : Array Failure := #[]
  stats : Stats := {}

/-- A step of compiling a section. To be refused here is the end of the section. -/
abbrev SectionM := ExceptT Stop (StateM SectionState)

namespace SectionM

def note (e : Event) : SectionM Unit :=
  modify fun s => { s with session := { s.session with events := s.session.events.push e } }

def report (span : Span) (f : Failure) : SectionM Unit := do
  let f := f.locate .syntaxInconsistency span
  note (.rejected (← get).table span f)
  modify fun s => { s with failures := s.failures.push f }

def onRegistry (act : RegistryM α) : SectionM α :=
  ExceptT.mk (modifyGet fun s =>
    let (result, registry) := act.run.run s.session.registry
    (result, { s with session := { s.session with registry := registry } }))

def onCache (act : CacheM α) : SectionM α :=
  ExceptT.mk (modifyGet fun s =>
    let (result, cache) := act.run.run (some s.session.cache)
    (result, { s with session := { s.session with cache := cache.getD s.session.cache } }))

/-- The scope of the section, made when it is first needed. From then on the number of states is
fixed. -/
def theScope : SectionM Scope := do
  let s ← get
  match s.scope with
  | some scope => return scope
  | none =>
    let scope ← Scope.create s.stateCount (.ofSeed s.seed)
    set { s with scope := some scope }
    return scope

/-- Works on registry and scope for a statement at `span`; a refusal is reported and has no
result. -/
def attempt (span : Span) (act : WorkspaceM α) : SectionM (Option α) := do
  let scope ← theScope
  let s ← get
  let (result, w) := act.run.run { registry := s.session.registry, scope := scope }
  set { s with session := { s.session with registry := w.registry }, scope := some w.scope }
  match result with
  | .ok a => return some a
  | .error (.refused f) => report span f; return none
  | .error .crash => throw .crash

end SectionM

namespace Table

open SectionM

def declareVariable (name : String) (value : Expr) (span : Span) : SectionM Unit := do
  let _ ← attempt span (WorkspaceM.onScope (Scope.declaring name value span))

/-- The rows of a rule and the rows they entail nearby. -/
def rowsOf (rule : Rule) : ScopeM (List Row × List Row) := do
  let rows ← Cell.expand rule.cells rule.span
  let auxiliaryRows ← rows.mapM rule.auxiliaryRows
  return (rows, auxiliaryRows.flatten)

/-- Lays out a transition and works out its rows. -/
def entry (nb : Option Neighborhood) (symmetry : Option Symmetry) (t : Transition) :
    WorkspaceM Entry := do
  let rule ← Rule.build nb symmetry t
  let (rows, auxiliaryRows) ← WorkspaceM.onScope (rowsOf rule)
  return { rule, rows, auxiliaryRows }

def attemptEntry (t : Transition) : SectionM (Option Entry) := do
  let s ← get
  attempt t.span (entry s.neighborhood s.symmetry t)

/-- Adds a transition. -/
def addTransition (t : Transition) : SectionM Unit := do
  let made ← attemptEntry t
  modify fun s => { s with stats := { s.stats with transitions := s.stats.transitions + 1 } }
  match made with
  | none => return
  | some entry =>
    modify fun s => { s with
      entries := s.entries.push entry
      stats := { s.stats with
        branches := s.stats.branches + entry.rows.length
        auxiliaries := s.stats.auxiliaries + entry.auxiliaryRows.length } }

def setStates (value : String) (span : Span) : SectionM Unit := do
  if (← get).scope.isSome then refuse span .statesTooLate
  match readInt? (trim value) with
  | some n =>
    if n < 1 || (greatestStates : Int) < n then refuse span (.stateCount value greatestStates)
    modify fun s => { s with stateCount := n.toNat }
  | none => refuse span (.stateCount value greatestStates)

/-- Sets the neighborhood. Another one than before takes the symmetry away. -/
def setNeighborhood (value : String) (span : Span) : SectionM Unit := do
  unless (← get).entries.isEmpty do refuse span .neighborhoodFixed
  let nb ← locating .geometry span (liftM (Neighborhood.parse value) : SectionM Neighborhood)
  modify fun s => { s with
    neighborhood := some nb
    symmetry := if s.neighborhood = some nb then s.symmetry else none }
  note (.neighborhood (← get).table nb)

/-- The failure of what needs a neighborhood before there is one. -/
def needsNeighborhood (span : Span) : Stop :=
  .refused ((Failure.bare .needsNeighborhood).locate .syntaxInconsistency span)

def setSymmetry (value : String) (e : Option SymmetryExpr) (span : Span) : SectionM Unit := do
  let some nb := (← get).neighborhood | throw (needsNeighborhood span)
  let t ← onRegistry (Registry.declare nb (e.getD { name := value, span := span }))
  modify fun s => { s with symmetry := some t }
  note (.symmetry (← get).table t)

/-- Obeys a statement. -/
def obey : Statement → SectionM Unit
  | .directive name value symmetry span => do
    let word := lower (trim name)
    if word = "n_states" || word = "states" then setStates value span
    else if word = "neighborhood" then setNeighborhood value span
    else if word = "symmetries" then setSymmetry value symmetry span
    else report span (.of span (.unknownDirective name))
  | .var name value span => declareVariable name value span
  | .transition t => do
    if (← get).neighborhood.isNone then throw (needsNeighborhood t.span)
    addTransition t

/-- The symmetry that all transitions are written under. Without transitions it is the one last
declared. -/
def commonSymmetry (nb : Neighborhood) : SectionM Symmetry := do
  let s ← get
  let types := s.entries.toList.map (·.rule.symmetry)
  let types := if types.isEmpty then s.symmetry.toList else types
  match ← onRegistry (Registry.minimal types) with
  | some t => return t
  | none => onRegistry (Registry.none nb)

def writeEntries (target : Symmetry) : List Entry → Listing → CacheM Listing
  | [], l => return l
  | e :: es, l => do
    let rows ← e.rule.reduce target e.rows
    let auxiliaryRows ← e.rule.reduce target e.auxiliaryRows
    writeEntries target es ((rows ++ auxiliaryRows).foldl (·.add e.rule.span) l)

/-- The table of a section whose statements have all been obeyed. -/
def finish : SectionM CompiledSection := do
  let nb := (← get).neighborhood.getD .moore
  let target ← commonSymmetry nb
  note (.chosen (← get).table target (← get).entries.size)
  let listing ← onCache (writeEntries target (← get).entries.toList {})
  let scope ← theScope
  let s ← get
  let result : CompiledSection := {
    name := s.table
    stateCount := s.stateCount
    neighborhood := nb
    symmetry := target
    vars := listing.declarations scope
    lines := listing.lines.toList
    stats := { s.stats with
      lines := listing.lines.size
      duplicates := listing.duplicates
      cache := s.session.cache.stats } }
  note (.compiled result)
  return result

/-- Obeys all statements and writes the table; a failure that ends the section comes after those
reported before. -/
def process (t : Table) : SectionM (Except (List Failure) CompiledSection) := do
  let obeyed : SectionM (Option Failure) :=
    tryCatch (do t.statements.forM obey; return none) fun
      | .refused f => return some f
      | .crash => throw .crash
  match ← obeyed with
  | some f =>
    note (.abandoned t.name f)
    return .error ((← get).failures.toList ++ [.within (.tableSection t.name) f])
  | none =>
    let failures := (← get).failures.toList
    if failures.isEmpty then return .ok (← finish) else return .error failures

/-- Compiles a section with an empty cache; names for variables are drawn from the seed. -/
def compile (t : Table) (seed : UInt64) :
    ExceptT Stop (StateM Session) (Except (List Failure) CompiledSection) :=
  ExceptT.mk (modifyGet fun session =>
    let start : SectionState := {
      table := t.name
      seed := seed
      session := { session with cache := session.cache.purge } }
    let (result, s) := t.process.run.run start
    (result, s.session))

end Table

end RuleTable
