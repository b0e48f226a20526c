import RuleTable.Host
import RuleTable.Interchange.File
import RuleTable.Section.Compile

/-!
The compiler: sections one after the other, with the symmetries and orbits found so far. A section
that fails does not stop the others.
-/

namespace RuleTable

/-- A compiler: the seed that names are drawn from, and what its sections share. -/
structure Compiler where
  seed : UInt64 := 0
  session : Session := {}

/-- The sections that were compiled and the failures of the others. -/
structure Compilation where
  sections : List CompiledSection := []
  failures : List Failure := []

def Compilation.ok (c : Compilation) : Bool := c.failures.isEmpty

abbrev CompilerM := ExceptT Stop (StateM Compiler)

namespace Compiler

/-- A compiler with a seed and room for so many orbits. -/
def create (seed : UInt64) (cacheSize : Int) : Compiler :=
  { seed := seed, session := { cache := .ofCapacity cacheSize } }

/-- Works on what the sections share. -/
def onSession (act : ExceptT Stop (StateM Session) α) : CompilerM α :=
  ExceptT.mk (modifyGet fun c =>
    let (result, session) := act.run.run c.session
    (result, { c with session := session }))

def compile : List Table → CompilerM Compilation
  | [] => return {}
  | t :: ts => do
    let result ← onSession (t.compile (← get).seed)
    let rest ← compile ts
    match result with
    | .ok s => return { rest with sections := s :: rest.sections }
    | .error fs => return { rest with failures := fs ++ rest.failures }

def note (e : Event) : CompilerM Unit :=
  modify fun c => { c with session := { c.session with events := c.session.events.push e } }

/-- Compiles the sections of a rule file, if it can be read. -/
def compileParsed : Except Failure (List Table) → CompilerM Compilation
  | .ok tables => compile tables
  | .error f => return { failures := [f] }

def compileText (source : String) : CompilerM Compilation :=
  compileParsed (Interchange.parse source)

def compileFile (path : String) : Reading → CompilerM Compilation
  | .error fault => compileParsed (.error (.within .reading (.bare fault.cause)))
  | .ok source => do
    let parsed := Interchange.parse source
    if let .ok tables := parsed then note (.parsed path tables.length)
    compileParsed parsed

/-- The symmetries with a name that a neighborhood has, the weakest first. -/
def classes (neighborhood : String) : CompilerM (List Symmetry) := do
  match Neighborhood.parse neighborhood with
  | .error f => throw (.refused (.within .neighborhood f))
  | .ok nb =>
    ExceptT.mk (modifyGet fun c =>
      let (result, registry) := (Registry.classes nb).run.run c.session.registry
      (result, { c with session := { c.session with registry := registry } }))

end Compiler

end RuleTable
