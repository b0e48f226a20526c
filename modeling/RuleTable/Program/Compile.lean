import RuleTable.Compiler
import RuleTable.Log
import RuleTable.Metrics
import RuleTable.Terminal.Diagnostic

/-!
Compiling a file for the command line: the tables go to the output, or to a file; the log, the
counters and the diagnostics go to the error output, in this order.
-/

namespace RuleTable

inductive CommandFailure
  /-- some sections were not compiled; their diagnostics have been printed -/
  | rejected
  | failed (f : Failure)
  | crash
  deriving DecidableEq, Repr

def CommandFailure.message : CommandFailure → String
  | .rejected => "compilation failed"
  | .failed f => f.message
  | .crash => ""

/-- What a command prints, and why it fails if it does. -/
structure Ending where
  output : String := ""
  errors : String := ""
  failure : Option CommandFailure := none

/-- What to compile, and how. -/
structure CompileOptions where
  path : String
  /-- the file for the tables, if they are not to be printed -/
  target : String := ""
  seed : UInt64 := 0
  cacheSize : Int := 0
  /-- whether the counters are printed -/
  stats : Bool := false
  /-- whether diagnostics are painted -/
  color : Bool := false
  /-- the level of the log, if there is one -/
  level : Option Level := none

/-- The tables of sections, each under its name if it has one, with blank lines between. -/
def listing (sections : List CompiledSection) : String :=
  "\n".intercalate (sections.map fun s =>
    (if s.name.isEmpty then "" else s!"# {s.name}\n") ++ s.render)

namespace CompileOptions

/-- Compiles what was read; gives what came of it and what happened on the way. -/
def compile (o : CompileOptions) (file : Reading) : Except Stop Compilation × List Event :=
  let (result, c) := (Compiler.compileFile o.path file).run.run (.create o.seed o.cacheSize)
  (result, c.session.events.toList)

def toFile (o : CompileOptions) (c : Compilation) : Bool :=
  !o.target.isEmpty && !c.sections.isEmpty

def logText (o : CompileOptions) (events : List Event) : String :=
  match o.level with
  | some level => logOf level events
  | none => ""

/-- How a compilation ends once its tables have been written. -/
def finish (o : CompileOptions) (c : Compilation) (events : List Event) : Option WriteFault → Ending
  | some fault => { errors := o.logText events, failure := some (.failed fault.failure) }
  | none =>
    let stats := if o.stats then (({} : Metrics).addAll events).render else ""
    let diagnostics := String.join (c.failures.map fun f => f.shown o.color ++ "\n")
    { output := if o.toFile c then "" else listing c.sections
      errors := o.logText events ++ stats ++ diagnostics
      failure := if c.ok then none else some .rejected }

def run [Monad m] (host : Host m) (o : CompileOptions) : m Ending := do
  match o.compile (← host.read o.path) with
  | (.error _, events) => return { errors := o.logText events, failure := some .crash }
  | (.ok c, events) =>
    if o.toFile c then
      return o.finish c events (← host.write o.target (listing c.sections))
    else return o.finish c events none

end CompileOptions

end RuleTable
