import RuleTable.Report
import RuleTable.Text.Case
import RuleTable.Decimal.Shortest

/-!
The compiler as tools for other programs: each tool has a name, takes arguments by name, and gives a
result or the words for what went wrong.
-/

namespace RuleTable.Tools

open Text

inductive Argument
  | null
  | text (s : String)
  | number (x : Float)
  /-- an argument of a kind that no tool takes -/
  | other

abbrev Arguments := List (String × Argument)

inductive Tool
  | compileRules
  | listSymmetries
  deriving DecidableEq, Repr

namespace Tool

def all : List Tool := [.compileRules, .listSymmetries]

def name : Tool → String
  | .compileRules => "compile_rules"
  | .listSymmetries => "list_symmetries"

def description : Tool → String
  | .compileRules => "Compile a rule file (YAML interchange form) into flat transition tables."
  | .listSymmetries => "List the symmetry classes a neighborhood supports."

def ofName? (s : String) : Option Tool := all.find? (·.name == s)

end Tool

def serverName : String := "nutshell-mcp"

inductive Result
  | report (r : Report)
  | symmetries (neighborhood : String) (classes : List Symmetry)

def entry (t : Symmetry) : String := s!"{t.name} ({t.order})"

/-- Reads an argument. The name counts in upper or lower case; of several that match, the last in
order counts, and null is as if it were missing. -/
def argument? (args : Arguments) (name : String) (read : Argument → Option α) (missing : α) :
    Option α :=
  let ordered := args.mergeSort fun a b => a.1 ≤ b.1
  ordered.foldl
    (fun found (key, value) =>
      match found, value with
      | none, _ => none
      | some old, .null => some old
      | some old, value => if matchesWord key name then read value else some old)
    (some missing)

def readText : Argument → Option String
  | .text s => some s
  | _ => none

/-- A whole number that fits an unsigned word, by its shortest decimal form. -/
def readSeed : Argument → Option UInt64
  | .number x => (readUnsigned .decimal (Decimal.positional x).toList).toOption.map UInt64.ofNat
  | _ => none

inductive Fault
  /-- an argument is of the wrong kind -/
  | arguments
  | noSource
  | failed (f : Failure)
  | crash

def Fault.message : Fault → String
  | .arguments => s!"failed to bind arguments: {Cause.undecodable.message}"
  | .noSource => "tool execution failed: source is required"
  | .failed f => s!"tool execution failed: {f.message}"
  | .crash => "tool execution failed"

/-- What is known of symmetries from earlier calls. -/
structure Session where
  registry : Registry := {}

namespace Session

/-- Does something with a new compiler, and keeps what it learns of symmetries. -/
def onCompiler (s : Session) (seed : UInt64) (act : CompilerM α) : Except Fault α × Session :=
  let c := Compiler.create seed 0
  let (result, c) := act.run.run { c with session := { c.session with registry := s.registry } }
  let result := match result with
    | .ok a => .ok a
    | .error (.refused f) => .error (.failed f)
    | .error .crash => .error .crash
  (result, { s with registry := c.session.registry })

/-- Compiles a rule file. What is wrong with the file is part of the report. -/
def compileRules (s : Session) (args : Arguments) : Except Fault Result × Session :=
  match argument? args "source" readText "", argument? args "seed" readSeed 0 with
  | some source, some seed =>
    if (trim source).isEmpty then (.error .noSource, s)
    else
      let (result, s) := s.onCompiler seed (Compiler.compileText source)
      (result.map fun c => .report c.report, s)
  | _, _ => (.error .arguments, s)

def listSymmetries (s : Session) (args : Arguments) : Except Fault Result × Session :=
  match argument? args "neighborhood" readText "" with
  | none => (.error .arguments, s)
  | some neighborhood =>
    let (result, s) := s.onCompiler 0 (Compiler.classes neighborhood)
    (result.map fun ts =>
      .symmetries ((ts.head?.map (·.neighborhood.name)).getD "") ts, s)

def call (s : Session) (args : Arguments) : Tool → Except Fault Result × Session
  | .compileRules => s.compileRules args
  | .listSymmetries => s.listSymmetries args

end Session

end RuleTable.Tools
