import RuleTable.CommandLine.Command
import RuleTable.Program.Symmetries

/-!
The program: a command line, the settings, and the command itself. What is wrong with the first two
is printed alone.
-/

namespace RuleTable

open CommandLine

def version : String := "0.1.0"

structure ProgramEnding where
  code : Nat := 0
  output : String := ""
  errors : String := ""
  deriving Repr

namespace ProgramEnding

def refused (words : String) : ProgramEnding := { code := 1, errors := words ++ "\n" }

/-- The program ends after its command. A failure that has been reported is not named again. -/
def ofCommand (e : Ending) : ProgramEnding :=
  match e.failure with
  | none => { output := e.output, errors := e.errors }
  | some .rejected => { code := 1, output := e.output, errors := e.errors }
  | some (.failed f) =>
    { code := 1, output := e.output, errors := e.errors ++ s!"Error: {f.message}\n" }
  | some .crash => { code := 2, output := e.output, errors := e.errors }

end ProgramEnding

def usage : String :=
  "Usage:\n  nutshell [command]\n\nAvailable Commands:\n" ++
    String.join (Command.all.map fun c => s!"  {c.name}\n")

/-- What to compile, by the settings and the flags. -/
def compileOptions (s : Settings) (level : Level) (given : Given) : CompileOptions :=
  let value? (flag : String) : Option String := given.values.lookup flag
  let seed? : Option UInt64 :=
    (value? "seed").bind fun s => (Text.readUnsigned .literal s.toList).toOption.map UInt64.ofNat
  { path := given.arguments.headD ""
    target := (value? "output").getD ""
    seed := seed?.getD s.seed
    cacheSize := s.orbitCacheSize
    stats := ((value? "stats").bind readBool?).getD s.stats
    level := some level }

/-- Runs a command with the settings. -/
def runCommand [Monad m] (host : Host m) (s : Settings) (level : Level) (c : Command)
    (given : Given) : m ProgramEnding := do
  match c with
  | .compile => return .ofCommand (← (compileOptions s level given).run host)
  | .symmetries => return .ofCommand (listSymmetries (given.arguments.headD ""))
  | .version => return { output := s!"nutshell version {version}\n" }
  | .mcp =>
    let line : LogLine := ⟨"INFO", "starting nutshell MCP server (stdio)", []⟩
    return { errors := if level ≤ 0 then line.text else "" }
  | .serve => return .refused "Server error: no network"
  | .help | .completion => return { output := usage }

/-- Runs the program. -/
def runProgram [Monad m] (host : Host m) (args : List String) : m ProgramEnding := do
  match CommandLine.parse args with
  | .error fault => return .refused fault.message
  | .ok .help => return { output := usage }
  | .ok (.run command given) =>
    let path := (given.values.lookup "config").getD Settings.defaultPath
    match ← Settings.load host path with
    | .error f => return .refused f.message
    | .ok s =>
      match Level.parse ((given.values.lookup "log-level").getD s.logLevel) with
      | .error f => return .refused f.message
      | .ok level => runCommand host s level command given

end RuleTable
