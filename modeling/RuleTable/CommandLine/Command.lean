import RuleTable.CommandLine.Flag
import RuleTable.Text.Case
import RuleTable.Text.Distance

/-!
The commands of the program, and how a command line chooses one.
-/

namespace RuleTable.CommandLine

open Text

/-- A command. -/
inductive Command
  | compile
  | mcp
  | serve
  | symmetries
  | version
  | help
  | completion
  deriving DecidableEq, Repr

namespace Command

def all : List Command := [.compile, .mcp, .serve, .symmetries, .version, .help, .completion]

def name : Command → String
  | .compile => "compile"
  | .mcp => "mcp"
  | .serve => "serve"
  | .symmetries => "symmetries"
  | .version => "version"
  | .help => "help"
  | .completion => "completion"

def ofName? (s : String) : Option Command := all.find? (·.name == s)

/-- The flags that every command has. -/
def common : List Flag := [{ name := "config" }, { name := "log-level" }]

def flags : Command → List Flag
  | .compile => [
      { name := "output", letter := some 'o' }, { name := "seed", kind := .number },
      { name := "stats", kind := .switch }] ++ common
  | .serve => { name := "port", letter := some 'p' } :: common
  | _ => common

/-- The number of arguments that a command insists on. -/
def arguments? : Command → Option Nat
  | .compile | .symmetries => some 1
  | _ => none

/-- The commands that a misspelt one may stand for: those not far from it, and those it begins. -/
def suggestions (s : String) : List String :=
  ((all.filter (· ≠ .help)).map name).filter fun name =>
    distance (lower s) name ≤ 2 || (lower s).toList.isPrefixOf name.toList

end Command

def helpFlag : Flag := { name := "help", letter := some 'h', kind := .switch }

inductive Invocation
  | run (command : Command) (given : Given)
  | help
  deriving Repr

/-- The command that a command line names, and the rest of it. -/
def locate (args : List String) : Except Fault (Option Command × List String) :=
  match words Command.common args with
  | [] => .ok (none, args)
  | word :: _ =>
    match Command.ofName? word with
    | some c => .ok (some c, without Command.common word args)
    | none => .error (.unknownCommand word (Command.suggestions word))

/-- Reads a command line. -/
def parse (args : List String) : Except Fault Invocation :=
  match locate args with
  | .error fault => .error fault
  | .ok (command, rest) =>
    let flags := helpFlag :: (command.map Command.flags).getD Command.common
    match read flags rest, command with
    | .error fault, _ => .error fault
    | .ok _, none => .ok .help
    | .ok given, some command =>
      if (given.values.lookup "help").bind readBool? = some true then .ok .help
      else
        match command.arguments? with
        | some n =>
          if given.arguments.length = n then .ok (.run command given)
          else .error (.argumentCount n given.arguments.length)
        | none => .ok (.run command given)

end RuleTable.CommandLine
