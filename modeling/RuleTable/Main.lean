import RuleTable.Program.Run

/-!
The command line: the program on a real machine.
-/

namespace RuleTable

def troubleOf : IO.Error → FileTrouble
  | .noFileOrDirectory .. => .absent
  | .inappropriateType _ _ words =>
    if words.toLower = "is a directory" then .isDirectory else .other words.toLower
  | .permissionDenied _ _ words => .other words.toLower
  | e => .other (toString e)

def readPath (path : String) : IO Reading := do
  try
    return .ok (← IO.FS.readFile path)
  catch e =>
    let trouble := troubleOf e
    return .error ⟨if trouble = .isDirectory then "read" else "open", path, trouble⟩

def writePath (path text : String) : IO (Option WriteFault) := do
  try
    IO.FS.writeFile path text
    return none
  catch e =>
    return some (.create (FileFault.cause ⟨"open", path, troubleOf e⟩))

/-- The variables of the environment that matter. -/
def readEnvironment : IO Environment :=
  Settings.variableNames.filterMapM fun name => do
    return (← IO.getEnv name).map (name, ·)

end RuleTable

open RuleTable in
def main (args : List String) : IO UInt32 := do
  let host : Host IO := { read := readPath, write := writePath, environment := ← readEnvironment }
  let ending ← runProgram host args
  IO.print ending.output
  IO.eprint ending.errors
  return UInt32.ofNat ending.code
