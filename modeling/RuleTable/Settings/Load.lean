import RuleTable.Settings.File
import RuleTable.Settings.Variables
import RuleTable.Text.Numeral

/-!
Loading the settings in layers: the built-in ones, a YAML file, a file of variables, and the
environment. A later layer wins over an earlier one.
-/

namespace RuleTable

open Text

/-- Yes or no, as switches are written outside of YAML files. -/
def readBool? (s : String) : Option Bool :=
  if ["1", "t", "T", "TRUE", "true", "True"].contains s then some true
  else if ["0", "f", "F", "FALSE", "false", "False"].contains s then some false
  else none

namespace Settings

/-- A decimal number that fits a signed word of 32 bits. -/
def shortInt? (s : String) : Option Int :=
  match readInt? s with
  | some n => if -2147483648 ≤ n ∧ n < 2147483648 then some n else none
  | none => none

/-- A decimal number without a sign. -/
def seed? (s : String) : Option UInt64 :=
  (readUnsigned .decimal s.toList).toOption.map UInt64.ofNat

def variableNames : List String :=
  ["LOG_LEVEL", "SEED", "ORBIT_CACHE_SIZE", "STATS", "REDIS_ADDR",
    "REDIS_PASSWORD", "CACHE_TTL"].map
    ("NUTSHELL_" ++ ·)

/-- The value of a variable, or the one there was if the variable is empty or not set. -/
def setting? (env : Environment) (name : String) (read : String → Option α) (old : α) : Option α :=
  match env.lookup ("NUTSHELL_" ++ name) with
  | none => some old
  | some s => if s.isEmpty then some old else read s

/-- The settings with those of an environment. -/
def ofEnvironment? (s : Settings) (env : Environment) : Option Settings := do
  return {
    logLevel := ← setting? env "LOG_LEVEL" some s.logLevel
    seed := ← setting? env "SEED" seed? s.seed
    orbitCacheSize := ← setting? env "ORBIT_CACHE_SIZE" shortInt? s.orbitCacheSize
    stats := ← setting? env "STATS" readBool? s.stats
    redisAddress := ← setting? env "REDIS_ADDR" some s.redisAddress
    redisPassword := ← setting? env "REDIS_PASSWORD" some s.redisPassword
    cacheLifetime := ← setting? env "CACHE_TTL" Duration.read? s.cacheLifetime }

/-- The settings with those of the file at a path. A file that does not exist adds none. -/
def withFile (s : Settings) (path : String) (file : Reading) : Except Failure Settings :=
  match file with
  | .ok text =>
    match s.ofText? text with
    | some s => .ok s
    | none => .error (.within (.parsingSettings path) (.bare .undecodable))
  | .error fault =>
    if fault.trouble = .absent then .ok s else .error (.within .readingSettings (.bare fault.cause))

/-- The settings with those of an environment; a variable of the wrong kind is refused. -/
def withEnvironment (s : Settings) (env : Environment) : Except Failure Settings :=
  match s.ofEnvironment? env with
  | some s => .ok s
  | none => .error (.within .environment (.bare .undecodable))

/-- Loads the settings. An empty path names no file. -/
def load [Monad m] (host : Host m) (path : String) : m (Except Failure Settings) := do
  let start ← if path.isEmpty then pure (.ok {}) else withFile {} path <$> host.read path
  match start with
  | .error f => return .error f
  | .ok s => return s.withEnvironment (Variables.extend host.environment (← host.read ".env"))

end Settings

end RuleTable
