import RuleTable.Host

/-!
The settings of the program, and what they are when nobody says otherwise.
-/

namespace RuleTable

/-- The settings. -/
structure Settings where
  logLevel : String := "info"
  seed : UInt64 := 0
  /-- the number of orbits that are kept -/
  orbitCacheSize : Int := 4096
  /-- whether the counters are printed -/
  stats : Bool := false
  /-- where the reports of the server are kept, if anywhere -/
  redisAddress : String := ""
  redisPassword : String := ""
  /-- how long they are kept, in nanoseconds -/
  cacheLifetime : Int := 3600000000000
  deriving DecidableEq, Repr

def Settings.defaultPath : String := "nutshell.yaml"

end RuleTable
