import RuleTable.Digest
import RuleTable.Report
import RuleTable.Text.Quoted

/-!
A store of reports by the seed and a digest of the rule file. A file compiled twice with one seed
gives one report, so what is stored never grows old. The store may be out of reach; then the server
goes on without it.
-/

namespace RuleTable

def reportKey (label : String) (seed : UInt64) (source : String) : String :=
  s!"{label}{seed}:{String.ofList (Text.hexDigits 16 (Digest.ofText source).toNat)}"

def reportLabel : String := "nutshell:report:"

structure ReportCache where
  stored : List (String × Report) := []
  /-- reports can be read from it -/
  readable : Bool := true
  /-- reports can be added to it -/
  writable : Bool := true

inductive Lookup
  | hit (report : Report)
  | miss
  | failed

inductive CacheCall
  | found (key : String)
  | missed (key : String)
  | getFailed (key : String)
  | stored (key : String)
  | setFailed (key : String)
  deriving DecidableEq, Repr

def CacheCall.text : CacheCall → String
  | .found key => s!"get true {key}"
  | .missed key => s!"get false {key}"
  | .getFailed key => s!"get fails {key}"
  | .stored key => s!"set {key}"
  | .setFailed key => s!"set fails {key}"

namespace ReportCache

def get (c : ReportCache) (key : String) : Lookup :=
  if c.readable then
    match c.stored.lookup key with
    | some r => .hit r
    | none => .miss
  else .failed

def getCall (key : String) : Lookup → CacheCall
  | .hit _ => .found key
  | .miss => .missed key
  | .failed => .getFailed key

/-- Adds a report, in place of the one under its key. -/
def set (c : ReportCache) (key : String) (report : Report) : ReportCache × CacheCall :=
  if c.writable then ({ c with stored := (key, report) :: c.stored }, .stored key)
  else (c, .setFailed key)

end ReportCache

end RuleTable
