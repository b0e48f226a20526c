import RuleTable.Symmetry.Basic
import RuleTable.Symmetry.Cache

/-!
Compiled sections: flat transition tables, one line per transition, with the variables they use.
-/

namespace RuleTable

/-- A transition as it is written, and the transitions it came from. -/
structure Line where
  text : String
  spans : List Span
  deriving DecidableEq, Repr

/-- How much work a section was. -/
structure Stats where
  /-- transitions read -/
  transitions : Nat := 0
  /-- rows they were expanded into -/
  branches : Nat := 0
  /-- rows that auxiliaries added -/
  auxiliaries : Nat := 0
  /-- lines written -/
  lines : Nat := 0
  /-- lines left out because they were written already -/
  duplicates : Nat := 0
  cache : CacheStats := {}
  deriving DecidableEq, Repr, Inhabited

structure CompiledSection where
  name : String
  stateCount : Nat
  neighborhood : Neighborhood
  symmetry : Symmetry
  vars : List String
  lines : List Line
  stats : Stats

namespace CompiledSection

def header (s : CompiledSection) : List String := [
  s!"n_states:{s.stateCount}",
  s!"neighborhood:{s.neighborhood.name}",
  s!"symmetries:{s.symmetry.name}"]

/-- The table: directives, variables and transitions, with blank lines between. -/
def render (s : CompiledSection) : String :=
  String.join ((s.header ++ [""] ++ s.vars ++ [""] ++ s.lines.map (·.text)).map (· ++ "\n"))

end CompiledSection

end RuleTable
