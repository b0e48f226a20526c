import RuleTable.Decimal.Shortest
import RuleTable.Section.Event

/-!
Counters of what a compiler does, and the text in which they are handed to those who collect them:
families in the order of their names, each with a line of help and a line with its type.
-/

namespace RuleTable

/-- How much was compiled, and what went wrong. -/
structure Metrics where
  sections : Nat := 0
  transitions : Nat := 0
  branches : Nat := 0
  lines : Nat := 0
  duplicates : Nat := 0
  cacheHits : Nat := 0
  cacheMisses : Nat := 0
  /-- the number of failures of each class that had any, in the order of the names -/
  failures : List (String × Nat) := []
  /-- the number of lines of each section -/
  sizes : List Nat := []
  deriving Repr

namespace Metrics

/-- One more under a name; the names stay in order. -/
def bump (name : String) : List (String × Nat) → List (String × Nat)
  | [] => [(name, 1)]
  | (other, n) :: rest =>
    if name = other then (other, n + 1) :: rest
    else if name < other then (name, 1) :: (other, n) :: rest
    else (other, n) :: bump name rest

/-- Counts a section. -/
def addSection (m : Metrics) (s : Stats) : Metrics :=
  { m with
    sections := m.sections + 1
    transitions := m.transitions + s.transitions
    branches := m.branches + s.branches
    lines := m.lines + s.lines
    duplicates := m.duplicates + s.duplicates
    cacheHits := m.cacheHits + s.cache.hits
    cacheMisses := m.cacheMisses + s.cache.misses
    sizes := s.lines :: m.sizes }

def addFailure (m : Metrics) (k : Kind) : Metrics :=
  { m with failures := bump (if k = .other 0 then "Unknown" else k.name) m.failures }

def add (m : Metrics) : Event → Metrics
  | .compiled result => m.addSection result.stats
  | .rejected _ _ f | .abandoned _ f => m.addFailure f.kind
  | _ => m

def addAll (m : Metrics) (events : List Event) : Metrics := events.foldl add m

def number (n : Nat) : String := Decimal.general (Float.ofNat n)

def introduction (name type help : String) : String :=
  s!"# HELP nutshell_{name} {help}\n# TYPE nutshell_{name} {type}\n"

def counter (name help : String) (n : Nat) : String :=
  introduction name "counter" help ++ s!"nutshell_{name} {number n}\n"

def failureFamily (m : Metrics) : String :=
  if m.failures.isEmpty then ""
  else introduction "errors_total" "counter" "Compilation errors by kind" ++
    String.join (m.failures.map fun (name, n) =>
      "nutshell_errors_total\x7bkind=\"" ++ name ++ "\"\x7d " ++ number n ++ "\n")

def bounds : List Nat := [1, 4, 16, 64, 256, 1024, 4096, 16384]

/-- The number of sections up to each bound. -/
def sizeFamily (m : Metrics) : String :=
  let bucket (bound : String) (n : Nat) : String :=
    "nutshell_section_lines_bucket\x7ble=\"" ++ bound ++ "\"\x7d " ++ number n ++ "\n"
  introduction "section_lines" "histogram" "Transition lines per compiled section" ++
    String.join (bounds.map fun b => bucket (number b) (m.sizes.countP (· ≤ b))) ++
    bucket "+Inf" m.sizes.length ++
    s!"nutshell_section_lines_sum {number m.lines}\n" ++
    s!"nutshell_section_lines_count {number m.sizes.length}\n"

/-- All families. -/
def render (m : Metrics) : String :=
  counter "branches_total" "Concrete transitions produced by expansion" m.branches ++
  counter "duplicates_total" "Transition lines dropped as duplicates" m.duplicates ++
  m.failureFamily ++
  counter "lines_total" "Transition lines emitted" m.lines ++
  counter "orbit_cache_hits_total" "Orbit cache hits" m.cacheHits ++
  counter "orbit_cache_misses_total" "Orbit cache misses" m.cacheMisses ++
  m.sizeFamily ++
  counter "sections_total" "Table sections compiled" m.sections ++
  counter "transitions_total" "Abstract transitions read" m.transitions

end Metrics

end RuleTable
