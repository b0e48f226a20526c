import RuleTable.Text.Listed
import Std.Data.HashMap
import Std.Data.TreeMap

/-!
The orbit cache: a bounded store of orbits that gives up the one unused for longest, and counts how
often it was of use.
-/

namespace RuleTable

/-- What an orbit depends on, besides the symmetry type with that key. -/
inductive OrbitKey
  /-- the whole napkin -/
  | napkin (type : String) (ids : List Nat)
  /-- for freely permuted groups: what each group holds, and what stands at the other positions -/
  | contents (type : String) (groups : List (List Nat)) (fixed : List (Nat × Nat))
  deriving DecidableEq, Repr

def OrbitKey.text : OrbitKey → String
  | .napkin type ids => type ++ "|" ++ Text.numerals ids
  | .contents type groups fixed =>
    type ++ "|p|" ++ String.join (groups.map fun g => Text.numerals g ++ "/") ++
      String.join (fixed.map fun (i, id) => s!"{i}={id};")

/-- Stored orbits with the time of their last use, and the keys by that time. -/
structure OrbitCache where
  capacity : Nat
  entries : Std.HashMap String (Nat × List (List Nat)) := ∅
  recency : Std.TreeMap Nat String := ∅
  clock : Nat := 0
  hits : Nat := 0
  misses : Nat := 0

structure CacheStats where
  hits : Nat := 0
  misses : Nat := 0
  size : Nat := 0
  deriving DecidableEq, Repr, Inhabited

namespace OrbitCache

def defaultCapacity : Nat := 4096

/-- An empty cache; a capacity that is not positive means the default. -/
def ofCapacity (capacity : Int) : OrbitCache :=
  { capacity := if capacity ≤ 0 then defaultCapacity else capacity.toNat }

/-- Makes an entry the most recent one. -/
def touch (c : OrbitCache) (key : String) (orbit : List (List Nat)) : OrbitCache :=
  let recency :=
    match c.entries[key]? with
    | some (time, _) => c.recency.erase time
    | none => c.recency
  { c with
    entries := c.entries.insert key (c.clock, orbit)
    recency := recency.insert c.clock key
    clock := c.clock + 1 }

def find (c : OrbitCache) (key : String) : Option (List (List Nat)) × OrbitCache :=
  match c.entries[key]? with
  | some (_, orbit) => (some orbit, { c.touch key orbit with hits := c.hits + 1 })
  | none => (none, { c with misses := c.misses + 1 })

/-- Drops the entry unused for longest if there are too many. -/
def trim (c : OrbitCache) : OrbitCache :=
  if c.entries.size ≤ c.capacity then c
  else
    match c.recency.minEntry? with
    | some (time, key) =>
      { c with entries := c.entries.erase key, recency := c.recency.erase time }
    | none => c

def add (c : OrbitCache) (key : String) (orbit : List (List Nat)) : OrbitCache :=
  (c.touch key orbit).trim

def purge (c : OrbitCache) : OrbitCache := { capacity := c.capacity }

def stats (c : OrbitCache) : CacheStats := ⟨c.hits, c.misses, c.entries.size⟩

end OrbitCache

end RuleTable
