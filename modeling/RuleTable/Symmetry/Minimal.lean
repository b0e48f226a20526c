import RuleTable.Symmetry.Classes

/-!
The class a table is written under when its transitions were declared under several types: it must
be contained in each of them.
-/

namespace RuleTable.Registry

/-- The relabelings that all the types share. -/
def shared : List Symmetry → Std.HashSet Relabeling
  | [] => ∅
  | t :: ts => ts.foldl (fun s u => s.filter u.contains) t.members.get.seen

def containedIn (t : Symmetry) (set : Std.HashSet Relabeling) : Bool :=
  t.order ≤ set.size && t.relabelings.all set.contains

/-- The first candidate with exactly these relabelings; if there is none, the largest that is
contained in them, `best` to begin with. -/
def largestWithin (set : Std.HashSet Relabeling) : Symmetry → List Symmetry → Symmetry
  | best, [] => best
  | best, t :: ts =>
    if t.order == set.size && containedIn t set then t
    else if t.order > best.order && containedIn t set then largestWithin set t ts
    else largestWithin set best ts

/-- The types without repeats, by key. -/
def distinctTypes (ts : List Symmetry) : List Symmetry :=
  ts.foldl (fun out t => if out.any (·.key == t.key) then out else out ++ [t]) []

def largestShared (nb : Neighborhood) (types : List Symmetry) : RegistryM Symmetry := do
  let candidates ← classes nb
  let start ← none nb
  return largestWithin (shared types) start candidates

def choiceKey (types : List Symmetry) : String := "&".intercalate (types.map (·.key)).mergeSort

/-- The class for different types of a neighborhood. The answer for a set of types is remembered. -/
def choose (nb : Neighborhood) (types : List Symmetry) : RegistryM Symmetry := do
  match (← get).chosen[choiceKey types]? with
  | some m => return m
  | Option.none =>
    let m ← largestShared nb types
    modify fun r => { r with chosen := r.chosen.insert (choiceKey types) m }
    return m

/-- The class for transitions declared under the given types; there is none for no types. -/
def minimal (ts : List Symmetry) : RegistryM (Option Symmetry) := do
  if ts.isEmpty then return Option.none
  let nb ← commonNeighborhood ts
  return some (← choose nb (distinctTypes ts))

end RuleTable.Registry
