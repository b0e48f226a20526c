import RuleTable.Symmetry.Basic
import RuleTable.Symmetry.Cache

/-!
Orbits: all napkins that the relabelings of a type make of one. Values count as equal if they have
equal keys, so a napkin is first turned into numbers, which are the ranks of the keys.
-/

namespace RuleTable

/-- A computation with an orbit cache, or without one. -/
abbrev CacheM := ExceptT Stop (StateM (Option OrbitCache))

namespace CacheM

def find (key : OrbitKey) : CacheM (Option (List (List Nat))) := do
  match ← get with
  | none => return none
  | some c =>
    let (found, c) := c.find key.text
    set (some c)
    return found

def add (key : OrbitKey) (orbit : List (List Nat)) : CacheM Unit :=
  modify (·.map (·.add key.text orbit))

/-- The orbit under a key, worked out and stored if it is not there. -/
def cached (key : OrbitKey) (orbit : Outcome (List (List Nat))) : CacheM (List (List Nat)) := do
  match ← find key with
  | some rows => return rows
  | none =>
    let rows ← orbit
    add key rows
    return rows

end CacheM

/-- The distinct elements of a sorted list. -/
def dropRepeats [DecidableEq α] : List α → List α
  | [] => []
  | [x] => [x]
  | x :: y :: rest => if x = y then dropRepeats (y :: rest) else x :: dropRepeats (y :: rest)

/-- The distinct orderings of a sorted list of length `k`, in lexicographic order. -/
def arrangements [DecidableEq α] : Nat → List α → List (List α)
  | 0, _ => [[]]
  | k + 1, xs => (dropRepeats xs).flatMap fun x => (arrangements k (xs.erase x)).map (x :: ·)

/-- The rows with `row` moved to the front, if it is one of them. -/
def frontFirst (rows : List (List Nat)) (row : List Nat) : List (List Nat) :=
  if rows.contains row then row :: rows.erase row else rows

def place (row positions values : List Nat) : List Nat :=
  (positions.zip values).foldl (fun r (i, v) => r.set i v) row

namespace Symmetry

/-- The distinct rows that the relabelings make of `ids`, in their order. -/
def images (t : Symmetry) (ids : List Nat) : Outcome (List (List Nat)) := do
  match t.relabelings.mapM (·.relabel? ids) with
  | some rows => return (Distinct.ofList rows).toList
  | none => throw .crash

/-- The rows with each group arranged in every way; `contents` are the sorted values of the
groups. -/
def freeImages (groups contents : List (List Nat)) (ids : List Nat) : List (List Nat) :=
  (groups.zip contents).foldl
    (fun rows (positions, values) =>
      let arranged := arrangements values.length values
      rows.flatMap fun row => arranged.map (place row positions))
    [ids]

/-- What stands outside the groups, with its position. -/
def fixedOf (groups : List (List Nat)) (ids : List Nat) : List (Nat × Nat) :=
  ids.zipIdx.filterMap fun (id, i) => if groups.any (·.contains i) then none else some (i, id)

/-- The orbit of a row of numbers, the row itself first. -/
def orbit (t : Symmetry) (ids : List Nat) : CacheM (List (List Nat)) := do
  match t.groups? with
  | some groups =>
    let some held := groups.mapM fun g => g.mapM fun i => ids[i]? | throw .crash
    let contents := held.map (·.mergeSort)
    let rows ← CacheM.cached (.contents t.key contents (fixedOf groups ids))
      (.ok (freeImages groups contents ids))
    return frontFirst rows ids
  | none => CacheM.cached (.napkin t.key ids) (t.images ids)

end Symmetry

def sortedKeys (keys : List String) : List String :=
  keys.mergeSort.eraseReps

/-- The ranks of the values of a napkin among its keys, and for each rank the last value that has
it. -/
def intern (napkin : List α) (key : α → String) : List Nat × Array (Option α) :=
  let keys := sortedKeys (napkin.map key)
  let ids := napkin.map fun v => keys.idxOf (key v)
  let reps := (napkin.zip ids).foldl (fun reps (v, id) => reps.set! id (some v))
    (Array.replicate keys.length none)
  (ids, reps)

namespace Symmetry

/-- The orbit of a napkin, the napkin itself first. Values with equal keys are all replaced by the
last of them. -/
def expand (t : Symmetry) (napkin : List α) (key : α → String) : CacheM (List (List α)) := do
  let (ids, reps) := intern napkin key
  let rows ← t.orbit ids
  return rows.map fun row => row.filterMap fun id => (reps[id]?).join

def joinKeys (row : List α) (key : α → String) : String := "\x1f".intercalate (row.map key)

def least : List String → String
  | [] => ""
  | k :: ks => ks.foldl (fun best k => if k < best then k else best) k

/-- A text that all napkins of an orbit share: the least of theirs. -/
def canonicalKey (t : Symmetry) (napkin : List α) (key : α → String) : CacheM String := do
  return least ((← t.expand napkin key).map (joinKeys · key))

end Symmetry

end RuleTable
