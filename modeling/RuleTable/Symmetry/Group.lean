import RuleTable.Distinct
import RuleTable.Geometry.Relabeling

/-!
Groups of relabelings: the group that some relabelings generate, the full symmetric groups on
sets of positions, and how overlapping sets unite.
-/

namespace RuleTable

namespace Relabeling

/-- Follows every relabeling from the `i`-th on by each generator, for at most `rounds` of them. -/
def closureFrom (gens : List Relabeling) : Nat → Nat → Distinct Relabeling → Distinct Relabeling
  | 0, _, found => found
  | rounds + 1, i, found =>
    match found.items[i]? with
    | none => found
    | some p =>
      closureFrom gens rounds (i + 1) (gens.foldl (fun d g => d.insert (p.andThen g)) found)

def count : Nat → Nat
  | 0 => 1
  | n + 1 => (n + 1) * count n

/-- The group that permutations of `n` positions generate, breadth first from the identity. It has
at most `count n` members, so that many rounds reach them all. -/
def closure (n : Nat) (gens : List Relabeling) : Distinct Relabeling :=
  closureFrom gens (count n) 0 (Distinct.empty.insert (identity n))

/-- The identity and then the given relabelings, without repeats. -/
def listed (n : Nat) (ps : List Relabeling) : Distinct Relabeling :=
  Distinct.ofList (identity n :: ps)

def transposition (n a b : Nat) : Relabeling := ((identity n).set a b).set b a

/-- Neighbors change places within each group; these generate all permutations of the groups. -/
def transpositions (n : Nat) (groups : List (List Nat)) : List Relabeling :=
  groups.flatMap fun g => (g.zip g.tail).map fun (a, b) => transposition n a b

end Relabeling

namespace Groups

def overlap (a b : List Nat) : Bool := a.any b.contains

/-- The first group and what the second adds to it. -/
def unite (a b : List Nat) : List Nat :=
  b.foldl (fun out y => if out.contains y then out else out ++ [y]) a

/-- Adds a group to disjoint ones, uniting it with those it meets. -/
def absorb (groups : List (List Nat)) (g : List Nat) : List (List Nat) :=
  let (apart, merged) := groups.foldl
    (fun (apart, merged) o =>
      if overlap o merged then (apart, unite o merged) else (apart ++ [o], merged))
    ([], g)
  apart ++ [merged]

/-- Unites overlapping groups until they are disjoint; positions and groups come in increasing
order. -/
def merge (groups : List (List Nat)) : List (List Nat) :=
  ((groups.foldl absorb []).map (·.mergeSort)).mergeSort fun a b => a.headD 0 ≤ b.headD 0

end Groups

end RuleTable
