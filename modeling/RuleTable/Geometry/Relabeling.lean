import RuleTable.Text.Listed

/-!
Relabelings of napkin positions. A relabeling lists for every position the position whose value it
takes: applied to `x` it yields `y` with `y[i] = x[p[i]]`.
-/

namespace RuleTable

/-- For every position the one it takes its value from. -/
abbrev Relabeling := List Nat

namespace Relabeling

def identity (n : Nat) : Relabeling := List.range n

/-- Reads `xs` through `p`; there is no result if `p` names a position outside `xs`. -/
def relabel? (p : Relabeling) (xs : List α) : Option (List α) := p.mapM fun i => xs[i]?

/-- First `p`, then `q`. -/
def andThen (p q : Relabeling) : Relabeling := q.map fun i => p.getD i 0

/-- Undoes `p`. Of two positions with one source the later counts. -/
def inverse (p : Relabeling) : Relabeling :=
  p.zipIdx.foldl (fun out (source, i) => out.set source i) (List.replicate p.length 0)

/-- Undoes `p`, unless `p` names a position it does not have. -/
def inverse? (p : Relabeling) : Option Relabeling :=
  if p.all (· < p.length) then some p.inverse else none

def key (p : Relabeling) : String := Text.commas (p.map Int.ofNat)

def ofInts? (entries : List Int) : Option Relabeling := entries.mapM fun i => i.toNat?

/-- Every ordering of a list of length `k`: each element in turn changes places with the first. -/
def orderings : Nat → List α → List (List α)
  | 0, _ => [[]]
  | _ + 1, [] => [[]]
  | k + 1, x :: xs =>
    (orderings k xs).map (x :: ·) ++
      xs.zipIdx.flatMap fun (y, i) => (orderings k (xs.set i x)).map (y :: ·)

/-- The relabeling of `n` positions that puts `sources` at `positions` and moves nothing else. -/
def placing (n : Nat) (positions sources : List Nat) : Relabeling :=
  (positions.zip sources).foldl (fun p (i, source) => p.set i source) (identity n)

/-- Every relabeling of `n` positions that moves only `positions`. -/
def permuting (n : Nat) (positions : List Nat) : List Relabeling :=
  (orderings positions.length positions).map (placing n positions)

end Relabeling

end RuleTable
