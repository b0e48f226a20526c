import RuleTable.Geometry.Direction
import RuleTable.Geometry.Relabeling

/-!
Neighborhoods: the directions a cell can see, in the order in which a transition lists them, and
the rotations, reflections and permutations of these positions.
-/

namespace RuleTable

open Text

/-- The topologies a simulator knows. -/
inductive Neighborhood
  | moore | vonNeumann | hexagonal | oneDimensional
  deriving DecidableEq, Repr, Inhabited

namespace Neighborhood

def all : List Neighborhood := [.moore, .vonNeumann, .hexagonal, .oneDimensional]

def name : Neighborhood → String
  | .moore => "Moore"
  | .vonNeumann => "vonNeumann"
  | .hexagonal => "hexagonal"
  | .oneDimensional => "oneDimensional"

/-- The names it may be asked for by, in lower case. -/
def aliases : Neighborhood → List String
  | .moore => ["moore"]
  | .vonNeumann => ["vonneumann", "von_neumann"]
  | .hexagonal => ["hexagonal", "hex"]
  | .oneDimensional => ["onedimensional", "1d"]

def directions : Neighborhood → List Direction
  | .moore => [.n, .ne, .e, .se, .s, .sw, .w, .nw]
  | .vonNeumann => [.n, .e, .s, .w]
  | .hexagonal => [.n, .e, .se, .s, .w, .nw]
  | .oneDimensional => [.w, .e]

def size (nb : Neighborhood) : Nat := nb.directions.length

def text (nb : Neighborhood) : String := nb.name ++ bracketed (nb.directions.map (·.label))

/-- The neighborhood of a known name, in any case and between blanks. -/
def named (name : String) : Except Failure Neighborhood :=
  match all.find? (·.aliases.contains (lower (trim name))) with
  | some nb => .ok nb
  | none => .error (.of .nowhere (.unknownNeighborhood name))

/-- The directions with these labels, which must be neighbors and all different. -/
def neighbors : List String → List Direction → Except Failure (List Direction)
  | [], seen => .ok seen
  | l :: ls, seen =>
    match Direction.ofLabel? l with
    | none | some .c => .error (.of .nowhere (.invalidNeighbor l))
    | some d =>
      if seen.contains d then .error (.of .nowhere (.repeatedNeighbor l))
      else neighbors ls (seen ++ [d])

/-- The neighborhood that holds exactly the directions with these labels, in any order. -/
def ofLabels (labels : List String) : Except Failure Neighborhood := do
  let k := labels.length
  unless k = 2 ∨ k = 4 ∨ k = 6 ∨ k = 8 do
    throw (.of .nowhere (.neighborhoodSize k))
  let seen ← neighbors labels []
  match all.find? fun nb => nb.size == k && nb.directions.all seen.contains with
  | some nb => return nb
  | none => throw (.of .nowhere (.unsupportedShape labels))

/-- Reads a name, or a list of directions with commas between them. -/
def parse (value : String) : Except Failure Neighborhood :=
  let listed := do
    let dirs ← (value.splitOn ",").mapM fun part =>
      (Direction.parse part).mapError (·.locate .syntaxInconsistency .nowhere)
    ofLabels (dirs.map (·.label))
  if value.contains ',' then listed
  else match named value with
    | .ok nb => .ok nb
    | .error _ => listed

/-- The position of a direction, counted from 0. -/
def index? (nb : Neighborhood) (d : Direction) : Option Nat := nb.directions.idxOf? d

/-- The position of a direction, counted from 1. -/
def ordinal? (nb : Neighborhood) (d : Direction) : Option Nat := (nb.index? d).map (· + 1)

/-- The direction at a position counted from 1, or backwards from -1. The least word is its own
negative, so it passes for a position although there is none so far back. -/
def dirAt (nb : Neighborhood) (position : Int64) : Outcome Direction :=
  let n := Int64.ofNat nb.size
  if 0 < position && position ≤ n then
    match nb.directions[position.toNatClampNeg - 1]? with
    | some d => .ok d
    | none => .error .crash
  else if position < 0 && -position ≤ n then
    match (n + position).toInt.toNat? >>= fun i => nb.directions[i]? with
    | some d => .ok d
    | none => .error .crash
  else .error (.refused (.of .nowhere (.positionOutside position.toInt nb.name)))

/-- Moves every value clockwise by so many positions. The difference is taken in 64-bit words. -/
def rotateBy (nb : Neighborhood) (offset : Int64) : Relabeling :=
  (List.range nb.size).map fun i => ((Int64.ofNat i - offset).toInt % nb.size).toNat

/-- The rotations through multiples of one `ways`-th of a turn, the identity first. -/
def rotationsBy (nb : Neighborhood) (ways : Int) : Except Failure (List Relabeling) :=
  if ways ≤ 0 ∨ (nb.size : Int) % ways ≠ 0 then
    .error (.of .nowhere (.rotationCount nb.name nb.size ways))
  else
    let step := nb.size / ways.toNat
    .ok ((List.range ways.toNat).map fun k => nb.rotateBy (Int64.ofNat (k * step)))

/-- The reflection that sends the direction at angle `x` to the one at `axis - x`, in eighths. -/
def reflection? (nb : Neighborhood) (axis : Int) : Option Relabeling :=
  nb.directions.mapM fun d => do
    let x ← d.eighth?
    let image ← Direction.compass[((axis - x) % 8).toNat]?
    nb.index? image

/-- The reflection across the line through `a` and `b`: equal or opposite directions give the line
through the center, adjacent ones the line between them. -/
def reflectAcross (nb : Neighborhood) (a b : String) : Except Failure Relabeling :=
  let angle l := (Direction.ofLabel? l).bind Direction.eighth?
  match angle a, angle b with
  | some x, some y =>
    let turn := ((y : Int) - x) % 8
    let across (axis : Int) : Except Failure Relabeling :=
      match nb.reflection? axis with
      | some p => .ok p
      | none => .error (.of .nowhere (.axisAsymmetric nb.name a b))
    if turn = 0 ∨ turn = 4 then across (2 * x)
    else if turn = 1 ∨ turn = 7 then across (x + y)
    else .error (.of .nowhere (.axisCrooked a b))
  | _, _ => .error (.of .nowhere (.axisOffCompass a b))

/-- The positions of the directions with these labels, appended to those already found. -/
def collectPositions (nb : Neighborhood) : List String → List Nat → Except Failure (List Nat)
  | [], found => .ok found
  | l :: ls, found =>
    match (Direction.ofLabel? l).bind nb.index? with
    | none => .error (.of .nowhere (.notAPosition l nb.name))
    | some i =>
      if found.contains i then .error (.of .nowhere (.repeatedDirection l))
      else nb.collectPositions ls (found ++ [i])

/-- The positions of the directions with these labels, in increasing order; no label at all means
every position. -/
def positions (nb : Neighborhood) (labels : List String) : Except Failure (List Nat) :=
  if labels.isEmpty then .ok (List.range nb.size)
  else (nb.collectPositions labels []).map (·.mergeSort)

/-- Every relabeling that moves only the directions with these labels. -/
def permutations (nb : Neighborhood) (labels : List String) : Except Failure (List Relabeling) :=
  (nb.positions labels).map (Relabeling.permuting nb.size)

end Neighborhood

end RuleTable
