import RuleTable.Symmetry.Basic
import Std.Data.HashMap

/-!
The registry of symmetry types: each is built once and then found again by its key. What a key
denotes is settled by whoever builds it first, down to the order of its generators.
-/

namespace RuleTable

/-- The symmetry types built so far, and the classes found for combinations of them. -/
structure Registry where
  types : Std.HashMap String Symmetry := ∅
  chosen : Std.HashMap String Symmetry := ∅

/-- A computation on a registry. What it has stored stays, also when it stops. -/
abbrev RegistryM := ExceptT Stop (StateM Registry)

namespace Registry

/-- The type under a key of the neighborhood, built now if nobody has asked before. -/
def memo (nb : Neighborhood) (name : String) (build : RegistryM Symmetry) : RegistryM Symmetry := do
  let key := nb.name ++ "/" ++ name
  match (← get).types[key]? with
  | some t => return t
  | none =>
    let t := { (← build) with key := key }
    modify fun r => { r with types := r.types.insert key t }
    return t

/-- The identity alone. -/
def none (nb : Neighborhood) : RegistryM Symmetry :=
  memo nb "none" (pure { name := "none", neighborhood := nb, presentation := .generated [] })

/-- The rotations through multiples of one `ways`-th of a turn. -/
def rotate (nb : Neighborhood) (ways : Int) : RegistryM Symmetry :=
  let name := s!"rotate{ways}"
  memo nb name do
    let rotations ← nb.rotationsBy ways
    return { name := name, neighborhood := nb, presentation := .generated rotations }

/-- The reflection across `a` and `b`, and the identity. -/
def reflect (nb : Neighborhood) (a b : String) : RegistryM Symmetry :=
  let name := s!"reflect({a},{b})"
  memo nb name do
    let p ← nb.reflectAcross a b
    return { name := name, neighborhood := nb, presentation := .generated [p] }

def permuteName (nb : Neighborhood) (positions : List Nat) : String :=
  if positions.length = nb.size then "permute"
  else
    let names := positions.filterMap fun i => nb.directions[i]?.map (·.label)
    "permute(" ++ ",".intercalate names ++ ")"

/-- All permutations of the given directions, or of all if none is given. -/
def permute (nb : Neighborhood) (labels : List String) : RegistryM Symmetry := do
  let positions ← nb.positions labels
  let name := permuteName nb positions
  let groups := if positions.length > 1 then [positions] else []
  memo nb name (pure { name := name, neighborhood := nb, presentation := .free groups })

/-- The neighborhood that all the types are bound to. -/
def commonNeighborhood : List Symmetry → Except Failure Neighborhood
  | [] => .error (.of .nowhere .noSymmetries)
  | t :: ts =>
    match ts.find? (·.neighborhood != t.neighborhood) with
    | some u => .error (.of .nowhere
        (.mixedNeighborhoods u.name u.neighborhood.name t.neighborhood.name))
    | Option.none => .ok t.neighborhood

def sortedNames (ts : List Symmetry) : String :=
  ",".intercalate (ts.map (·.name)).eraseDups.mergeSort

/-- All products of relabelings of the types. Freely permuted groups are united. -/
def composition (ts : List Symmetry) : Presentation :=
  match ts.mapM (·.groups?) with
  | some groups => .free (Groups.merge groups.flatten)
  | Option.none => .generated (ts.flatMap (·.generators))

/-- The group that the types generate. A type alone is itself. -/
def compose (ts : List Symmetry) : RegistryM Symmetry := do
  let nb ← commonNeighborhood ts
  match ts with
  | [t] => return t
  | _ =>
    let name := "compose(" ++ sortedNames ts ++ ")"
    memo nb name (pure { name := name, neighborhood := nb, presentation := composition ts })

/-- The union of the types, which need not be a group. A type alone is itself. -/
def combine (ts : List Symmetry) : RegistryM Symmetry := do
  let nb ← commonNeighborhood ts
  match ts with
  | [t] => return t
  | _ =>
    let name := "combine(" ++ sortedNames ts ++ ")"
    memo nb name
      (pure {
        name := name, neighborhood := nb, presentation := .listed (ts.flatMap (·.relabelings)) })

end Registry

end RuleTable
