import RuleTable.Symmetry.Registry

/-!
The symmetry classes that a simulator knows by name, for each neighborhood.
-/

namespace RuleTable

inductive Recipe
  | none
  | rotate (ways : Int)
  | reflect (a b : Direction)
  | rotateReflect (ways : Int) (a b : Direction)
  | permute
  deriving DecidableEq, Repr

/-- The classes of a neighborhood, weakest first. -/
def Neighborhood.classes : Neighborhood → List (String × Recipe)
  | .moore => [
      ("none", .none),
      ("reflect_horizontal", .reflect .n .s),
      ("rotate4", .rotate 4),
      ("rotate8", .rotate 8),
      ("rotate4reflect", .rotateReflect 4 .n .s),
      ("rotate8reflect", .rotateReflect 8 .n .s),
      ("permute", .permute)]
  | .vonNeumann => [
      ("none", .none),
      ("reflect_horizontal", .reflect .n .s),
      ("rotate4", .rotate 4),
      ("rotate4reflect", .rotateReflect 4 .n .s),
      ("permute", .permute)]
  | .hexagonal => [
      ("none", .none),
      ("rotate2", .rotate 2),
      ("rotate3", .rotate 3),
      ("rotate6", .rotate 6),
      ("rotate6reflect", .rotateReflect 6 .se .nw),
      ("permute", .permute)]
  | .oneDimensional => [
      ("none", .none),
      ("reflect", .reflect .n .s),
      ("permute", .permute)]

/-- The class of all rotations and reflections of the neighborhood. -/
def Neighborhood.dihedral : Neighborhood → String
  | .moore => "rotate8reflect"
  | .vonNeumann => "rotate4reflect"
  | .hexagonal => "rotate6reflect"
  | .oneDimensional => "reflect"

def Neighborhood.recipe? (nb : Neighborhood) (name : String) : Option Recipe :=
  nb.classes.lookup name

/-- The group that a type generates. -/
def Symmetry.groupAround (t : Symmetry) : Presentation :=
  match t.groups? with
  | some groups => .free groups
  | Option.none => .generated t.generators

namespace Registry

/-- Makes a class from its parts. -/
def prepare (nb : Neighborhood) : Recipe → RegistryM Symmetry
  | .none => none nb
  | .rotate ways => rotate nb ways
  | .reflect a b => reflect nb a.label b.label
  | .rotateReflect ways a b => do
    let turns ← rotate nb ways
    let flip ← reflect nb a.label b.label
    compose [turns, flip]
  | .permute => permute nb []

/-- The class of that name, in any case and between blanks. -/
def named (nb : Neighborhood) (name : String) : RegistryM Symmetry := do
  let name := Text.lower (Text.trim name)
  match nb.recipe? name with
  | Option.none => refuse .nowhere (.unsupportedSymmetry name nb.name)
  | some recipe =>
    memo nb ("class:" ++ name) do
      let base ← prepare nb recipe
      return { name := name, neighborhood := nb, presentation := base.groupAround }

/-- Every class of the neighborhood, weakest first. -/
def classes (nb : Neighborhood) : RegistryM (List Symmetry) :=
  nb.classes.mapM fun (name, _) => named nb name

def supports (nb : Neighborhood) (name : String) : RegistryM Bool :=
  tryCatch (do let _ ← named nb name; return true) fun _ => return false

/-- Every relabeling of the type is a rotation or a reflection of the neighborhood. -/
def geometric (t : Symmetry) : RegistryM Bool := do
  let full ← named t.neighborhood t.neighborhood.dihedral
  return t.subsetOf full

end Registry

end RuleTable
