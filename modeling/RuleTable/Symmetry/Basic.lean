import RuleTable.Geometry.Neighborhood
import RuleTable.Symmetry.Group

/-!
Symmetry types: sets of relabelings of one neighborhood, given by generators, by a list, or by
groups of positions that may be permuted freely. The members are worked out on first use.
-/

namespace RuleTable

inductive Presentation
  /-- all products of these -/
  | generated (gens : List Relabeling)
  /-- these and the identity -/
  | listed (members : List Relabeling)
  /-- all permutations within each group of positions -/
  | free (groups : List (List Nat))
  deriving DecidableEq, Repr

/-- The relabelings of `n` positions that are meant, the identity first. -/
def Presentation.members (n : Nat) : Presentation → Distinct Relabeling
  | .generated gens => Relabeling.closure n gens
  | .listed members => Relabeling.listed n members
  | .free groups => Relabeling.closure n (Relabeling.transpositions n groups)

/-- A set of relabelings bound to a neighborhood. Within a registry the key identifies it. -/
structure Symmetry where
  name : String
  key : String := ""
  neighborhood : Neighborhood
  presentation : Presentation
  members : Thunk (Distinct Relabeling) :=
    Thunk.mk fun _ => presentation.members neighborhood.size
  members_eq : members.get = presentation.members neighborhood.size := by rfl

namespace Symmetry

/-- Every relabeling, the identity first. -/
def relabelings (t : Symmetry) : List Relabeling := t.members.get.toList

def order (t : Symmetry) : Nat := t.members.get.size

def contains (t : Symmetry) (p : Relabeling) : Bool := t.members.get.contains p

/-- The groups of positions that a freely permuting type permutes. -/
def groups? (t : Symmetry) : Option (List (List Nat)) :=
  match t.presentation with
  | .free groups => some groups
  | _ => none

/-- The type permutes groups of positions freely. -/
def isFree (t : Symmetry) : Bool := t.groups?.isSome

/-- Relabelings whose products are those of the type, or of the group around it. -/
def generators (t : Symmetry) : List Relabeling :=
  match t.presentation with
  | .generated gens => gens
  | .listed _ => t.relabelings
  | .free groups => Relabeling.transpositions t.neighborhood.size groups

/-- Every relabeling of `t` belongs to `u`, on the same neighborhood. -/
def subsetOf (t u : Symmetry) : Bool :=
  t.neighborhood == u.neighborhood && t.order ≤ u.order && t.relabelings.all u.contains

/-- The types have the same relabelings. -/
def equivalent (t u : Symmetry) : Bool := t.order == u.order && t.subsetOf u

end Symmetry

end RuleTable
