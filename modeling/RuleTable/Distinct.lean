import Std.Data.HashSet

/-!
Lists without repeats that remember in which order their elements came, with fast membership.
-/

namespace RuleTable

/-- The elements in order of arrival, and the same elements as a set. -/
structure Distinct (α : Type) [BEq α] [Hashable α] where
  items : Array α := #[]
  seen : Std.HashSet α := ∅

namespace Distinct

variable {α : Type} [BEq α] [Hashable α]

def empty : Distinct α := {}

def contains (d : Distinct α) (a : α) : Bool := d.seen.contains a

/-- Adds an element at the end, unless it is there already. -/
def insert (d : Distinct α) (a : α) : Distinct α :=
  if d.seen.contains a then d else { items := d.items.push a, seen := d.seen.insert a }

/-- The elements of a list, each where it first occurs. -/
def ofList (xs : List α) : Distinct α := xs.foldl insert empty

def size (d : Distinct α) : Nat := d.items.size

def toList (d : Distinct α) : List α := d.items.toList

end Distinct

end RuleTable
