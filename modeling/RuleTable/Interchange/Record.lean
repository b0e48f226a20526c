import RuleTable.Text.Case
import RuleTable.Yaml.Datum

/-!
Records read leniently from values: numbers and truth values where a text is wanted, texts where a
number is wanted, one value where a list is wanted. What is null, or left out, is zero or empty. The
keys of a record are known fields, written as they are or up to case.
-/

namespace RuleTable.Interchange

open Text Yaml

abbrev Pairs := List (Datum × Datum)

/-- The key is a field's name up to case. -/
def matchesField (name : String) : Datum → Bool
  | .text s => matchesWord s name
  | _ => false

def isField (name : String) : Datum → Bool
  | .text s => s == name
  | _ => false

namespace Pairs

/-- Which of the pairs belongs to a field: the one with its name, else the first up to case. -/
def index? (pairs : Pairs) (name : String) : Option Nat :=
  match pairs.findIdx? (isField name ·.1) with
  | some i => some i
  | none => pairs.findIdx? (matchesField name ·.1)

/-- The value of a field, null if it is left out. -/
def get (pairs : Pairs) (name : String) : Datum :=
  match pairs.index? name with
  | some i => (pairs[i]?.map (·.2)).getD .null
  | none => .null

/-- The value of a field is the value of a pair, or null. -/
theorem get_mem (pairs : Pairs) (name : String) :
    pairs.get name = .null ∨ ∃ k, (k, pairs.get name) ∈ pairs := by
  unfold get
  split
  · rename_i i _
    cases h : pairs[i]? with
    | none => exact .inl rfl
    | some p => exact .inr ⟨p.1, List.mem_of_getElem? h⟩
  · exact .inl rfl

/-- Every pair belongs to one of the fields. -/
def fits (pairs : Pairs) (names : List String) : Bool :=
  (names.filter fun name => (pairs.index? name).isSome).length == pairs.length

end Pairs

/-- The pairs of a record with these fields. Null has none, and neither has a date. -/
def record? (names : List String) : Datum → Option Pairs
  | .null | .date .. => some []
  | .map pairs => if Pairs.fits pairs names then some pairs else none
  | _ => none

def text? : Datum → Option String
  | .null => some ""
  | .text s => some s
  | .int n => some (toString n)
  | .float x => some (Decimal.positional x)
  | .bool b => some (if b then "1" else "0")
  | _ => none

/-- Reads a signed word. A whole number that is too large wraps around. -/
def word? : Datum → Option Int
  | .null => some 0
  | .int n => some (Int64.ofInt n).toInt
  | .float x => some (Decimal.toWord x)
  | .bool b => some (if b then 1 else 0)
  | .text s => if s = "" then some 0 else (readSigned .literal s.toList).toOption
  | _ => none

/-- The items of a list: an empty mapping has none, any other single value is one. -/
def items : Datum → List Datum
  | .null | .map [] => []
  | .list ds => ds
  | d => [d]

/-- The items of a value are no larger than it. -/
theorem sizeOf_items {x d : Datum} (h : x ∈ items d) : sizeOf x ≤ sizeOf d := by
  unfold items at h
  split at h
  · cases h
  · cases h
  · have := List.sizeOf_lt_of_mem h
    simp only [Datum.list.sizeOf_spec]
    omega
  · exact Nat.le_of_eq (congrArg sizeOf (List.mem_singleton.1 h))

/-- The items in a field of a record are smaller than the record. -/
theorem sizeOf_field {names : List String} {d x : Datum} {pairs : Pairs} {name : String}
    (h : record? names d = some pairs) (hx : x ∈ items (pairs.get name)) : sizeOf x < sizeOf d := by
  rcases pairs.get_mem name with hn | ⟨k, hk⟩
  · rw [hn] at hx
    cases hx
  · have hle := sizeOf_items hx
    have hlt := List.sizeOf_lt_of_mem hk
    simp only [Prod.mk.sizeOf_spec] at hlt
    unfold record? at h
    split at h
    · cases h
      cases hk
    · cases h
      cases hk
    · split at h
      · cases h
        simp only [Datum.map.sizeOf_spec]
        omega
      · cases h
    · cases h

def list? (read : Datum → Option α) (d : Datum) : Option (List α) := (items d).mapM read

end RuleTable.Interchange
