import RuleTable.Failure

/-!
State lists: sequences of cell states, in which repeats count.
-/

namespace RuleTable

abbrev StateList := List Int

/-- The greatest length that a list can have. -/
def greatestLength : Nat := 35184372088832

namespace StateList

/-- `n` copies, one after the other. There must be at least one. -/
def times (l : StateList) (n : Int) : Outcome (Option StateList) :=
  if n < 1 then .ok none
  else if l.isEmpty then .ok (some [])
  else if greatestLength < l.length * n.toNat then .error .crash
  else .ok (some (List.replicate n.toNat l).flatten)

/-- Copies one after the other up to length `n`. Nothing can be made of the empty list. -/
def cycle (l : StateList) (n : Int) : Outcome StateList :=
  if l.isEmpty then .ok []
  else if n < 0 || greatestLength < n.toNat then .error .crash
  else .ok ((List.range n.toNat).map fun i => l.getD (i % l.length) 0)

def minus (l other : StateList) : StateList := l.filter fun s => !other.contains s

def complement (l every : StateList) : StateList := minus every l

/-- Where the `i`-th state of a list of length `n` goes in a shift by `k`. The sum is taken in
64-bit words. -/
def shiftTarget (n : Nat) (k : Int64) (i : Nat) : Nat := ((Int64.ofNat i + k).toInt % n).toNat

/-- Shifts by `k` places to the right, round the end. A place that no state reaches holds 0. -/
def shift (l : StateList) (k : Int64) : StateList :=
  l.zipIdx.foldl (fun out (s, i) => out.set (shiftTarget l.length k i) s)
    (List.replicate l.length 0)

def unique? : StateList → Option Int
  | [] => none
  | s :: rest => if rest.all (· == s) then some s else none

def key (l : StateList) : String := Text.commas l

def text (l : StateList) : String := Text.braced l

end StateList

end RuleTable
