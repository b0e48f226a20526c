import RuleTable.Section.Basic
import RuleTable.States.Scope
import RuleTable.Transition.Row

/-!
Writing rows as lines. A variable that stands more than once in a line for different states gets a
suffix for each occurrence, and is declared as often as one line needs it.
-/

namespace RuleTable

/-- How often the lines so far need each variable, by name. -/
abbrev Copies := Std.HashMap String Nat

/-- The suffixes given out in a line: by origin, and how many by variable. -/
structure Suffixes where
  byOrigin : List (Int × Nat) := []
  used : List (String × Nat) := []

namespace Suffixes

/-- The suffix of a variable's occurrence: the one its origin has, or the variable's next. -/
def assign (s : Suffixes) (v : Variable) (origin : Int) : Nat × Suffixes :=
  match s.byOrigin.lookup origin with
  | some k => (k, s)
  | none =>
    let k := (s.used.lookup v.name).getD 0
    (k, { byOrigin := (origin, k) :: s.byOrigin, used := (v.name, k + 1) :: s.used })

end Suffixes

/-- The fields of a line from the values of a row. -/
def Row.fields : Row → Suffixes → Copies → List String × Copies
  | [], _, copies => ([], copies)
  | .state s _ _ :: rest, suffixes, copies =>
    let (fields, copies) := Row.fields rest suffixes copies
    (toString s :: fields, copies)
  | .free v origin :: rest, suffixes, copies =>
    let (k, suffixes) := suffixes.assign v origin
    let copies := copies.insert v.name (max (copies.getD v.name 0) (k + 1))
    let (fields, copies) := Row.fields rest suffixes copies
    (s!"{v.name}.{k}" :: fields, copies)

def Row.render (row : Row) (copies : Copies) : String × Copies :=
  let (fields, copies) := row.fields {} copies
  (",".intercalate fields, copies)

/-- The lines written so far, where each text stands among them, and what was left out. -/
structure Listing where
  lines : Array Line := #[]
  places : Std.HashMap String Nat := ∅
  copies : Copies := ∅
  duplicates : Nat := 0

namespace Listing

/-- Writes a row. A line that is there already only learns where else it came from. -/
def add (l : Listing) (span : Span) (row : Row) : Listing :=
  let (text, copies) := row.render l.copies
  match l.places[text]? with
  | some i =>
    { l with
      lines := l.lines.modify i fun line =>
        if line.spans.contains span then line else { line with spans := line.spans ++ [span] }
      copies := copies
      duplicates := l.duplicates + 1 }
  | none =>
    { l with
      lines := l.lines.push ⟨text, [span]⟩
      places := l.places.insert text l.lines.size
      copies := copies }

/-- The declarations of the variables that the lines use, those with names of their own first. -/
def declarations (l : Listing) (scope : Scope) : List String :=
  let all := scope.vars.toList.flatMap fun v =>
    (List.range (l.copies.getD v.name 0)).map fun k =>
      (v.anonymous, s!"var {v.name}.{k} = {v.states.text}")
  (all.filter (!·.1)).map (·.2) ++ (all.filter (·.1)).map (·.2)

end Listing

end RuleTable
