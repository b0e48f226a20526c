import RuleTable.Transition.Resolve

/-!
Rows: the concrete transitions of a layout. Slots are resolved from left to right, references first;
where a mapping needs to know a variable's state, the row is split into one for each state.
-/

namespace RuleTable

abbrev Row := List Value

/-- A text that tells rows apart. -/
def Row.key (row : Row) : String := ",".intercalate (row.map Value.key)

/-- The rows whose keys occur for the first time. -/
def Row.distinct (rows : List Row) : List Row :=
  (rows.foldl
    (fun (seen, out) row =>
      if seen.contains row.key then (seen, out) else (seen.insert row.key, out.push row))
    ((∅ : Std.HashSet String), (#[] : Array Row))).2.toList

namespace Cell

/-- The values known so far, by slot. -/
abbrev Slots := Array (Option Value)

inductive Progress
  | settled (values : Slots)
  /-- this variable, which belongs to slot `origin`, must be split into its states -/
  | split (v : Variable) (origin : Int)

def valueAt (values : Slots) (slot : Int) : Option Value :=
  slot.toNat? >>= fun i => (values[i]?).join

/-- Goes on with the values known so far, unless a split comes first. -/
def Progress.andThen (p : Progress) (next : Slots → ScopeM Progress) : ScopeM Progress :=
  match p with
  | .settled values => next values
  | .split v origin => return .split v origin

/-- Enters what the cell of slot `i` resolves to. The next state, in slot `last`, cannot be a
variable of its own. -/
def enter (last : Nat) (span : Span) (values : Slots) (i : Nat) : Resolution → ScopeM Progress
  | .split slot =>
    match valueAt values slot with
    | some (.free v origin) => return .split v origin
    | _ => throw .crash
  | .value v => do
    match v with
    | .free w origin =>
      if i = last ∧ origin = i then refuse span (.freeResultant w.states.text)
    | .state _ _ _ => pure ()
    return .settled (values.set! i (some v))

/-- Resolves the cell of slot `i` when the slot it refers to is known. -/
def settleCell (last : Nat) (span : Span) (values : Slots) (i : Nat) (c : Cell) :
    ScopeM Progress := do
  enter last span values i (← locating .valueRange span (c.resolve (valueAt values) i))

/-- Resolves slot `i` after the slots it depends on. `path` are the slots waiting for it, and
`depth` bounds their number. -/
def settle (cells : Array Cell) (span : Span) :
    (depth : Nat) → (path : List Nat) → Slots → Nat → ScopeM Progress
  | 0, _, _, _ => throw .crash
  | depth + 1, path, values, i => do
    if (valueAt values i).isSome then return .settled values
    if path.contains i then
      throw (.refused ((Failure.bare (.circularReference i)).locate .undefinedReference span))
    let some c := cells[i]? | throw .crash
    match c.ref? with
    | none => settleCell (cells.size - 1) span values i c
    | some ref =>
      if ref < 0 ∨ (cells.size : Int) - 1 ≤ ref then refuse span (.notANapkinSlot ref)
      (← settle cells span depth (i :: path) values ref.toNat).andThen fun values =>
        settleCell (cells.size - 1) span values i c

/-- Resolves the given slots in turn, up to the first that needs a split. -/
def settleAll (cells : Array Cell) (span : Span) : List Nat → Slots → ScopeM Progress
  | [], values => return .settled values
  | i :: rest, values => do
    (← settle cells span (cells.size + 1) [] values i).andThen fun values =>
      settleAll cells span rest values

/-- The rows of a layout. Each split makes one more cell a literal, so there are at most `splits`
of them in a row. -/
def branch (span : Span) : (splits : Nat) → List Cell → ScopeM (List Row)
  | 0, _ => throw .crash
  | splits + 1, cells => do
    let slots := cells.toArray
    match ← settleAll slots span (List.range cells.length) (Array.replicate cells.length none) with
    | .settled values => return [values.toList.filterMap id]
    | .split v origin =>
      let rows ← v.states.zipIdx.mapM fun (s, k) =>
        branch span splits (cells.set origin.toNat (.literal s (some ⟨v, k⟩)))
      return rows.flatten

def expand (cells : List Cell) (span : Span) : ScopeM (List Row) := do
  let rows ← branch span ((cells.filter (!·.isLiteral)).length + 1) cells
  return Row.distinct rows

end Cell

end RuleTable
