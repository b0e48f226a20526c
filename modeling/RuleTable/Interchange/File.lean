import RuleTable.Interchange.Statement

/-!
Rule files in the interchange form: named sections of statements. A statement stands where its node
starts in the text.
-/

namespace RuleTable.Interchange

open Text Yaml

/-- The key that a value is taken for in a statement. -/
def keyText? : Datum → Option String
  | .null => some ""
  | d => text? d

/-- Replaces the value of a key, or adds the pair. -/
def put (pairs : Pairs) (key : String) (value : Datum) : Pairs :=
  if pairs.any (isField key ·.1) then
    pairs.map fun (k, v) => if isField key k then (k, value) else (k, v)
  else pairs ++ [(.text key, value)]

def putAll (pairs : Pairs) : Pairs → Option Pairs
  | [] => some pairs
  | (k, v) :: rest =>
    match keyText? k with
    | some key => putAll (put pairs key v) rest
    | none => none

mutual

/-- Adds the pairs of a statement: a mapping, or a list of such. -/
def gather (pairs : Pairs) : Datum → Option Pairs
  | .null => some pairs
  | .date .. => some pairs
  | .map more => putAll pairs more
  | .list ds => gatherAll pairs ds
  | _ => none

def gatherAll (pairs : Pairs) : List Datum → Option Pairs
  | [] => some pairs
  | d :: ds =>
    match gather pairs d with
    | some pairs => gatherAll pairs ds
    | none => none

end

/-- A section, its statements not looked at yet. -/
structure SectionFields where
  name : String
  statements : List Pairs

def section? (d : Datum) : Option SectionFields := do
  let pairs ← record? ["name", "statements"] d
  return {
    name := ← text? (pairs.get "name")
    statements := ← list? (gather []) (pairs.get "statements") }

def sections? (d : Datum) : Option (List SectionFields) := do
  let pairs ← record? ["sections"] d
  list? section? (pairs.get "sections")

/-- The pairs at the top of a file: keys are taken as they are written, and those without a value
are left out. -/
def topPairs? : List (Node × Node) → Option Pairs
  | [] => some []
  | (k, v) :: rest =>
    match Datum.ofNode? k, Datum.ofNode? v, topPairs? rest with
    | some key, some value, some pairs =>
      if k.isMerge then (value.pairs?).map (addPairs pairs)
      else match key with
        | .null => some pairs
        | .list _ | .map _ => none
        | _ => some ((.text k.text, value) :: pairs)
    | _, _, _ => none

/-- The value of a file: a mapping, or nothing. -/
def top? : Option Node → Option Datum
  | none => some .null
  | some (.mapping pairs _) =>
    if Node.anyClash (pairs.map (·.1)) then none else (topPairs? pairs).map .map
  | some (.scalar text plain _) =>
    if plain then
      match Datum.ofPlain text with
      | .null => some .null
      | _ => none
    else none
  | some (.sequence ..) => none

/-- A mark as a place, with lines and columns counted from one. -/
def placeOf (m : Mark) : Span :=
  let column : Int := m.column + 1
  ⟨m.line + 1, column, column⟩

def places (root : Option Node) : List (List Span) :=
  match root.bind (Node.get? "sections") with
  | none => []
  | some sections => sections.children.map fun s =>
    match s.get? "statements" with
    | none => []
    | some statements => statements.children.map fun node => placeOf node.mark

def statements (spans : List Span) : Nat → List Pairs → Except Failure (List Statement)
  | _, [] => .ok []
  | j, pairs :: rest => do
    let s ← statement ((spans[j]?).getD .nowhere) pairs
    return s :: (← statements spans (j + 1) rest)

def tables (spans : List (List Span)) : Nat → List SectionFields → Except Failure (List Table)
  | _, [] => .ok []
  | i, s :: rest =>
    match statements ((spans[i]?).getD []) 0 s.statements with
    | .error f => .error (.within (.tableSection s.name) f)
    | .ok list => do return ⟨s.name, list⟩ :: (← tables spans (i + 1) rest)

/-- The tables of a rule file whose tree is found by `read`. -/
def parseWith (read : String → Option (Option Node)) (source : String) :
    Except Failure (List Table) :=
  let fail (context : Context) : Except Failure (List Table) :=
    .error (.within context (.bare .undecodable))
  match read source with
  | none => fail .parsing
  | some root =>
    match top? root with
    | none => fail .parsing
    | some top =>
      match sections? top with
      | none => fail .decoding
      | some sections => tables (places root) 0 sections

def parse (source : String) : Except Failure (List Table) := parseWith Node.ofText? source

end RuleTable.Interchange
