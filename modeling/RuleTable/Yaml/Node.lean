import RuleTable.Yaml.Token

/-!
The tree of a YAML text: scalars, sequences and mappings, each with the place where it starts.
-/

namespace RuleTable.Yaml

/-- A value as it is written. -/
inductive Node
  | scalar (text : String) (plain : Bool) (mark : Mark)
  | sequence (items : List Node) (mark : Mark)
  | mapping (pairs : List (Node × Node)) (mark : Mark)
  deriving Repr, Inhabited

namespace Node

def mark : Node → Mark
  | .scalar _ _ m | .sequence _ m | .mapping _ m => m

def blank (m : Mark) : Node := .scalar "" true m

def text : Node → String
  | .scalar text _ _ => text
  | _ => ""

/-- The nodes directly inside a node, keys and values alike. -/
def children : Node → List Node
  | .scalar .. => []
  | .sequence items _ => items
  | .mapping pairs _ => pairs.flatMap fun (k, v) => [k, v]

def get? (key : String) : Node → Option Node
  | .mapping pairs _ => (pairs.find? fun (k, _) => k.text == key).map (·.2)
  | _ => none

end Node

namespace Tokens

/-- The next token. A text that breaks off within the next three tokens has none. -/
def peek (ts : Tokens) : Option Token :=
  match ts.list with
  | [] => none
  | t :: _ :: _ :: _ => some t
  | t :: _ => if ts.broken then none else some t

def tail (ts : Tokens) : Tokens := { ts with list := ts.list.tail }

def starts (ts : Tokens) (lexemes : List Lexeme) : Option Bool :=
  ts.peek.map fun t => lexemes.contains t.lexeme

mutual

/-- Reads a node. Block collections and sequences without indentation of their own are only
allowed where they are said to be. `fuel` bounds the number of steps. -/
def node : Nat → Bool → Bool → Tokens → Option (Node × Tokens)
  | 0, _, _, _ => none
  | fuel + 1, block, level, ts => do
    let t ← ts.peek
    match t.lexeme with
    | .scalar text plain => return (.scalar text plain t.start, ts.tail)
    | .flowSequence =>
      let (items, ts) ← flowItems fuel true ts.tail
      return (.sequence items t.start, ts)
    | .flowMapping =>
      let (pairs, ts) ← flowPairs fuel true ts.tail
      return (.mapping pairs t.start, ts)
    | .blockSequence =>
      if !block then failure
      let (items, ts) ← blockItems fuel ts.tail
      return (.sequence items t.start, ts)
    | .blockMapping =>
      if !block then failure
      let (pairs, ts) ← blockPairs fuel ts.tail
      return (.mapping pairs t.start, ts)
    | .item =>
      if !level then failure
      let (items, ts) ← levelItems fuel ts
      return (.sequence items t.start, ts)
    | _ => failure

/-- Reads the items of a block sequence and its end. -/
def blockItems : Nat → Tokens → Option (List Node × Tokens)
  | 0, _ => none
  | fuel + 1, ts => do
    let t ← ts.peek
    match t.lexeme with
    | .blockEnd => return ([], ts.tail)
    | .item =>
      let (item, ts) ← nodeUnless fuel [.item, .blockEnd] t.stop false ts.tail
      let (items, ts) ← blockItems fuel ts
      return (item :: items, ts)
    | _ => failure

/-- Reads the items of a sequence that is not indented; it ends where no item follows. -/
def levelItems : Nat → Tokens → Option (List Node × Tokens)
  | 0, _ => none
  | fuel + 1, ts => do
    let t ← ts.peek
    match t.lexeme with
    | .item =>
      let (item, ts) ← nodeUnless fuel [.item, .key, .value, .blockEnd] t.stop false ts.tail
      let (items, ts) ← levelItems fuel ts
      return (item :: items, ts)
    | _ => return ([], ts)

/-- Reads a node in block context, or takes it as left out if one of the tokens follows. -/
def nodeUnless : Nat → List Lexeme → Mark → Bool → Tokens → Option (Node × Tokens)
  | 0, _, _, _, _ => none
  | fuel + 1, stops, m, level, ts => do
    if ← ts.starts stops then return (.blank m, ts) else node fuel true level ts

/-- Reads the pairs of a block mapping and its end. -/
def blockPairs : Nat → Tokens → Option (List (Node × Node) × Tokens)
  | 0, _ => none
  | fuel + 1, ts => do
    let t ← ts.peek
    match t.lexeme with
    | .blockEnd => return ([], ts.tail)
    | .key =>
      let (key, ts) ← nodeUnless fuel [.key, .value, .blockEnd] t.stop true ts.tail
      let t ← ts.peek
      let (value, ts) ← if t.lexeme = .value then
          nodeUnless fuel [.key, .value, .blockEnd] t.stop true ts.tail
        else some (.blank t.start, ts)
      let (pairs, ts) ← blockPairs fuel ts
      return ((key, value) :: pairs, ts)
    | _ => failure

/-- Reads the items of a sequence in brackets and its end. All but the first follow a comma. -/
def flowItems : Nat → Bool → Tokens → Option (List Node × Tokens)
  | 0, _, _ => none
  | fuel + 1, first, ts => do
    let t ← ts.peek
    if t.lexeme = .flowSequenceEnd then return ([], ts.tail)
    let ts ← if first then some ts else if t.lexeme = .comma then some ts.tail else none
    let t ← ts.peek
    match t.lexeme with
    | .flowSequenceEnd => return ([], ts.tail)
    | .key =>
      let (pair, ts) ← flowPair fuel ts.tail
      let (items, ts) ← flowItems fuel false ts
      return (.mapping [pair] t.start :: items, ts)
    | _ =>
      let (item, ts) ← node fuel false false ts
      let (items, ts) ← flowItems fuel false ts
      return (item :: items, ts)

/-- Reads a mapping of one pair that stands for an item of a sequence in brackets. -/
def flowPair : Nat → Tokens → Option ((Node × Node) × Tokens)
  | 0, _ => none
  | fuel + 1, ts => do
    let t ← ts.peek
    let (key, ts) ← if [.value, .comma, .flowSequenceEnd].contains t.lexeme then
        some (.blank t.stop, ts.tail)
      else node fuel false false ts
    let (value, ts) ← flowValue fuel .flowSequenceEnd ts
    return ((key, value), ts)

/-- Reads a colon and the value after it. Both may be left out. -/
def flowValue : Nat → Lexeme → Tokens → Option (Node × Tokens)
  | 0, _, _ => none
  | fuel + 1, last, ts => do
    let t ← ts.peek
    if t.lexeme ≠ .value then return (.blank t.start, ts)
    let ts := ts.tail
    let t ← ts.peek
    if t.lexeme = .comma ∨ t.lexeme = last then return (.blank t.start, ts)
    node fuel false false ts

/-- Reads the pairs of a mapping in braces and its end. All but the first follow a comma. -/
def flowPairs : Nat → Bool → Tokens → Option (List (Node × Node) × Tokens)
  | 0, _, _ => none
  | fuel + 1, first, ts => do
    let t ← ts.peek
    if t.lexeme = .flowMappingEnd then return ([], ts.tail)
    let ts ← if first then some ts else if t.lexeme = .comma then some ts.tail else none
    let t ← ts.peek
    match t.lexeme with
    | .flowMappingEnd => return ([], ts.tail)
    | .key =>
      let ts := ts.tail
      let t ← ts.peek
      let (key, ts) ← if [.value, .comma, .flowMappingEnd].contains t.lexeme then
          some (.blank t.start, ts)
        else node fuel false false ts
      let (value, ts) ← flowValue fuel .flowMappingEnd ts
      let (pairs, ts) ← flowPairs fuel false ts
      return ((key, value) :: pairs, ts)
    | _ =>
      let (key, ts) ← node fuel false false ts
      let t ← ts.peek
      let (pairs, ts) ← flowPairs fuel false ts
      return ((key, .blank t.start) :: pairs, ts)

end

/-- Reads the first document, which may be empty. What follows it is not looked at. -/
def document (ts : Tokens) : Option (Option Node) := do
  let fuel := 4 * ts.list.length + 4
  let t ← ts.peek
  match t.lexeme with
  | .textEnd => return none
  | .documentStart =>
    let ts := ts.tail
    let t ← ts.peek
    if [.documentStart, .documentEnd, .textEnd].contains t.lexeme then
      return some (.blank t.start)
    let (root, ts) ← node fuel true false ts
    let _ ← ts.peek
    return some root
  | _ =>
    let (root, ts) ← node fuel true false ts
    let _ ← ts.peek
    return some root

end Tokens

/-- The tree of a text's first document. An empty text has none; a malformed one is refused, and so
is one with anchors, aliases, tags, directives or block scalars. -/
def Node.ofText? (text : String) : Option (Option Node) := (Tokens.ofText text).document

end RuleTable.Yaml
