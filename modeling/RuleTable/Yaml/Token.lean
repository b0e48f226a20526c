import RuleTable.Yaml.Scalar

/-!
The tokens of a YAML text. Block structure is told by indentation and shows as tokens that open and
close a collection; that a scalar is a key is only known at the colon after it, and then its token
is preceded by one that says so.
-/

namespace RuleTable.Yaml

/-- What a token is. -/
inductive Lexeme
  | documentStart
  | documentEnd
  | textEnd
  | blockSequence
  | blockMapping
  | blockEnd
  | flowSequence
  | flowSequenceEnd
  | flowMapping
  | flowMappingEnd
  /-- the dash of an item -/
  | item
  | comma
  | key
  | value
  | scalar (text : String) (plain : Bool)
  deriving DecidableEq, Repr

structure Token where
  lexeme : Lexeme
  start : Mark
  stop : Mark
  deriving Repr

/-- The tokens of a text, as far as it has any: `broken` says that it could not be read further. -/
structure Tokens where
  list : List Token
  broken : Bool

/-- A token that may turn out to be a key. -/
structure Candidate where
  /-- it is the only thing that can stand here -/
  required : Bool
  /-- how many tokens come before it -/
  position : Nat
  mark : Mark

/-- A text under way. -/
structure Scanner where
  rest : List Char
  mark : Mark := {}
  /-- the tokens so far, the last one first -/
  tokens : List Token := []
  /-- how many there are -/
  count : Nat := 0
  /-- the candidate of the innermost collection -/
  candidate : Option Candidate := none
  /-- those of the collections in brackets around it -/
  outer : List (Option Candidate) := []
  /-- the column of the innermost block collection -/
  indent : Option Nat := none
  /-- those around it -/
  indents : List (Option Nat) := []
  /-- a key may start here -/
  keyAllowed : Bool := true

namespace Scanner

def inFlow (s : Scanner) : Bool := !s.outer.isEmpty

/-- The column is to the right of the innermost block collection. -/
def isDeeper (s : Scanner) (column : Nat) : Bool :=
  match s.indent with
  | none => true
  | some i => i < column

def emit (s : Scanner) (lexeme : Lexeme) (start stop : Mark) : Scanner :=
  { s with tokens := ⟨lexeme, start, stop⟩ :: s.tokens, count := s.count + 1 }

def emitAt (s : Scanner) (position : Nat) (lexeme : Lexeme) (mark : Mark) : Scanner :=
  let later := s.count - position
  { s with
    tokens := s.tokens.take later ++ ⟨lexeme, mark, mark⟩ :: s.tokens.drop later
    count := s.count + 1 }

/-- Adds a token of so many characters that stand here. -/
def take (s : Scanner) (width : Nat) (lexeme : Lexeme) : Scanner :=
  let stop : Mark := ⟨s.mark.index + width, s.mark.line, s.mark.column + width⟩
  { s.emit lexeme s.mark stop with rest := s.rest.drop width, mark := stop }

/-- Opens a block collection at a column, unless one is open there. -/
def openBlock (s : Scanner) (column position : Nat) (lexeme : Lexeme) (mark : Mark) : Scanner :=
  if !s.inFlow && s.isDeeper column then
    { s with indents := s.indent :: s.indents, indent := some column }.emitAt position lexeme mark
  else s

/-- Closes the block collections that have more columns than `column` to their left. -/
def closeFrom (column : Option Nat) : List (Option Nat) → Scanner → Scanner
  | [], s => s
  | outer :: indents, s =>
    let isOpen := match s.indent, column with
      | none, _ => false
      | some _, none => true
      | some i, some c => c < i
    if isOpen then
      let s := s.emit .blockEnd s.mark s.mark
      closeFrom column indents { s with indent := outer, indents := indents }
    else s

/-- Closes the block collections that end before a column, or all of them. -/
def close (s : Scanner) (column : Option Nat) : Scanner :=
  if s.inFlow then s else closeFrom column s.indents s

/-- Gives up the candidate for a key. One that had to be a key is an error. -/
def dropCandidate (s : Scanner) : Option Scanner :=
  match s.candidate with
  | some c => if c.required then none else some { s with candidate := none }
  | none => some s

def saveCandidate (s : Scanner) : Option Scanner :=
  if s.keyAllowed then do
    let s ← s.dropCandidate
    let required := !s.inFlow && s.indent == some s.mark.column
    return { s with candidate := some ⟨required, s.count, s.mark⟩ }
  else some s

/-- The candidate, if it can still be a key: on the same line and within 1024 characters. One that
had to be a key and cannot be one any more is an error. -/
def currentCandidate (s : Scanner) : Option (Option Candidate) :=
  match s.candidate with
  | none => some none
  | some c =>
    if c.mark.line < s.mark.line || c.mark.index + 1024 < s.mark.index then
      if c.required then none else some none
    else some (some c)

/-- Skips blanks, comments and line breaks. Tabs count as blanks where no key can start. After a
line break outside of brackets a key may start. -/
def skipFrom (inFlow : Bool) : List Char → Mark → Bool → Bool → List Char × Mark × Bool
  | [], m, _, allowed => ([], m, allowed)
  | c :: cs, m, comment, allowed =>
    if isBreak c then skipFrom inFlow cs m.newLine false (allowed || !inFlow)
    else if comment then skipFrom inFlow cs m.next true allowed
    else if c == '\ufeff' && m.column == 0 then skipFrom inFlow cs m.next false allowed
    else if c == ' ' || (c == '\t' && (inFlow || !allowed)) then
      skipFrom inFlow cs m.next false allowed
    else if c == '#' then skipFrom inFlow cs m.next true allowed
    else (c :: cs, m, allowed)

def skip (s : Scanner) : Scanner :=
  let (rest, mark, allowed) := skipFrom s.inFlow s.rest s.mark false s.keyAllowed
  { s with rest := rest, mark := mark, keyAllowed := allowed }

def fetchEnd (s : Scanner) : Option Scanner := do
  let s ← (s.close none).dropCandidate
  return s.emit .textEnd s.mark s.mark

def fetchDocument (s : Scanner) (lexeme : Lexeme) : Option Scanner := do
  let s ← (s.close none).dropCandidate
  return { s with keyAllowed := false }.take 3 lexeme

def fetchOpen (s : Scanner) (lexeme : Lexeme) : Option Scanner := do
  let s ← s.saveCandidate
  return { s with
    outer := s.candidate :: s.outer, candidate := none, keyAllowed := true }.take 1 lexeme

def fetchClose (s : Scanner) (lexeme : Lexeme) : Option Scanner := do
  let s ← s.dropCandidate
  let s := match s.outer with
    | [] => s
    | c :: outer => { s with candidate := c, outer := outer }
  return { s with keyAllowed := false }.take 1 lexeme

def fetchComma (s : Scanner) : Option Scanner := do
  let s ← s.dropCandidate
  return { s with keyAllowed := true }.take 1 .comma

def fetchItem (s : Scanner) : Option Scanner := do
  if !s.inFlow && !s.keyAllowed then failure
  let s ← (s.openBlock s.mark.column s.count .blockSequence s.mark).dropCandidate
  return { s with keyAllowed := true }.take 1 .item

def fetchKey (s : Scanner) : Option Scanner := do
  if !s.inFlow && !s.keyAllowed then failure
  let s ← (s.openBlock s.mark.column s.count .blockMapping s.mark).dropCandidate
  return { s with keyAllowed := !s.inFlow }.take 1 .key

/-- A colon after a key. -/
def fetchValue (s : Scanner) : Option Scanner := do
  match ← s.currentCandidate with
  | some c =>
    let s := (s.emitAt c.position .key c.mark).openBlock
      c.mark.column c.position .blockMapping c.mark
    return { s with candidate := none, keyAllowed := false }.take 1 .value
  | none =>
    if !s.inFlow && !s.keyAllowed then failure
    let s := s.openBlock s.mark.column s.count .blockMapping s.mark
    return { s with candidate := none, keyAllowed := !s.inFlow }.take 1 .value

def fetchScalar (s : Scanner) (isPlain : Bool) (read : List Char → Mark → Option Scanned) :
    Option Scanner := do
  let s ← s.saveCandidate
  let found ← read s.rest s.mark
  let s := s.emit (.scalar found.text isPlain) s.mark found.stop
  return { s with rest := found.rest, mark := found.mark, keyAllowed := found.newLine }

/-- These characters have a meaning of their own, or none, and do not start a plain scalar. -/
def isIndicator (c : Char) : Bool :=
  "-?:,[]\x7b\x7d#&*!|>'\"%@\x60".toList.contains c

/-- The next token. Anchors, aliases, tags, directives and block scalars are refused. -/
def fetch (s : Scanner) : Option Scanner :=
  let s := s.skip
  let s := s.close (some s.mark.column)
  match s.rest with
  | [] => s.fetchEnd
  | c :: cs =>
    if s.mark.column == 0 && atDocumentMark '-' s.rest then s.fetchDocument .documentStart
    else if s.mark.column == 0 && atDocumentMark '.' s.rest then s.fetchDocument .documentEnd
    else if c == '[' then s.fetchOpen .flowSequence
    else if c == '\x7b' then s.fetchOpen .flowMapping
    else if c == ']' then s.fetchClose .flowSequenceEnd
    else if c == '\x7d' then s.fetchClose .flowMappingEnd
    else if c == ',' then s.fetchComma
    else if c == '-' && atBlank cs then s.fetchItem
    else if c == '?' && (s.inFlow || atBlank cs) then s.fetchKey
    else if c == ':' && (s.inFlow || atBlank cs) then s.fetchValue
    else if c == '\'' then s.fetchScalar false fun rest m =>
      singleFrom (rest.drop 1) m.next [] .none
    else if c == '"' then s.fetchScalar false fun rest m =>
      doubleFrom (rest.drop 1) m.next [] .none .none
    else if (!isIndicator c && !isSpace c) || c == '-' || (!s.inFlow && (c == '?' || c == ':')) then
      s.fetchScalar true (plain s.inFlow (match s.indent with | none => 0 | some i => i + 1))
    else none

/-- Reads tokens up to the end of the text. Every token takes at least one character, so `fuel`
need not exceed the length of the text by more than one. -/
def run : Nat → Scanner → Tokens
  | 0, s => ⟨s.tokens.reverse, true⟩
  | fuel + 1, s =>
    match s.fetch with
    | none => ⟨s.tokens.reverse, true⟩
    | some s =>
      match s.tokens with
      | ⟨.textEnd, _, _⟩ :: _ => ⟨s.tokens.reverse, false⟩
      | _ => run fuel s

end Scanner

def Tokens.ofText (text : String) : Tokens :=
  let cs := text.toList
  if cs.all isAllowed then
    let cs := match cs with
      | '\ufeff' :: cs => cs
      | cs => cs
    Scanner.run (cs.length + 1) { rest := unifyBreaks cs }
  else ⟨[], true⟩

end RuleTable.Yaml
