/-!
The scalars of a YAML text: characters and where they stand, plain and quoted scalars, and how the
line breaks inside them are folded.
-/

namespace RuleTable.Yaml

/-- A place in the text, counted in characters from zero. -/
structure Mark where
  index : Nat := 0
  line : Nat := 0
  column : Nat := 0
  deriving DecidableEq, Repr, Inhabited

def Mark.next (m : Mark) : Mark := ⟨m.index + 1, m.line, m.column + 1⟩

def Mark.newLine (m : Mark) : Mark := ⟨m.index + 1, m.line + 1, 0⟩

def isSpace (c : Char) : Bool := c == ' ' || c == '\t'

def isBreak (c : Char) : Bool := c == '\n' || c == '\u2028' || c == '\u2029'

/-- The rest of the text starts with a blank or a line break, or is empty. -/
def atBlank : List Char → Bool
  | [] => true
  | c :: _ => isSpace c || isBreak c

def isAllowed (c : Char) : Bool :=
  let n := c.toNat
  n == 0x09 || n == 0x0a || n == 0x0d || (0x20 ≤ n && n ≤ 0x7e) || n == 0x85 ||
    (0xa0 ≤ n && n ≤ 0xfffd) || 0x10000 ≤ n

/-- The rest of the characters with their line breaks made alike, after those already done, the last
one first. -/
def unifyBreaksFrom (done : List Char) : List Char → List Char
  | [] => done.reverse
  | '\r' :: '\n' :: cs => unifyBreaksFrom ('\n' :: done) cs
  | c :: cs => unifyBreaksFrom ((if c == '\r' || c == '\u0085' then '\n' else c) :: done) cs

/-- One line break for each pair of carriage return and line feed, each carriage return alone, and
each next-line character. -/
def unifyBreaks (cs : List Char) : List Char := unifyBreaksFrom [] cs

/-- The rest of the text starts with three marks that begin or end a document. -/
def atDocumentMark (mark : Char) : List Char → Bool
  | a :: b :: c :: cs => a == mark && b == mark && c == mark && atBlank cs
  | _ => false

/-- A document begins or ends here. -/
def atDocumentBound (m : Mark) (cs : List Char) : Bool :=
  m.column == 0 && (atDocumentMark '-' cs || atDocumentMark '.' cs)

/-- What stands between two words of a scalar. -/
inductive Gap
  | none
  /-- blanks, the last one first -/
  | blanks (cs : List Char)
  /-- a line break, if it counts, and those after it, the last one first -/
  | breaks (first : Option Char) (more : List Char)
  deriving Repr

namespace Gap

def hasBreak : Gap → Bool
  | .breaks .. => true
  | _ => false

/-- The gap with one more blank. Blanks at the start of a line do not count. -/
def addBlank (c : Char) : Gap → Gap
  | .none => .blanks [c]
  | .blanks cs => .blanks (c :: cs)
  | .breaks first more => .breaks first more

/-- The gap with one more line break. Blanks before the first one do not count. -/
def addBreak (c : Char) : Gap → Gap
  | .none | .blanks _ => .breaks (some c) []
  | .breaks first more => .breaks first (c :: more)

/-- What the gap stands for, the last character first: a single line break is a space, several are
all but the first. -/
def folded : Gap → List Char
  | .none => []
  | .blanks cs => cs
  | .breaks (some '\n') [] => [' ']
  | .breaks (some '\n') more => more
  | .breaks first more => more ++ first.toList

end Gap

/-- A scalar, the place after its last character, and the rest of the text with its place. -/
structure Scanned where
  text : String
  stop : Mark
  rest : List Char
  mark : Mark
  /-- the scalar was followed by a line break, and the rest starts on a later line -/
  newLine : Bool

/-- A plain scalar ends before these characters. -/
def endsPlain (inFlow : Bool) (c : Char) (cs : List Char) : Bool :=
  (c == ':' && atBlank cs) ||
    (inFlow && (c == ',' || c == '?' || c == '[' || c == ']' || c == '\x7b' || c == '\x7d'))

/-- Reads a plain scalar whose words so far are `acc`, backwards. On later lines it is indented by
at least `indent` columns, unless it is inside brackets. -/
def plainFrom (inFlow : Bool) (indent : Nat) :
    List Char → Mark → List Char → Mark → Gap → Option Scanned
  | [], m, acc, stop, gap => some ⟨String.ofList acc.reverse, stop, [], m, gap.hasBreak⟩
  | c :: cs, m, acc, stop, gap =>
    let done := some ⟨String.ofList acc.reverse, stop, c :: cs, m, gap.hasBreak⟩
    if isSpace c then
      if gap.hasBreak && m.column < indent && c == '\t' then none
      else plainFrom inFlow indent cs m.next acc stop (gap.addBlank c)
    else if isBreak c then plainFrom inFlow indent cs m.newLine acc stop (gap.addBreak c)
    else
      let wordStarts := match gap with
        | .none => false
        | _ => true
      if wordStarts &&
        ((!inFlow && m.column < indent) || atDocumentBound m (c :: cs) || c == '#') then
        done
      else if endsPlain inFlow c cs then done
      else plainFrom inFlow indent cs m.next (c :: gap.folded ++ acc) m.next .none

def plain (inFlow : Bool) (indent : Nat) (cs : List Char) (m : Mark) : Option Scanned :=
  plainFrom inFlow indent cs m [] m .none

/-- Reads the rest of a scalar in single quotes. A quote inside is written twice. -/
def singleFrom : List Char → Mark → List Char → Gap → Option Scanned
  | [], _, _, _ => none
  | '\'' :: '\'' :: cs, m, acc, gap =>
    singleFrom cs m.next.next ('\'' :: gap.folded ++ acc) .none
  | c :: cs, m, acc, gap =>
    if atDocumentBound m (c :: cs) then none
    else if c == '\'' then
      some ⟨String.ofList (gap.folded ++ acc).reverse, m.next, cs, m.next, false⟩
    else if isSpace c then singleFrom cs m.next acc (gap.addBlank c)
    else if isBreak c then singleFrom cs m.newLine acc (gap.addBreak c)
    else singleFrom cs m.next (c :: gap.folded ++ acc) .none

inductive Escape
  | none
  /-- after the backslash -/
  | started
  /-- so many hexadecimal digits are still to come on top of a value -/
  | digits (left value : Nat)

/-- The character that a letter after a backslash stands for. -/
def escaped? (c : Char) : Option Char :=
  match c with
  | '0' => some '\x00'
  | 'a' => some '\x07'
  | 'b' => some '\x08'
  | 't' | '\t' => some '\t'
  | 'n' => some '\n'
  | 'v' => some '\x0b'
  | 'f' => some '\x0c'
  | 'r' => some '\r'
  | 'e' => some '\x1b'
  | ' ' => some ' '
  | '"' => some '"'
  | '/' => some '/'
  | '\'' => some '\''
  | '\\' => some '\\'
  | 'N' => some '\u0085'
  | '_' => some '\u00a0'
  | 'L' => some '\u2028'
  | 'P' => some '\u2029'
  | _ => none

/-- How many hexadecimal digits follow a letter after a backslash. -/
def escapeDigits? (c : Char) : Option Nat :=
  match c with
  | 'x' => some 2
  | 'u' => some 4
  | 'U' => some 8
  | _ => none

def hexValue? (c : Char) : Option Nat :=
  if '0' ≤ c ∧ c ≤ '9' then some (c.toNat - 48)
  else if 'a' ≤ c ∧ c ≤ 'f' then some (c.toNat - 87)
  else if 'A' ≤ c ∧ c ≤ 'F' then some (c.toNat - 55)
  else none

def charAt? (n : Nat) : Option Char :=
  if n < 0xd800 || (0xdfff < n && n < 0x110000) then some (Char.ofNat n) else none

/-- Reads the rest of a scalar in double quotes. -/
def doubleFrom : List Char → Mark → List Char → Gap → Escape → Option Scanned
  | [], _, _, _, _ => none
  | c :: cs, m, acc, gap, .digits left value =>
    match hexValue? c with
    | none => none
    | some d =>
      let value := 16 * value + d
      if left ≤ 1 then
        match charAt? value with
        | none => none
        | some c => doubleFrom cs m.next (c :: acc) gap .none
      else doubleFrom cs m.next acc gap (.digits (left - 1) value)
  | c :: cs, m, acc, gap, .started =>
    if isBreak c then doubleFrom cs m.newLine acc (.breaks .none []) .none
    else match escapeDigits? c, escaped? c with
      | some n, _ => doubleFrom cs m.next acc gap (.digits n 0)
      | none, some e => doubleFrom cs m.next (e :: acc) gap .none
      | none, none => none
  | c :: cs, m, acc, gap, .none =>
    if atDocumentBound m (c :: cs) then none
    else if c == '"' then
      some ⟨String.ofList (gap.folded ++ acc).reverse, m.next, cs, m.next, false⟩
    else if isSpace c then doubleFrom cs m.next acc (gap.addBlank c) .none
    else if isBreak c then doubleFrom cs m.newLine acc (gap.addBreak c) .none
    else if c == '\\' then doubleFrom cs m.next (gap.folded ++ acc) .none .started
    else doubleFrom cs m.next (c :: gap.folded ++ acc) .none .none

end RuleTable.Yaml
