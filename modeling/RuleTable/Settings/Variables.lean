import RuleTable.Host
import RuleTable.Text.Blank

/-!
Files of variables: lines `NAME=value`, with comments, an optional `export` before the name, and
values in quotes. Values may hold the variables before them.
-/

namespace RuleTable.Variables

open Text

/-- A blank that does not end a line. -/
def isSpace (c : Char) : Bool :=
  let n := c.toNat
  n == 0x09 || (0x0b ≤ n && n ≤ 0x0d) || n == 0x20 || n == 0x85 || n == 0xa0

/-- One line feed for each carriage return that has one after it. -/
def unifyBreaksFrom (done : List Char) : List Char → List Char
  | [] => done.reverse
  | '\r' :: '\n' :: cs => unifyBreaksFrom ('\n' :: done) cs
  | c :: cs => unifyBreaksFrom (c :: done) cs

/-- The text from the next assignment on: blanks and comments are passed over. -/
def start : Nat → List Char → List Char
  | 0, cs => cs
  | fuel + 1, cs =>
    match cs.dropWhile isBlank with
    | '#' :: rest => start fuel (rest.dropWhile (· != '\n'))
    | rest => rest

/-- A byte that may stand in a name, if it is taken for a character: letters, digits and other
numbers, underscores, points, and blanks. -/
def inName (n : Nat) : Bool :=
  (0x30 ≤ n && n ≤ 0x39) || (0x41 ≤ n && n ≤ 0x5a) || (0x61 ≤ n && n ≤ 0x7a) ||
    n == 0x5f || n == 0x2e || n == 0x09 || (0x0b ≤ n && n ≤ 0x0d) || n == 0x20 ||
    [0x85, 0xa0, 0xaa, 0xb2, 0xb3, 0xb5, 0xb9, 0xba, 0xbc, 0xbd, 0xbe].contains n ||
    (0xc0 ≤ n && n ≤ 0xff && n != 0xd7 && n != 0xf7)

/-- A name may hold this character: all bytes of its UTF-8 form may stand there. -/
def mayName (c : Char) : Bool :=
  (String.singleton c).toUTF8.data.toList.all fun b => inName b.toNat

/-- The text after `export` and a blank, if it starts with them. -/
def skipExport : List Char → List Char
  | 'e' :: 'x' :: 'p' :: 'o' :: 'r' :: 't' :: c :: cs =>
    if isSpace c then cs.dropWhile isSpace
    else 'e' :: 'x' :: 'p' :: 'o' :: 'r' :: 't' :: c :: cs
  | cs => cs

/-- The name at the start of an assignment, and what follows it. Without an equals sign or a colon
in the rest of the text the name is empty and all of it is value. -/
def name? (cs : List Char) : Option (String × List Char) :=
  let cs := skipExport cs
  let isEnd (c : Char) : Bool := c == '=' || c == ':'
  let name := cs.takeWhile (!isEnd ·)
  if cs.isEmpty || !name.all mayName then none
  else match cs.dropWhile (!isEnd ·) with
    | [] => some ("", cs)
    | _ :: rest =>
      some (String.ofList (name.reverse.dropWhile isBlank).reverse, rest.dropWhile isSpace)

/-- A character of a variable's name where it is used. -/
def inReference (c : Char) : Bool :=
  ('A' ≤ c && c ≤ 'Z') || ('0' ≤ c && c ≤ '9') || c == '_'

def dropOne (c : Char) : List Char → List Char
  | d :: cs => if d == c then cs else d :: cs
  | [] => []

/-- The name after a dollar sign, between optional brackets, and what follows them. -/
def reference (cs : List Char) : List Char × List Char :=
  let cs := dropOne '\x7b' (dropOne '(' cs)
  (cs.takeWhile inReference, dropOne '\x7d' (cs.dropWhile inReference))

/-- The text with variables in place of their names. A backslash keeps a dollar sign from having a
meaning, and one without a name has none. -/
def expand (vars : Environment) : Nat → List Char → List Char
  | 0, _ => []
  | _, [] => []
  | fuel + 1, '\\' :: '$' :: cs =>
    let rest := (reference cs).2
    ('$' :: cs.take (cs.length - rest.length)) ++ expand vars fuel rest
  | fuel + 1, '$' :: cs =>
    let (name, rest) := reference cs
    let value :=
      if name.isEmpty then '$' :: cs.take (cs.length - rest.length)
      else ((vars.lookup (String.ofList name)).getD "").toList
    value ++ expand vars fuel rest
  | fuel + 1, c :: cs => c :: expand vars fuel cs

/-- Line feeds and carriage returns in place of their escapes. -/
def breaks : List Char → List Char
  | '\\' :: 'n' :: cs => '\n' :: breaks cs
  | '\\' :: 'r' :: cs => '\r' :: breaks cs
  | '\\' :: '\n' :: cs => '\\' :: '\n' :: breaks cs
  | '\\' :: c :: cs => '\\' :: c :: breaks cs
  | c :: cs => c :: breaks cs
  | [] => []

/-- The characters without the backslashes before them, but a dollar sign keeps its own. -/
def plain : List Char → List Char
  | '\\' :: '$' :: cs => '\\' :: '$' :: plain cs
  | '\\' :: c :: cs => c :: plain cs
  | c :: cs => c :: plain cs
  | [] => []

/-- Cuts off a comment: the last mark that has a blank before it. The line is given from its end. -/
def cutComment : List Char → Option (List Char)
  | '#' :: c :: cs => if isSpace c then some (c :: cs) else cutComment (c :: cs)
  | _ :: cs => cutComment cs
  | [] => none

def bareValue (vars : Environment) (cs : List Char) : String × List Char :=
  let isEnd (c : Char) : Bool := c == '\n' || c == '\r'
  let line := (cs.takeWhile (!isEnd ·)).reverse
  let line := ((cutComment line).getD line).dropWhile isSpace
  let value := line.reverse.dropWhile isSpace
  (String.ofList (expand vars (value.length + 1) value), cs.dropWhile (!isEnd ·))

/-- Takes characters up to a quote without a backslash before it. `previous` is the character
before. -/
def untilQuote? (quote : Char) (done : List Char) (previous : Char) :
    List Char → Option (List Char × List Char)
  | [] => none
  | c :: cs =>
    if c == quote && previous != '\\' then some (done.reverse, cs)
    else untilQuote? quote (c :: done) c cs

/-- The value between quotes. Only double quotes have escapes and variables inside. -/
def quotedValue? (vars : Environment) (quote : Char) (cs : List Char) :
    Option (String × List Char) := do
  let (inside, rest) ← untilQuote? quote [] quote cs
  let isQuote (c : Char) : Bool := c == quote
  let inside := ((inside.reverse.dropWhile isQuote).reverse).dropWhile isQuote
  if quote == '"' then
    let inside := plain (breaks inside)
    return (String.ofList (expand vars (inside.length + 1) inside), rest)
  return (String.ofList inside, rest)

def value? (vars : Environment) : List Char → Option (String × List Char)
  | '"' :: cs => quotedValue? vars '"' cs
  | '\'' :: cs => quotedValue? vars '\'' cs
  | cs => some (bareValue vars cs)

/-- Reads assignments one after the other, the last one first. Every one takes a character. -/
def readFrom (vars : Environment) : Nat → List Char → Option Environment
  | 0, _ => some vars
  | fuel + 1, cs =>
    match start cs.length cs with
    | [] => some vars
    | cs => do
      let (name, rest) ← name? cs
      let (value, rest) ← value? vars rest
      readFrom ((name, value) :: vars) fuel rest

/-- The variables of a file, the last one first; none if it is malformed. -/
def ofText? (text : String) : Option Environment :=
  let cs := unifyBreaksFrom [] text.toList
  readFrom [] (cs.length + 1) cs

/-- A variable can be set to this. -/
def canSet : String × String → Bool
  | (name, value) => !name.isEmpty && !value.toList.contains '\x00'

/-- An environment with those variables of a file that it does not have. A file that is missing or
malformed adds none. -/
def extend (env : Environment) (file : Reading) : Environment :=
  match file with
  | .error _ => env
  | .ok text => env ++ ((ofText? text).getD []).filter canSet

end RuleTable.Variables
