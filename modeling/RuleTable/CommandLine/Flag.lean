import RuleTable.Settings.Load

/-!
Flags on the command line: `--name value`, `--name=value`, and letters after one dash. Flags and
arguments may be mixed; two dashes end the flags.
-/

namespace RuleTable.CommandLine

open Text

inductive FlagKind
  | text
  /-- a whole number without a sign -/
  | number
  /-- yes or no; the flag alone means yes -/
  | switch
  deriving DecidableEq, Repr

structure Flag where
  name : String
  letter : Option Char := none
  kind : FlagKind := .text
  deriving DecidableEq, Repr

def Flag.shown (f : Flag) : String :=
  match f.letter with
  | some c => s!"-{c}, --{f.name}"
  | none => s!"--{f.name}"

/-- The flag may stand without a value. -/
def Flag.alone (f : Flag) : Bool := f.kind = .switch

/-- What is wrong with a command line. -/
inductive Fault
  | unknownCommand (name : String) (suggestions : List String)
  | unknownFlag (name : String)
  | unknownLetter (letters : List Char)
  | noValue (name : String)
  | noValueLetter (letters : List Char)
  | malformed (argument : String)
  | badValue (flag : Flag) (value reader : String) (fault : NumeralFault)
  | argumentCount (expected given : Nat)
  deriving Repr

def quotedLetter (c : Char) : String :=
  let inside := if c == '"' then ['"'] else if c == '\'' then ['\\', '\''] else quotedChar c
  String.ofList (['\''] ++ inside ++ ['\''])

/-- The first of some letters, as messages name it. Letters are bytes there, and the first byte of a
character beyond ASCII is taken for one of its own. -/
def firstLetter (letters : List Char) : String :=
  match letters with
  | [] => ""
  | c :: _ => quotedLetter (if c.toNat < 0x80 then c else '\u00c3')

/-- The words for it. -/
def Fault.message : Fault → String
  | .unknownCommand name suggestions =>
    let hint :=
      if suggestions.isEmpty then ""
      else "\n\nDid you mean this?\n" ++ String.join (suggestions.map fun s => s!"\t{s}\n")
    s!"unknown command {quoted name} for \"nutshell\"{hint}"
  | .unknownFlag name => s!"unknown flag: --{name}"
  | .unknownLetter letters =>
    s!"unknown shorthand flag: {firstLetter letters} in -{String.ofList letters}"
  | .noValue name => s!"flag needs an argument: --{name}"
  | .noValueLetter letters =>
    s!"flag needs an argument: {firstLetter letters} in -{String.ofList letters}"
  | .malformed argument => s!"bad flag syntax: {argument}"
  | .badValue flag value reader fault =>
    s!"invalid argument {quoted value} for {quoted flag.shown} flag: " ++
      s!"strconv.{reader}: parsing {quoted value}: {fault.message}"
  | .argumentCount expected given => s!"accepts {expected} arg(s), received {given}"

/-- A flag takes this value. -/
def Flag.check (f : Flag) (value : String) : Except Fault Unit :=
  match f.kind with
  | .text => .ok ()
  | .number =>
    match readUnsigned .literal value.toList with
    | .ok _ => .ok ()
    | .error fault => .error (.badValue f value "ParseUint" fault)
  | .switch =>
    match readBool? value with
    | some _ => .ok ()
    | none => .error (.badValue f value "ParseBool" .malformed)

/-- The flags that were given with their values, the last one first, and the arguments, the last one
first. -/
structure Given where
  values : List (String × String) := []
  arguments : List String := []
  deriving Repr

def Given.add (g : Given) (f : Flag) (value : String) : Except Fault Given :=
  match f.check value with
  | .ok _ => .ok { g with values := (f.name, value) :: g.values }
  | .error fault => .error fault

/-- Reads the letters after one dash. The last of them may take its value from the arguments that
follow. Words for the testing of programs, which start with `test.`, are passed over. -/
def readLetters (flags : List Flag) (g : Given) (next : List String) :
    List Char → Except Fault (Given × List String)
  | [] => .ok (g, next)
  | c :: cs =>
    if ['t', 'e', 's', 't', '.'].isPrefixOf (c :: cs) then .ok (g, next)
    else
      match flags.find? (·.letter == some c) with
      | none => .error (.unknownLetter (c :: cs))
      | some f =>
        match cs with
        | '=' :: d :: ds => (g.add f (String.ofList (d :: ds))).map (·, next)
        | cs =>
          if f.alone then
            match g.add f "true" with
            | .ok g => readLetters flags g next cs
            | .error fault => .error fault
          else if !cs.isEmpty then (g.add f (String.ofList cs)).map (·, next)
          else
            match next with
            | value :: next => (g.add f value).map (·, next)
            | [] => .error (.noValueLetter (c :: cs))

/-- Reads a flag after two dashes, which may take its value from the arguments that follow. -/
def readName (flags : List Flag) (g : Given) (next : List String) (argument : String)
    (cs : List Char) : Except Fault (Given × List String) :=
  let name := String.ofList (cs.takeWhile (· != '='))
  if name.isEmpty || name.startsWith "-" then .error (.malformed argument)
  else
    match flags.find? (·.name == name) with
    | none => .error (.unknownFlag name)
    | some f =>
      match cs.dropWhile (· != '='), f.alone, next with
      | _ :: value, _, next => (g.add f (String.ofList value)).map (·, next)
      | [], true, next => (g.add f "true").map (·, next)
      | [], false, value :: next => (g.add f value).map (·, next)
      | [], false, [] => .error (.noValue name)

/-- Reads flags and arguments. Every step takes one of them at least. -/
def readFrom (flags : List Flag) (g : Given) : Nat → List String → Except Fault Given
  | 0, _ | _, [] => .ok g
  | fuel + 1, s :: rest =>
    let onward : Except Fault (Given × List String) → Except Fault Given
      | .ok (g, rest) => readFrom flags g fuel rest
      | .error fault => .error fault
    match s.toList with
    | ['-', '-'] => .ok { g with arguments := rest.reverse ++ g.arguments }
    | '-' :: '-' :: cs => onward (readName flags g rest s cs)
    | '-' :: c :: cs => onward (readLetters flags g rest (c :: cs))
    | _ => readFrom flags { g with arguments := s :: g.arguments } fuel rest

def read (flags : List Flag) (args : List String) : Except Fault Given :=
  readFrom flags {} args.length args

/-- An argument that looks like a flag with its value still to come. -/
def takesNext (flags : List Flag) (s : String) : Bool :=
  let alone (found : Option Flag) : Bool := (found.map (·.alone)).getD false
  !s.toList.contains '=' &&
    match s.toList with
    | '-' :: '-' :: cs => !alone (flags.find? (·.name == String.ofList cs))
    | '-' :: c :: [] => c.toNat < 0x80 && !alone (flags.find? (·.letter == some c))
    | _ => false

/-- The arguments that are no flags, as far as one can tell with only these flags known. -/
def words (flags : List Flag) : List String → List String
  | [] => []
  | s :: rest =>
    if s = "--" then []
    else if takesNext flags s then
      match rest with
      | [] | [_] => []
      | _ :: rest => words flags rest
    else if s.isEmpty || s.startsWith "-" then words flags rest
    else s :: words flags rest

/-- The arguments without the first one that is the given word. -/
def without (flags : List Flag) (word : String) : List String → List String
  | [] => []
  | s :: rest =>
    if s = "--" then s :: rest
    else if takesNext flags s then
      match rest with
      | [] => [s]
      | value :: rest => s :: value :: without flags word rest
    else if s = word then rest
    else s :: without flags word rest

end RuleTable.CommandLine
