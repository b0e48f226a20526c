import RuleTable.Section.Event
import RuleTable.Text.Blank
import RuleTable.Text.Case
import RuleTable.Text.Numeral

/-!
The log: one line per event, with a level, a message and attributes. Levels are numbers; lines below
the level that was asked for are left out.
-/

namespace RuleTable

open Text

abbrev Level := Int64

namespace Level

def names : List (String × Level) := [("DEBUG", -4), ("INFO", 0), ("WARN", 4), ("ERROR", 8)]

inductive Fault
  | unknownName
  | badOffset (text : String) (fault : NumeralFault)

def Fault.message : Fault → String
  | .unknownName => "unknown name"
  | .badOffset text fault => s!"strconv.Atoi: parsing {quoted text}: {fault.message}"

/-- Reads a name in upper or lower case, and the offset that may follow it. -/
def read (s : String) : Except Fault Level :=
  let isSign (c : Char) : Bool := c == '+' || c == '-'
  let name := s.toList.takeWhile (!isSign ·)
  let offset := s.toList.dropWhile (!isSign ·)
  let shift := if offset.isEmpty then .ok 0 else readSigned .decimal offset
  match shift, names.lookup (upper (String.ofList name)) with
  | .error fault, _ => .error (.badOffset (String.ofList offset) fault)
  | .ok _, none => .error .unknownName
  | .ok n, some level => .ok (level + Int64.ofInt n)

def parse (s : String) : Except Failure Level :=
  match read (trim s) with
  | .ok level => .ok level
  | .error fault =>
    let words := s!"slog: level string {quoted (trim s)}: {fault.message}"
    .error (.bare (.text s!"invalid log level {quoted s}: {words}"))

end Level

structure LogLine where
  level : String
  message : String
  attributes : List (String × String)

namespace LogLine

def needsQuotes (c : Char) : Bool :=
  if c.toNat < 0x80 then c.toNat ≤ 0x20 || c == '=' || c == '"'
  else isBlank c || c == '\ufffd' || !isPrintable c

/-- A value, in quotes if it is empty or could be misread. -/
def value (s : String) : String :=
  if s.isEmpty || s.toList.any needsQuotes then quoted s else s

def text (l : LogLine) : String :=
  " ".intercalate ((("level", l.level) :: ("msg", l.message) :: l.attributes).map fun (k, v) =>
    k ++ "=" ++ value v) ++ "\n"

end LogLine

/-- The line that tells of an event. -/
def Event.logLine? : Event → Option LogLine
  | .parsed path sections =>
    some ⟨"DEBUG", "parsed rule file", [("path", path), ("sections", toString sections)]⟩
  | .neighborhood table nb =>
    some ⟨"DEBUG", "neighborhood",
      [("section", table), ("name", nb.name), ("size", toString nb.size)]⟩
  | .symmetry table t =>
    some ⟨"DEBUG", "symmetries",
      [("section", table), ("type", t.name), ("order", toString t.order)]⟩
  | .rejected table span failure =>
    some ⟨"WARN", "transition rejected",
      [("section", table), ("span", span.text), ("kind", failure.kind.name),
        ("err", failure.message)]⟩
  | .abandoned .. => none
  | .chosen table t declared =>
    some ⟨"DEBUG", "minimal symmetry",
      [("section", table), ("type", t.name), ("declared", toString declared)]⟩
  | .compiled result =>
    some ⟨"DEBUG", "section compiled",
      [("section", result.name), ("neighborhood", result.neighborhood.name),
        ("symmetries", result.symmetry.name), ("lines", toString result.lines.length),
        ("duplicates", toString result.stats.duplicates)]⟩

def logOf (level : Level) (events : List Event) : String :=
  String.join ((events.filterMap Event.logLine?).filterMap fun l =>
    match Level.names.lookup l.level with
    | some own => if level ≤ own then some l.text else none
    | none => none)

end RuleTable
