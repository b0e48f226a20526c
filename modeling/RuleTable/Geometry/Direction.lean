import RuleTable.Failure
import RuleTable.Text.Blank
import RuleTable.Text.Case

/-!
Compass directions: the eight neighbors of a cell and the cell itself. East is the first coordinate
and north the second, so that directions can be added and subtracted.
-/

namespace RuleTable

open Text

/-- A cell of the block around a center, the center included. -/
inductive Direction
  | n | ne | e | se | s | sw | w | nw
  /-- the center -/
  | c
  deriving DecidableEq, Repr, Inhabited

namespace Direction

def compass : List Direction := [.n, .ne, .e, .se, .s, .sw, .w, .nw]

def all : List Direction := compass ++ [.c]

def label : Direction → String
  | .n => "N" | .ne => "NE" | .e => "E" | .se => "SE"
  | .s => "S" | .sw => "SW" | .w => "W" | .nw => "NW"
  | .c => "C"

def ofLabel? (label : String) : Option Direction := all.find? (·.label == label)

/-- The direction with this label; anything off the compass stands for the center. -/
def ofLabel (label : String) : Direction := (ofLabel? label).getD .c

/-- Reads a label, in any case and between blanks. -/
def parse (s : String) : Except Failure Direction :=
  match ofLabel? (upper (trim s)) with
  | some d => .ok d
  | none => .error (.bare (.unknownDirection s))

/-- The clockwise angle from north in eighths of a turn. The center has none. -/
def eighth? (d : Direction) : Option Nat := compass.idxOf? d

/-- Steps to the east and to the north. -/
def offset : Direction → Int × Int
  | .n => (0, 1) | .ne => (1, 1) | .e => (1, 0) | .se => (1, -1)
  | .s => (0, -1) | .sw => (-1, -1) | .w => (-1, 0) | .nw => (-1, 1)
  | .c => (0, 0)

/-- The direction that lies so many steps to the east and to the north. -/
def ofOffset? (east north : Int) : Option Direction := all.find? (·.offset == (east, north))

/-- What the center sees where the cell at `target` sees `d`. -/
def translate (target d : Direction) : Option Direction :=
  ofOffset? (target.offset.1 + d.offset.1) (target.offset.2 + d.offset.2)

/-- What the cell at `target` sees where the center sees `d`. -/
def reproject (target d : Direction) : Option Direction :=
  ofOffset? (d.offset.1 - target.offset.1) (d.offset.2 - target.offset.2)

end Direction

end RuleTable
