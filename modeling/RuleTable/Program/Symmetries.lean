import RuleTable.Program.Compile

/-!
Lists of the symmetries of a neighborhood, for the command line and as a table in Markdown.
-/

namespace RuleTable

def padRight (width : Nat) (s : String) : String := s.pushn ' ' (width - s.length)

def symmetryColumns (classes : List Symmetry) : String :=
  String.join (classes.map fun t => s!"{padRight 16 t.name} {t.order}\n")

/-- The names and orders of symmetries as a table under a heading. -/
def symmetryTable (heading : String) (classes : List Symmetry) : String :=
  s!"## {heading}\n\n| class | order |\n|---|---:|\n" ++
    String.join (classes.map fun t => s!"| {t.name} | {t.order} |\n")

def classesOf (neighborhood : String) : Except Stop (List Symmetry) :=
  ((Compiler.classes neighborhood).run.run {}).1

def listSymmetries (neighborhood : String) : Ending :=
  match classesOf neighborhood with
  | .ok classes => { output := symmetryColumns classes }
  | .error (.refused f) => { failure := some (.failed f) }
  | .error .crash => { failure := some .crash }

end RuleTable
