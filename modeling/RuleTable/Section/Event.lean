import RuleTable.Section.Basic

/-!
What happens while a file is compiled, for those who watch: the log and the counters are made from
this.
-/

namespace RuleTable

/-- Something that happens while a file is compiled. -/
inductive Event
  /-- the file was read -/
  | parsed (path : String) (sections : Nat)
  /-- a section takes a neighborhood -/
  | neighborhood (table : String) (nb : Neighborhood)
  /-- a section takes a symmetry -/
  | symmetry (table : String) (symmetry : Symmetry)
  /-- a statement is refused; the section goes on -/
  | rejected (table : String) (span : Span) (failure : Failure)
  /-- a section is given up -/
  | abandoned (table : String) (failure : Failure)
  /-- the symmetry a section is written under is chosen for so many transitions -/
  | chosen (table : String) (symmetry : Symmetry) (declared : Nat)
  /-- a section is done -/
  | compiled (result : CompiledSection)

end RuleTable
