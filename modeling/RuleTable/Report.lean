import RuleTable.Compiler

/-!
Reports: what came of a compilation, section by section and failure by failure, for other programs.
-/

namespace RuleTable

/-- A failure in a report. A line or a column of zero is not known. -/
structure ReportEntry where
  kind : String
  line : Int
  column : Int
  message : String
  deriving DecidableEq, Repr

structure ReportSection where
  name : String
  symmetry : String
  lines : Nat
  table : String
  deriving DecidableEq, Repr

structure Report where
  sections : List ReportSection
  failures : List ReportEntry
  deriving DecidableEq, Repr

/-- The words of a failure and its context, without place and class. -/
def Failure.brief : Failure → String
  | .bare cause => cause.message
  | .diagnosed d => d.cause.message
  | .within context inner => s!"{context.message}: {inner.brief}"

def Failure.entry (f : Failure) : ReportEntry :=
  match f.diagnostic? with
  | some d => ⟨d.kind.name, d.span.line, d.span.start, f.brief⟩
  | none => ⟨"Error", 0, 0, f.message⟩

def CompiledSection.entry (s : CompiledSection) : ReportSection :=
  ⟨s.name, s.symmetry.name, s.lines.length, s.render⟩

def Compilation.report (c : Compilation) : Report :=
  ⟨c.sections.map (·.entry), c.failures.map (·.entry)⟩

def Report.ok (r : Report) : Bool := r.failures.isEmpty

end RuleTable
