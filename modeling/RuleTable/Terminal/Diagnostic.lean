import RuleTable.Failure

/-!
Failures on a terminal: the class is painted in a color of its own.
-/

namespace RuleTable

structure Color where
  red : Nat
  green : Nat
  blue : Nat
  deriving DecidableEq, Repr

def Kind.color? : Kind → Option Color
  | .undefinedReference => some ⟨243, 113, 182⟩
  | .syntaxInconsistency => some ⟨251, 113, 133⟩
  | .valueRange => some ⟨251, 191, 36⟩
  | .geometry => some ⟨167, 139, 250⟩
  | .unsupported => some ⟨129, 140, 248⟩
  | .other _ => none

def Kind.painted (k : Kind) : String :=
  let style := match k.color? with
    | some c => s!"38;2;{c.red};{c.green};{c.blue};1"
    | none => "1"
  "\x1b[" ++ style ++ "m" ++ k.name ++ "\x1b[0m"

/-- A failure on one line. Only a diagnostic without context is painted. -/
def Failure.shown (f : Failure) (color : Bool) : String :=
  match color, f with
  | true, .diagnosed d =>
    if d.span.isNowhere then s!"{d.kind.painted}: {d.cause.message}"
    else s!"{d.span.text}: {d.kind.painted}: {d.cause.message}"
  | _, f => f.message

end RuleTable
